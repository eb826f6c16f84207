import Mathlib

/-!
# The books of a till

What a till is for, with no word about rows, requests or gateways. Every order has a tab: it is
waiting until it is sold, for its whole total at once, or dropped; what was taken for it is given
back in parts, until all of it is. The books move only by entries, and `post` refuses an entry that
does not fit. What the entries of a journal add up to is what the books show: `net_of_journal`.

The orders are of any type, and the money is of any ordered group.
-/

namespace Books

variable {ι M : Type}

/-- Where a tab stands. -/
inductive Stage
  | waiting | sold | dropped | returned
  deriving DecidableEq, Repr

/-- The tab of an order: what it comes to, what was taken for it, what of that was given back. -/
@[ext]
structure Tab (M : Type) where
  stage : Stage
  total : M
  taken : M
  givenBack : M
  deriving DecidableEq, Repr

/-- What an entry does to a tab. -/
inductive Change (M : Type)
  /-- an order is taken down -/
  | opens (total : M)
  /-- it is paid for -/
  | sells (amount : M)
  /-- it is cancelled, or nobody came for it -/
  | drops
  /-- money of it is given back -/
  | givesBack (amount : M)
  deriving DecidableEq, Repr

/-- An entry of the journal. -/
structure Entry (ι M : Type) where
  order : ι
  change : Change M
  deriving DecidableEq, Repr

/-- The tabs of the orders that were taken down. -/
abbrev Tabs (ι M : Type) : Type := ι → Option (Tab M)

/-! ## Tabs -/

section tabs

variable [AddCommGroup M] [LinearOrder M]

/-- What is left in the till of what was taken for the order. -/
def Tab.net (t : Tab M) : M := t.taken - t.givenBack

/-- What an entry puts into the till. -/
def Change.money : Change M → M
  | opens _ => 0
  | sells amount => amount
  | drops => 0
  | givesBack amount => -amount

/-- The tab after an entry, where it fits. -/
def Change.on : Change M → Option (Tab M) → Option (Tab M)
  | opens total, none => some ⟨.waiting, total, 0, 0⟩
  | sells amount, some t =>
    if t.stage = .waiting ∧ amount = t.total ∧ 0 < amount then
      some { t with stage := .sold, taken := amount }
    else none
  | drops, some t => if t.stage = .waiting then some { t with stage := .dropped } else none
  | givesBack amount, some t =>
    if t.stage = .sold ∧ 0 < amount ∧ t.givenBack + amount ≤ t.taken then
      some { t with
        stage := if t.givenBack + amount = t.taken then .returned else .sold
        givenBack := t.givenBack + amount }
    else none
  | _, _ => none

/-- A tab in order: nothing was taken unless it was sold, and then all of it; no more was given back
than was taken, and all of it exactly when the tab is returned. -/
structure Tab.Fair (t : Tab M) : Prop where
  unsold : t.stage = .waiting ∨ t.stage = .dropped → t.taken = 0 ∧ t.givenBack = 0
  sold : t.stage = .sold → t.taken = t.total ∧ 0 ≤ t.givenBack ∧ t.givenBack < t.taken
  returned : t.stage = .returned → t.taken = t.total ∧ t.givenBack = t.taken

/-- An entry that fits puts its money into the till. -/
theorem Change.net_on {c : Change M} {o : Option (Tab M)} {t : Tab M} (h : c.on o = some t)
    (ho : ∀ u, o = some u → u.Fair) : t.net = (o.map Tab.net).getD 0 + c.money := by
  cases c with
  | opens total =>
    cases o with
    | none =>
      obtain rfl := Option.some.inj h
      simp [Tab.net, money]
    | some u => cases h
  | sells amount =>
    cases o with
    | none => cases h
    | some u =>
      simp only [on] at h
      split at h
      · rename_i hfits
        obtain rfl := Option.some.inj h
        obtain ⟨htaken, hgiven⟩ := (ho u rfl).unsold (Or.inl hfits.1)
        simp [Tab.net, money, htaken, hgiven]
      · cases h
  | drops =>
    cases o with
    | none => cases h
    | some u =>
      simp only [on] at h
      split at h
      · obtain rfl := Option.some.inj h
        simp [Tab.net, money]
      · cases h
  | givesBack amount =>
    cases o with
    | none => cases h
    | some u =>
      simp only [on] at h
      split at h
      · obtain rfl := Option.some.inj h
        simp only [Tab.net, money, Option.map_some, Option.getD_some]
        abel
      · cases h

/-- An entry keeps a tab in order. -/
theorem Change.fair_on [IsOrderedAddMonoid M] {c : Change M} {o : Option (Tab M)} {t : Tab M}
    (h : c.on o = some t) (ho : ∀ u, o = some u → u.Fair) : t.Fair := by
  cases c with
  | opens total =>
    cases o with
    | none =>
      obtain rfl := Option.some.inj h
      exact ⟨fun _ => ⟨rfl, rfl⟩, nofun, nofun⟩
    | some u => cases h
  | sells amount =>
    cases o with
    | none => cases h
    | some u =>
      simp only [on] at h
      split at h
      · rename_i hfits
        obtain ⟨hstage, rfl, hpos⟩ := hfits
        obtain rfl := Option.some.inj h
        obtain ⟨-, hgiven⟩ := (ho u rfl).unsold (Or.inl hstage)
        refine ⟨by simp, fun _ => ⟨rfl, ?_⟩, by simp⟩
        simpa [hgiven] using hpos
      · cases h
  | drops =>
    cases o with
    | none => cases h
    | some u =>
      simp only [on] at h
      split at h
      · rename_i hstage
        obtain rfl := Option.some.inj h
        exact ⟨fun _ => (ho u rfl).unsold (Or.inl hstage), nofun, nofun⟩
      · cases h
  | givesBack amount =>
    cases o with
    | none => cases h
    | some u =>
      simp only [on] at h
      split at h
      · rename_i hfits
        obtain ⟨hstage, hpos, hle⟩ := hfits
        obtain rfl := Option.some.inj h
        obtain ⟨htaken, hnonneg, -⟩ := (ho u rfl).sold hstage
        by_cases hall : u.givenBack + amount = u.taken
        · simp only [hall]
          exact ⟨by simp, by simp, fun _ => ⟨htaken, rfl⟩⟩
        · simp only [hall, if_false]
          exact ⟨by simp, fun _ => ⟨htaken, add_nonneg hnonneg hpos.le, lt_of_le_of_ne hle hall⟩,
            by simp⟩
      · cases h

end tabs

/-! ## Journals -/

section journals

variable [DecidableEq ι] [AddCommGroup M] [LinearOrder M]

/-- The books after an entry, where it fits. -/
def post (b : Tabs ι M) (e : Entry ι M) : Option (Tabs ι M) :=
  (e.change.on (b e.order)).map fun t => Function.update b e.order (some t)

/-- The books after a journal, where every entry fits. -/
def postAll (b : Tabs ι M) (journal : List (Entry ι M)) : Option (Tabs ι M) :=
  journal.foldlM post b

/-- What a journal puts into the till for an order. -/
def moneyOf (journal : List (Entry ι M)) (order : ι) : M :=
  ((journal.filter fun e => e.order = order).map fun e => e.change.money).sum

/-- What the books show in the till for an order. -/
def netOf (b : Tabs ι M) (order : ι) : M := ((b order).map Tab.net).getD 0

/-- Every tab of the books is in order. -/
def Fair (b : Tabs ι M) : Prop := ∀ order t, b order = some t → t.Fair

@[simp] theorem postAll_nil (b : Tabs ι M) : postAll b [] = some b := rfl

@[simp] theorem postAll_cons (b : Tabs ι M) (e : Entry ι M) (journal : List (Entry ι M)) :
    postAll b (e :: journal) = (post b e).bind fun b' => postAll b' journal := rfl

@[simp] theorem postAll_singleton (b : Tabs ι M) (e : Entry ι M) : postAll b [e] = post b e := by
  rw [postAll_cons]
  simp

theorem postAll_append (b : Tabs ι M) (journal journal' : List (Entry ι M)) :
    postAll b (journal ++ journal') =
      (postAll b journal).bind fun b' => postAll b' journal' := List.foldlM_append ..

omit [LinearOrder M] in
@[simp] theorem moneyOf_nil (order : ι) : moneyOf ([] : List (Entry ι M)) order = 0 := rfl

omit [LinearOrder M] in
theorem moneyOf_cons (e : Entry ι M) (journal : List (Entry ι M)) (order : ι) :
    moneyOf (e :: journal) order =
      (if e.order = order then e.change.money else 0) + moneyOf journal order := by
  by_cases he : e.order = order <;> simp [moneyOf, he]

omit [DecidableEq ι] in
theorem Fair.empty : Fair (fun _ : ι => (none : Option (Tab M))) := nofun

/-- One entry. -/
theorem Fair.post [IsOrderedAddMonoid M] {b b' : Tabs ι M} {e : Entry ι M} (hb : Fair b)
    (h : post b e = some b') : Fair b' := by
  obtain ⟨t, ht, rfl⟩ := Option.map_eq_some_iff.mp h
  intro order u hu
  by_cases horder : order = e.order
  · subst horder
    rw [Function.update_self] at hu
    obtain rfl := Option.some.inj hu
    exact Change.fair_on ht (hb _)
  · rw [Function.update_of_ne horder] at hu
    exact hb order u hu

/-- One entry puts its money into the till of its order, and leaves the others alone. -/
theorem Fair.net_post {b b' : Tabs ι M} {e : Entry ι M} (hb : Fair b) (h : Books.post b e = some b')
    (order : ι) :
    netOf b' order = netOf b order + if e.order = order then e.change.money else 0 := by
  obtain ⟨t, ht, rfl⟩ := Option.map_eq_some_iff.mp h
  by_cases horder : e.order = order
  · subst horder
    rw [if_pos rfl, netOf, Function.update_self]
    exact Change.net_on ht (hb _)
  · rw [if_neg horder, add_zero, netOf, Function.update_of_ne (Ne.symm horder), netOf]

/-- Journals keep the books in order. -/
theorem Fair.postAll [IsOrderedAddMonoid M] {journal : List (Entry ι M)} {b b' : Tabs ι M}
    (hb : Fair b) (h : postAll b journal = some b') : Fair b' := by
  induction journal generalizing b with
  | nil =>
    obtain rfl := Option.some.inj h
    exact hb
  | cons e journal ih =>
    obtain ⟨b₁, h₁, h₂⟩ := Option.bind_eq_some_iff.mp h
    exact ih (hb.post h₁) h₂

/-- **The books show what the journal says.** -/
theorem Fair.net_of_journal [IsOrderedAddMonoid M] {journal : List (Entry ι M)} {b b' : Tabs ι M}
    (hb : Fair b) (h : Books.postAll b journal = some b') (order : ι) :
    netOf b' order = netOf b order + moneyOf journal order := by
  induction journal generalizing b with
  | nil =>
    obtain rfl := Option.some.inj h
    simp
  | cons e journal ih =>
    obtain ⟨b₁, h₁, h₂⟩ := Option.bind_eq_some_iff.mp h
    rw [ih (hb.post h₁) h₂, hb.net_post h₁, moneyOf_cons, add_assoc]

end journals

end Books
