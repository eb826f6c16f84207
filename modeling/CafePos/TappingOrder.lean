import CafePos.PricingRules
import CafePos.Relational.Rearrange

/-!
# The order in which a basket was tapped

Two baskets with the same lines, in another order and with their options in another order, are
priced alike or refused alike. `σ` says where each line of the one stands in the other.
-/

namespace CafePos

open Relational

/-! ## What stays the same -/

/-- The same line, its options in another order. -/
structure SameLine (a b : RequestedItem) : Prop where
  menuItemId : a.menuItemId = b.menuItemId
  quantity : a.quantity = b.quantity
  notes : a.notes = b.notes
  optionIds : a.optionIds.Perm b.optionIds

/-- The same priced line, its option snapshots in another order. -/
structure SamePrice (p q : PricedLine) : Prop where
  menuItemId : p.menuItemId = q.menuItemId
  nameSnapshot : p.nameSnapshot = q.nameSnapshot
  unitPrice : p.unitPriceMinorSnapshot = q.unitPriceMinorSnapshot
  quantity : p.quantity = q.quantity
  lineTotal : p.lineTotalMinor = q.lineTotalMinor
  notes : p.notes = q.notes
  options : p.options.Perm q.options

/-- The same ids. -/
def SameIds (xs ys : List Id) : Prop := ∀ x, x ∈ xs ↔ x ∈ ys

/-- The same violation, of the line that stands at `place`; lists of ids are sets. -/
inductive SameViolation (place : ℕ → ℕ) :
    OptionSelectionViolation → OptionSelectionViolation → Prop
  | duplicateOption (i : ℕ) {xs ys : List Id} : SameIds xs ys →
      SameViolation place (.duplicateOption i xs) (.duplicateOption (place i) ys)
  | unknownOption (i : ℕ) {xs ys : List Id} : SameIds xs ys →
      SameViolation place (.unknownOption i xs) (.unknownOption (place i) ys)
  | minSelect (i : ℕ) (id : Id) (name : String) (selected lo hi : ℕ) :
      SameViolation place (.minSelect i id name selected lo hi)
        (.minSelect (place i) id name selected lo hi)
  | maxSelect (i : ℕ) (id : Id) (name : String) (selected lo hi : ℕ) :
      SameViolation place (.maxSelect i id name selected lo hi)
        (.maxSelect (place i) id name selected lo hi)

/-- The same end of `priceOrder`. -/
inductive SameOutcome (σ : Equiv.Perm ℕ) :
    Except PricingError PricedOrder → Except PricingError PricedOrder → Prop
  /-- equal money, and the lines in their places -/
  | priced {p q : PricedOrder} : p.subtotalMinor = q.subtotalMinor → p.vatMinor = q.vatMinor →
      p.totalMinor = q.totalMinor → Rearranged SamePrice σ p.lines q.lines →
      SameOutcome σ (.ok p) (.ok q)
  /-- the same violations, each as often as a line makes it -/
  | invalid {vs ws : List OptionSelectionViolation} : (∀ v ∈ vs, ∃ w ∈ ws, SameViolation σ v w) →
      (∀ w ∈ ws, ∃ v ∈ vs, SameViolation σ v w) →
      SameOutcome σ (.error (.optionSelectionInvalid vs)) (.error (.optionSelectionInvalid ws))
  /-- the same items and options -/
  | unavailable {items items' options options' : List Id} : SameIds items items' →
      SameIds options options' → SameOutcome σ (.error (.orderItemUnavailable items options))
        (.error (.orderItemUnavailable items' options'))

/-! ## One line -/

section line

variable (catalog : List CatalogItem) (place : ℕ → ℕ) {a b : RequestedItem}

theorem SameLine.item (h : SameLine a b) : itemOf catalog a = itemOf catalog b := by
  rw [itemOf, itemOf, h.menuItemId]

/-- The ids that were tapped, each once. -/
theorem SameLine.firsts (h : SameLine a b) :
    (firsts [] a.optionIds).Perm (firsts [] b.optionIds) := by
  refine (List.perm_ext_iff_of_nodup (nodup_firsts _ _) (nodup_firsts _ _)).mpr fun x => ?_
  rw [mem_firsts, mem_firsts, h.optionIds.mem_iff]

/-- The ids that were tapped more than once. -/
theorem SameLine.repeats (h : SameLine a b) :
    (repeats [] [] a.optionIds).Perm (repeats [] [] b.optionIds) := by
  refine (List.perm_ext_iff_of_nodup (nodup_repeats List.nodup_nil)
    (nodup_repeats List.nodup_nil)).mpr fun x => ?_
  rw [mem_repeats, mem_repeats, h.optionIds.count_eq]
  simp

theorem SameLine.resolved (h : SameLine a b) :
    (resolveLine catalog a).item = (resolveLine catalog b).item ∧
    (resolveLine catalog a).options.Perm (resolveLine catalog b).options ∧
    (resolveLine catalog a).unknownOptionIds.Perm (resolveLine catalog b).unknownOptionIds ∧
    (resolveLine catalog a).duplicateOptionIds.Perm
      (resolveLine catalog b).duplicateOptionIds := by
  rw [resolveLine_eq, resolveLine_eq, h.item catalog]
  exact ⟨rfl, h.firsts.filterMap _, h.firsts.filter _, h.repeats⟩

/-- The bounds of a group are broken alike. -/
theorem SameLine.boundViolations (h : SameLine a b) (i : ℕ)
    (group : CatalogOptionGroup) :
    List.Forall₂ (SameViolation place) (boundViolations (resolveLine catalog a) i group)
      (boundViolations (resolveLine catalog b) (place i) group) := by
  have hselected : selectedFrom (resolveLine catalog a) group =
      selectedFrom (resolveLine catalog b) group := ((h.resolved catalog).2.1.filter _).length_eq
  simp only [CafePos.boundViolations, hselected]
  split
  · exact .nil
  · split
    · exact .cons (.minSelect ..) .nil
    · exact .cons (.maxSelect ..) .nil

/-- The problems with the ids of a line are the same. -/
theorem SameLine.idViolations (h : SameLine a b) (i : ℕ) :
    List.Forall₂ (SameViolation place) (idViolations (resolveLine catalog a) i)
      (idViolations (resolveLine catalog b) (place i)) := by
  obtain ⟨-, -, hunknown, hdups⟩ := h.resolved catalog
  have hset : ∀ {xs ys : List Id} {v : ℕ → List Id → OptionSelectionViolation},
      xs.Perm ys → (SameIds xs ys → SameViolation place (v i xs) (v (place i) ys)) →
      List.Forall₂ (SameViolation place) (if xs.isEmpty then [] else [v i xs])
        (if ys.isEmpty then [] else [v (place i) ys]) := by
    intro xs ys v hperm hv
    rw [hperm.isEmpty_eq]
    split
    · exact .nil
    · exact .cons (hv fun x => hperm.mem_iff) .nil
  exact List.rel_append (hset hdups (.duplicateOption i)) (hset hunknown (.unknownOption i))

theorem SameLine.validateSelections (h : SameLine a b) (i : ℕ) :
    List.Forall₂ (SameViolation place) (validateSelections (resolveLine catalog a) i)
      (validateSelections (resolveLine catalog b) (place i)) := by
  have hids := h.idViolations catalog place i
  simp only [CafePos.validateSelections]
  generalize CafePos.idViolations (resolveLine catalog a) i = vs at hids ⊢
  generalize CafePos.idViolations (resolveLine catalog b) (place i) = ws at hids ⊢
  cases hids with
  | nil =>
    rw [(h.resolved catalog).1]
    refine List.rel_flatMap (List.forall₂_eq_eq_eq ▸ rfl) fun g g' hg => ?_
    subst hg
    exact h.boundViolations catalog place i g
  | cons hv hvs => exact .cons hv hvs

/-- A line costs the same. -/
theorem SameLine.priceLine (h : SameLine a b) (item : CatalogItem) :
    SamePrice (priceLine (resolveLine catalog a) item)
      (priceLine (resolveLine catalog b) item) := by
  have hoptions := (h.resolved catalog).2.1
  have hdeltas : ((resolveLine catalog a).options.map fun o => o.1.priceDeltaMinor).sum =
      ((resolveLine catalog b).options.map fun o => o.1.priceDeltaMinor).sum :=
    (hoptions.map _).sum_eq
  have hline : ∀ c, (resolveLine catalog c).line = c := fun c => rfl
  refine ⟨rfl, rfl, ?_, ?_, ?_, ?_, hoptions.map _⟩
  · simp only [CafePos.priceLine, hdeltas]
  · simp only [CafePos.priceLine, hline, h.quantity]
  · simp only [CafePos.priceLine, hline, hdeltas, h.quantity]
  · simp only [CafePos.priceLine, hline, h.notes]

end line

/-! ## The whole basket -/

section basket

variable {catalog : List CatalogItem} {σ : Equiv.Perm ℕ} {as bs : List RequestedItem}

/-- A violation of a basket is one of a line that is known. -/
theorem mem_violationsOf {requested : List RequestedItem} {v : OptionSelectionViolation} :
    v ∈ (violationsOf catalog requested).flatten ↔ ∃ i line, requested[i]? = some line ∧
      (itemOf catalog line).isSome ∧ v ∈ validateSelections (resolveLine catalog line) i := by
  simp only [violationsOf, ← List.flatMap_def, List.mem_flatMap, Prod.exists,
    List.mk_mem_zipIdx_iff_getElem?]
  constructor
  · rintro ⟨line, i, hline, hv⟩
    cases hitem : itemOf catalog line with
    | none => simp [hitem] at hv
    | some item => exact ⟨i, line, hline, by simp [hitem], by simpa [hitem] using hv⟩
  · rintro ⟨i, line, hline, hitem, hv⟩
    obtain ⟨item, hitem⟩ := Option.isSome_iff_exists.mp hitem
    exact ⟨line, i, hline, by simpa [hitem] using hv⟩

variable (catalog) in
/-- The violations of the one are those of the other. -/
theorem violationsOf_rearranged (h : Rearranged SameLine σ as bs) :
    (∀ v ∈ (violationsOf catalog as).flatten, ∃ w ∈ (violationsOf catalog bs).flatten,
      SameViolation σ v w) ∧
    ∀ w ∈ (violationsOf catalog bs).flatten, ∃ v ∈ (violationsOf catalog as).flatten,
      SameViolation σ v w := by
  constructor
  · intro v hv
    obtain ⟨i, a, ha, hitem, hv⟩ := mem_violationsOf.mp hv
    obtain ⟨b, hb, hab⟩ := h.exists_right ha
    obtain ⟨w, hw, hvw⟩ := exists_of_forall₂ (hab.validateSelections catalog σ i) hv
    exact ⟨w, mem_violationsOf.mpr ⟨σ i, b, hb, hab.item catalog ▸ hitem, hw⟩, hvw⟩
  · intro w hw
    obtain ⟨j, b, hb, hitem, hw⟩ := mem_violationsOf.mp hw
    obtain ⟨i, a, rfl, ha, hab⟩ := h.exists_left hb
    obtain ⟨v, hv, hvw⟩ := exists_of_forall₂ (hab.validateSelections catalog σ i).flip hw
    exact ⟨v, mem_violationsOf.mpr ⟨i, a, ha, hab.item catalog ▸ hitem, hv⟩, hvw⟩

variable (catalog) in
theorem unavailableItems_rearranged (h : Rearranged SameLine σ as bs) :
    SameIds (unavailableItems (as.map (resolveLine catalog)))
      (unavailableItems (bs.map (resolveLine catalog))) := by
  intro x
  rw [(unavailableItems_spec catalog as).2, (unavailableItems_spec catalog bs).2]
  constructor
  · rintro ⟨a, ha, hun, rfl⟩
    obtain ⟨b, hb, hab⟩ := h.mem_right ha
    exact ⟨b, hb, hab.item catalog ▸ hun, hab.menuItemId.symm⟩
  · rintro ⟨b, hb, hun, rfl⟩
    obtain ⟨a, ha, hab⟩ := h.mem_left hb
    exact ⟨a, ha, hab.item catalog ▸ hun, hab.menuItemId⟩

variable (catalog) in
theorem unavailableOptions_rearranged (h : Rearranged SameLine σ as bs) :
    SameIds (unavailableOptions (as.map (resolveLine catalog)))
      (unavailableOptions (bs.map (resolveLine catalog))) := by
  intro x
  simp only [(mem_unavailableOptions _).2, List.mem_map, exists_exists_and_eq_and]
  constructor
  · rintro ⟨a, ha, o, ho, hun, rfl⟩
    obtain ⟨b, hb, hab⟩ := h.mem_right ha
    exact ⟨b, hb, o, (hab.resolved catalog).2.1.mem_iff.mp ho, hun, rfl⟩
  · rintro ⟨b, hb, o, ho, hun, rfl⟩
    obtain ⟨a, ha, hab⟩ := h.mem_left hb
    exact ⟨a, ha, o, (hab.resolved catalog).2.1.mem_iff.mpr ho, hun, rfl⟩

/-- Where every item is known, the priced lines are in their places. -/
theorem pricedLines_rearranged (h : Rearranged SameLine σ as bs)
    (hknown : ∀ a ∈ as, (itemOf catalog a).isSome) :
    Rearranged SamePrice σ (pricedLines catalog as) (pricedLines catalog bs) := by
  have hall : ∀ {requested : List RequestedItem}, (∀ a ∈ requested, (itemOf catalog a).isSome) →
      (pricedLines catalog requested).map some = requested.map fun line =>
        (itemOf catalog line).map (priceLine (resolveLine catalog line)) := by
    intro requested hknown
    induction requested with
    | nil => rfl
    | cons a requested ih =>
      obtain ⟨item, hitem⟩ := Option.isSome_iff_exists.mp (hknown a List.mem_cons_self)
      have hrest := ih fun a ha => hknown a (List.mem_cons_of_mem _ ha)
      simp only [pricedLines, List.filterMap_cons, hitem, Option.map_some, List.map_cons] at hrest ⊢
      rw [hrest]
  have hknown' : ∀ b ∈ bs, (itemOf catalog b).isSome := by
    intro b hb
    obtain ⟨a, ha, hab⟩ := h.mem_left hb
    rw [← hab.item catalog]
    exact hknown a ha
  have hrel : Rearranged (Option.Rel SamePrice) σ ((pricedLines catalog as).map some)
      ((pricedLines catalog bs).map some) := by
    rw [hall hknown, hall hknown']
    refine h.map fun a b hab => ?_
    rw [hab.item catalog]
    cases itemOf catalog b with
    | none => exact .none
    | some item => exact .some (hab.priceLine catalog item)
  intro i
  have hi := hrel i
  rw [List.getElem?_map, List.getElem?_map] at hi
  generalize (pricedLines catalog as)[i]? = x at hi ⊢
  generalize (pricedLines catalog bs)[σ i]? = y at hi ⊢
  cases x with
  | none =>
    cases y with
    | none => exact .none
    | some q => cases hi
  | some p =>
    cases y with
    | none => cases hi
    | some q =>
      cases hi with
      | some hpq =>
        cases hpq with
        | some hpq => exact .some hpq

/-- Neither is empty, or both are. -/
theorem SameIds.eq_nil_iff {xs ys : List Id} (h : SameIds xs ys) : xs = [] ↔ ys = [] := by
  simp only [List.eq_nil_iff_forall_not_mem, h _]

end basket

/-- Pricing does not depend on the order of the taps: a basket whose lines and whose options inside
each line stand in another order is priced alike, or refused alike. -/
theorem priceOrder_rearranged (catalog : List CatalogItem) (vatBasisPoints : ℤ)
    (σ : Equiv.Perm ℕ) (as bs : List RequestedItem) (h : Rearranged SameLine σ as bs) :
    SameOutcome σ (priceOrder as catalog vatBasisPoints)
      (priceOrder bs catalog vatBasisPoints) := by
  obtain ⟨hright, hleft⟩ := violationsOf_rearranged catalog h
  have hnil : (violationsOf catalog as).flatten = [] ↔ (violationsOf catalog bs).flatten = [] := by
    constructor
    · intro hnil
      refine List.eq_nil_iff_forall_not_mem.mpr fun w hw => ?_
      obtain ⟨v, hv, -⟩ := hleft w hw
      rw [hnil] at hv
      cases hv
    · intro hnil
      refine List.eq_nil_iff_forall_not_mem.mpr fun v hv => ?_
      obtain ⟨w, hw, -⟩ := hright v hv
      rw [hnil] at hw
      cases hw
  have hitems := unavailableItems_rearranged catalog h
  have hoptions := unavailableOptions_rearranged catalog h
  rw [priceOrder_eq, priceOrder_eq]
  simp only [ne_eq, ← hnil, ← hitems.eq_nil_iff, ← hoptions.eq_nil_iff]
  split
  · exact .invalid hright hleft
  · split
    · exact .unavailable hitems hoptions
    · rename_i hsome
      -- nothing is unavailable, so every item is known
      have hnone : unavailableItems (as.map (resolveLine catalog)) = [] := by
        by_contra hne
        exact hsome (Or.inl hne)
      have hknown : ∀ a ∈ as, (itemOf catalog a).isSome := by
        intro a ha
        by_contra hitem
        have hitem' : itemOf catalog a = none := by simpa using hitem
        have hmem : a.menuItemId ∈ unavailableItems (as.map (resolveLine catalog)) := by
          refine ((unavailableItems_spec catalog as).2 _).mpr ⟨a, ha, fun item hi => ?_, rfl⟩
          rw [hitem'] at hi
          cases hi
        rw [hnone] at hmem
        cases hmem
      have hlines := pricedLines_rearranged h hknown
      have htotals : Rearranged Eq σ ((pricedLines catalog as).map PricedLine.lineTotalMinor)
          ((pricedLines catalog bs).map PricedLine.lineTotalMinor) :=
        hlines.map fun p q hpq => hpq.lineTotal
      have hsubtotal : (pricedOrder catalog as vatBasisPoints).subtotalMinor =
          (pricedOrder catalog bs vatBasisPoints).subtotalMinor := htotals.perm.sum_eq
      exact .priced hsubtotal (congrArg (extractVat · vatBasisPoints) hsubtotal) hsubtotal hlines

/-- A latte with up to two extras. -/
def extrasMenu : List CatalogItem :=
  [⟨1, "Latte", 9000, true,
    [⟨10, "Extras", 0, 2, [⟨100, "Shot", 2000, true⟩, ⟨101, "Syrup", 1500, true⟩]⟩]⟩]

/-- Two lattes with both extras, and one with none; tapped the other way round. -/
theorem priceOrder_rearranged_extras :
    priceOrder [⟨1, 2, [100, 101], none⟩, ⟨1, 1, [], none⟩] extrasMenu 700 =
      .ok (pricedOrder extrasMenu [⟨1, 2, [100, 101], none⟩, ⟨1, 1, [], none⟩] 700) ∧
    SameOutcome (Equiv.swap 0 1)
      (priceOrder [⟨1, 2, [100, 101], none⟩, ⟨1, 1, [], none⟩] extrasMenu 700)
      (priceOrder [⟨1, 1, [], none⟩, ⟨1, 2, [101, 100], none⟩] extrasMenu 700) := by
  refine ⟨by decide, priceOrder_rearranged extrasMenu 700 (Equiv.swap 0 1) _ _ fun i => ?_⟩
  rcases i with _ | _ | i
  · rw [Equiv.swap_apply_left]
    exact .some ⟨rfl, rfl, rfl, List.Perm.swap ..⟩
  · rw [Equiv.swap_apply_right]
    exact .some ⟨rfl, rfl, rfl, List.Perm.nil⟩
  · rw [Equiv.swap_apply_of_ne_of_ne (by omega) (by omega)]
    exact .none

end CafePos
