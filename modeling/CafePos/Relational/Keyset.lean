import Mathlib

/-!
# Keyset pagination

A list is read page by page. A request names the row after which the page begins; the server
cannot compare with that row itself, but only with what is left of it in a cursor. So the rows
of the next page are those that come `after` the cursor of a row, and `after r` need not agree
with the order at `r`. The pages are exact if and only if, at every page boundary, the cursor
falls between the last row of the page and the row that follows it (`exists_walk_iff`).
-/

namespace Relational

variable {α κ : Type}

/-! ## Requests -/

/-- Follow the cursors from page to page, for `n` requests at most; the rows of all pages, if the
last of them has no cursor. -/
def walk (request : Option κ → Option (List α × Option κ)) : ℕ → Option κ → Option (List α)
  | 0, _ => none
  | n + 1, cursor => (request cursor).bind fun page => match page.2 with
    | none => some page.1
    | some next => (walk request n (some next)).map (page.1 ++ ·)

/-- Requests that answer alike, in other words, are followed alike. -/
theorem walk_map {α' κ' : Type} {request : Option κ → Option (List α × Option κ)}
    {request' : Option κ' → Option (List α' × Option κ')} {f : κ → κ'} {g : α → α'}
    (h : ∀ c, request' (c.map f) =
      (request c).map fun page => (page.1.map g, page.2.map f)) (n : ℕ) (c : Option κ) :
    walk request' n (c.map f) = (walk request n c).map (List.map g) := by
  induction n generalizing c with
  | zero => rfl
  | succ n ih =>
    rw [walk, walk, h]
    cases hpage : request c with
    | none => rfl
    | some page =>
      rw [Option.map_some, Option.bind_some, Option.bind_some]
      cases hnext : page.2 with
      | none => rfl
      | some k =>
        have hrest := ih (some k)
        rw [Option.map_some] at hrest ⊢
        dsimp only
        rw [hrest, Option.map_map, Option.map_map]
        congr 1
        funext rest
        exact List.map_append.symm

/-! ## Pages of a list -/

section pages

variable (rows : List α) (after : α → α → Bool) (limit : ℕ)

/-- The rows from the cursor on. -/
def remaining : Option α → List α
  | none => rows
  | some r => rows.filter (after r)

/-- One page: a row more than asked for tells whether there is a next one. -/
def page (cursor : Option α) : List α × Option α :=
  let found := (remaining rows after cursor).take (limit + 1)
  (found.take limit, if limit < found.length then (found.take limit).getLast? else none)

theorem page_eq (cursor : Option α) : page rows after limit cursor =
    ((remaining rows after cursor).take limit,
      if limit < (remaining rows after cursor).length then
        ((remaining rows after cursor).take limit).getLast? else none) := by
  have hlen : limit < ((remaining rows after cursor).take (limit + 1)).length ↔
      limit < (remaining rows after cursor).length := by
    rw [List.length_take]
    omega
  simp only [page, List.take_take, Nat.min_eq_left (Nat.le_succ limit), hlen]

/-- The page boundaries are where they should be: the cursor of the last row of a page is not
before that row, and is before the next one. -/
def Separated : Prop :=
  ∀ (j : ℕ) (r y : α), rows[limit * (j + 1) - 1]? = some r → rows[limit * (j + 1)]? = some y →
    after r r = false ∧ after r y = true

end pages

/-! ## When the pages are exact -/

section exactness

variable {rows : List α} {after : α → α → Bool} {limit : ℕ} {R : α → α → Prop} [Std.Irrefl R]

/-- What is left is what lies behind the boundary, if and only if the cursor falls between the
two rows at it. -/
theorem filter_after_eq_drop_iff (hrows : rows.Pairwise R)
    (hafter : ∀ r x y, after r x = true → R x y → after r y = true) {i : ℕ} {r y : α}
    (hr : rows[i]? = some r) (hy : rows[i + 1]? = some y) :
    rows.filter (after r) = rows.drop (i + 1) ↔ after r r = false ∧ after r y = true := by
  have htake : rows.take (i + 1) = rows.take i ++ [r] := by
    rw [List.take_add_one, hr]
    rfl
  have hdrop : rows.drop (i + 1) = y :: rows.drop (i + 2) := by
    rw [List.drop_eq_getElem?_toList_append, hy]
    rfl
  have hsplit : rows = (rows.take i ++ [r]) ++ (y :: rows.drop (i + 2)) := by
    rw [← htake, ← hdrop, List.take_append_drop]
  rw [hsplit] at hrows
  obtain ⟨hfirst, hsecond, hcross⟩ := List.pairwise_append.mp hrows
  obtain ⟨-, -, hbefore⟩ := List.pairwise_append.mp hfirst
  have hbehind := (List.pairwise_cons.mp hsecond).1
  constructor
  · intro h
    constructor
    · by_contra hself
      have hmem : r ∈ rows.drop (i + 1) := by
        rw [← h]
        exact List.mem_filter.mpr ⟨List.mem_of_getElem? hr, by simpa using hself⟩
      rw [hdrop] at hmem
      exact Std.Irrefl.irrefl r (hcross r (by simp) r hmem)
    · have hmem : y ∈ rows.filter (after r) := by
        rw [h, hdrop]
        exact List.mem_cons_self ..
      exact (List.mem_filter.mp hmem).2
  · rintro ⟨hself, hnext⟩
    have hnone : (rows.take i ++ [r]).filter (after r) = [] := by
      refine List.filter_eq_nil_iff.mpr fun x hx hafterx => ?_
      rcases List.mem_append.mp hx with hx | hx
      · have := hafter r x r hafterx (hbefore x hx r (List.mem_singleton_self r))
        rw [hself] at this
        cases this
      · rw [List.mem_singleton.mp hx, hself] at hafterx
        cases hafterx
    have hall : (y :: rows.drop (i + 2)).filter (after r) = y :: rows.drop (i + 2) := by
      refine List.filter_eq_self.mpr fun x hx => ?_
      rcases List.mem_cons.mp hx with rfl | hx
      · exact hnext
      · exact hafter r y x hnext (hbehind x hx)
    calc rows.filter (after r)
        = ((rows.take i ++ [r]) ++ (y :: rows.drop (i + 2))).filter (after r) := by
          rw [← hsplit]
      _ = rows.drop (i + 1) := by rw [List.filter_append, hnone, hall, List.nil_append, hdrop]

/-- The cursor of a page that is not the last one, if the pages so far were exact. -/
theorem page_next (hlimit : 0 < limit) {c : Option α} {j : ℕ}
    (hc : remaining rows after c = rows.drop (limit * j)) (hlt : limit * (j + 1) < rows.length) :
    ∃ r y, rows[limit * (j + 1) - 1]? = some r ∧ rows[limit * (j + 1)]? = some y ∧
      page rows after limit c = ((rows.drop (limit * j)).take limit, some r) := by
  have hmul : limit * (j + 1) = limit * j + limit := Nat.mul_succ ..
  obtain ⟨r, hr⟩ : ∃ r, rows[limit * (j + 1) - 1]? = some r :=
    ⟨_, List.getElem?_eq_getElem (by omega)⟩
  obtain ⟨y, hy⟩ : ∃ y, rows[limit * (j + 1)]? = some y := ⟨_, List.getElem?_eq_getElem hlt⟩
  refine ⟨r, y, hr, hy, ?_⟩
  have hlen : limit < (rows.drop (limit * j)).length := by
    rw [List.length_drop]
    omega
  have hlast : ((rows.drop (limit * j)).take limit).getLast? = some r := by
    rw [List.getLast?_eq_getElem?, List.length_take, Nat.min_eq_left hlen.le, List.getElem?_take,
      if_pos (by omega), List.getElem?_drop, ← hr]
    congr 1
    omega
  rw [page_eq, hc, if_pos hlen, hlast]

/-- The last page. -/
theorem page_last {c : Option α} {j : ℕ} (hc : remaining rows after c = rows.drop (limit * j))
    (hle : rows.length ≤ limit * (j + 1)) :
    page rows after limit c = (rows.drop (limit * j), none) := by
  have hmul : limit * (j + 1) = limit * j + limit := Nat.mul_succ ..
  have hlen : (rows.drop (limit * j)).length ≤ limit := by
    rw [List.length_drop]
    omega
  rw [page_eq, hc, if_neg (Nat.not_lt.mpr hlen), List.take_of_length_le hlen]

/-- If every boundary is where it should be, the pages from any exact position on are exact. -/
theorem exists_walk_of_separated (hlimit : 0 < limit) (hrows : rows.Pairwise R)
    (hafter : ∀ r x y, after r x = true → R x y → after r y = true)
    (hsep : Separated rows after limit) {c : Option α} {j : ℕ}
    (hc : remaining rows after c = rows.drop (limit * j)) :
    ∃ n, walk (fun c => some (page rows after limit c)) n c = some (rows.drop (limit * j)) := by
  induction hm : rows.length - limit * j using Nat.strong_induction_on generalizing c j with
  | _ m ih =>
    rcases Nat.lt_or_ge (limit * (j + 1)) rows.length with hlt | hge
    · obtain ⟨r, y, hr, hy, hpage⟩ := page_next hlimit hc hlt
      have hmul : limit * (j + 1) = limit * j + limit := Nat.mul_succ ..
      have hpos : limit * (j + 1) - 1 + 1 = limit * (j + 1) := by omega
      -- the next request begins exactly at the boundary
      have hnext : remaining rows after (some r) = rows.drop (limit * (j + 1)) := by
        have hiff := filter_after_eq_drop_iff hrows hafter hr (hpos.symm ▸ hy)
        rw [hpos] at hiff
        exact hiff.mpr (hsep j r y hr hy)
      obtain ⟨n, hn⟩ := ih (rows.length - limit * (j + 1)) (by omega) hnext rfl
      refine ⟨n + 1, ?_⟩
      simp only [walk, hpage, Option.bind_some, hn, Option.map_some]
      rw [hmul, ← List.drop_drop, List.take_append_drop]
    · exact ⟨1, by simp only [walk, page_last hc hge, Option.bind_some]⟩

/-- What is returned begins with the first page. -/
theorem walk_head {n : ℕ} {c : Option α} {out : List α}
    (h : walk (fun c => some (page rows after limit c)) n c = some out) :
    ∃ rest, out = (remaining rows after c).take limit ++ rest := by
  cases n with
  | zero => cases h
  | succ n =>
    simp only [walk, Option.bind_some, page_eq] at h
    split at h
    · exact ⟨[], by rw [List.append_nil, Option.some.inj h]⟩
    · obtain ⟨rest, -, rfl⟩ := Option.map_eq_some_iff.mp h
      exact ⟨rest, rfl⟩

omit [Std.Irrefl R] in
/-- What is returned is in the list. -/
theorem mem_of_walk {n : ℕ} {c : Option α} {out : List α}
    (h : walk (fun c => some (page rows after limit c)) n c = some out) :
    ∀ x ∈ out, x ∈ rows := by
  have hpage : ∀ c, ∀ x ∈ (page rows after limit c).1, x ∈ rows := by
    intro c x hx
    rw [page_eq] at hx
    have hx := List.mem_of_mem_take hx
    cases c with
    | none => exact hx
    | some r => exact (List.mem_filter.mp hx).1
  induction n generalizing c out with
  | zero => cases h
  | succ n ih =>
    simp only [walk, Option.bind_some] at h
    split at h
    · obtain rfl := Option.some.inj h
      exact hpage c
    · obtain ⟨rest, hrest, rfl⟩ := Option.map_eq_some_iff.mp h
      intro x hx
      rcases List.mem_append.mp hx with hx | hx
      · exact hpage c x hx
      · exact ih hrest x hx

/-- If the pages are exact from an exact position on, the next boundary is where it should be. -/
theorem boundary_of_walk [IsTrans α R] (hlimit : 0 < limit) (hrows : rows.Pairwise R) {i n : ℕ}
    {r y : α} (hr : rows[i]? = some r) (hy : rows[i + 1]? = some y)
    (h : walk (fun c => some (page rows after limit c)) n (some r) = some (rows.drop (i + 1))) :
    after r r = false ∧ after r y = true := by
  obtain ⟨rest, hout⟩ := walk_head h
  have hdrop : rows.drop (i + 1) = y :: rows.drop (i + 2) := by
    rw [List.drop_eq_getElem?_toList_append, hy]
    rfl
  have hry : R r y := by
    have hlt := (List.getElem?_eq_some_iff.mp hy).1
    have := List.pairwise_iff_getElem.mp hrows i (i + 1) (by omega) hlt (by omega)
    rwa [(List.getElem?_eq_some_iff.mp hr).2, (List.getElem?_eq_some_iff.mp hy).2] at this
  cases hfound : rows.filter (after r) with
  | nil =>
    -- nothing is found: the page is empty, and it is the last one
    have hpage : page rows after limit (some r) = ([], none) := by
      rw [page_eq, remaining, hfound]
      simp
    cases n with
    | zero => cases h
    | succ n =>
      simp only [walk, hpage, Option.bind_some] at h
      rw [hdrop] at h
      cases h
  | cons a as =>
    have ha : a = y := by
      obtain ⟨k, rfl⟩ := Nat.exists_eq_succ_of_ne_zero (Nat.ne_of_gt hlimit)
      rw [hdrop, remaining, hfound, List.take_succ_cons, List.cons_append] at hout
      exact (List.cons.inj hout).1.symm
    subst ha
    have hsub : (rows.filter (after r)).Pairwise R := hrows.sublist List.filter_sublist
    rw [hfound] at hsub
    constructor
    · by_contra hself
      have hmem : r ∈ rows.filter (after r) :=
        List.mem_filter.mpr ⟨List.mem_of_getElem? hr, by simpa using hself⟩
      rw [hfound] at hmem
      rcases List.mem_cons.mp hmem with rfl | hmem
      · exact Std.Irrefl.irrefl r hry
      · exact Std.Irrefl.irrefl r (IsTrans.trans _ _ _ hry ((List.pairwise_cons.mp hsub).1 r hmem))
    · have hmem : a ∈ rows.filter (after r) := by
        rw [hfound]
        exact List.mem_cons_self ..
      exact (List.mem_filter.mp hmem).2

/-- If the pages are exact, every boundary is reached with exact pages before and behind it. -/
theorem separated_of_walk [IsTrans α R] (hlimit : 0 < limit) (hrows : rows.Pairwise R)
    (hafter : ∀ r x y, after r x = true → R x y → after r y = true) {n : ℕ}
    (h : walk (fun c => some (page rows after limit c)) n none = some rows) :
    Separated rows after limit := by
  have hreach : ∀ j, limit * j < rows.length ∨ j = 0 → ∃ n c,
      remaining rows after c = rows.drop (limit * j) ∧
      walk (fun c => some (page rows after limit c)) n c = some (rows.drop (limit * j)) ∧
      ∀ j' r y, j' < j → rows[limit * (j' + 1) - 1]? = some r →
        rows[limit * (j' + 1)]? = some y → after r r = false ∧ after r y = true := by
    intro j
    induction j with
    | zero => exact fun _ => ⟨n, none, rfl, h, fun _ _ _ hj => absurd hj (Nat.not_lt_zero _)⟩
    | succ j ih =>
      intro hj
      have hlt : limit * (j + 1) < rows.length := by omega
      have hmul : limit * (j + 1) = limit * j + limit := Nat.mul_succ ..
      have hpos : limit * (j + 1) - 1 + 1 = limit * (j + 1) := by omega
      obtain ⟨m, c, hc, hwalk, hbefore⟩ := ih (Or.inl (by omega))
      obtain ⟨r, y, hr, hy, hpage⟩ := page_next hlimit hc hlt
      -- the pages behind this one make up the rest
      cases m with
      | zero => cases hwalk
      | succ m =>
        simp only [walk, hpage, Option.bind_some] at hwalk
        obtain ⟨rest, hrest, heq⟩ := Option.map_eq_some_iff.mp hwalk
        have hsplit : rest = rows.drop (limit * (j + 1)) := by
          have : (rows.drop (limit * j)).take limit ++ rest =
              (rows.drop (limit * j)).take limit ++ (rows.drop (limit * j)).drop limit := by
            rw [heq, List.take_append_drop]
          rw [List.append_cancel_left this, List.drop_drop, hmul]
        subst hsplit
        have hiff := filter_after_eq_drop_iff hrows hafter hr (hpos.symm ▸ hy)
        have hbound := boundary_of_walk hlimit hrows hr (hpos.symm ▸ hy) (hpos.symm ▸ hrest)
        rw [hpos] at hiff
        refine ⟨m, some r, hiff.mpr hbound, hrest, fun j' r' y' hj' hr' hy' => ?_⟩
        rcases Nat.lt_succ_iff_lt_or_eq.mp hj' with hj' | rfl
        · exact hbefore j' r' y' hj' hr' hy'
        · obtain rfl := Option.some.inj (hr.symm.trans hr')
          obtain rfl := Option.some.inj (hy.symm.trans hy')
          exact hbound
  intro j r y hr hy
  obtain ⟨-, -, -, -, hall⟩ := hreach (j + 1) (Or.inl (List.getElem?_eq_some_iff.mp hy).1)
  exact hall j r y (Nat.lt_succ_self j) hr hy

/-- **Exactness**: following the cursors reads the list, if and only if every page boundary is
where it should be. -/
theorem exists_walk_iff [IsTrans α R] (hlimit : 0 < limit) (hrows : rows.Pairwise R)
    (hafter : ∀ r x y, after r x = true → R x y → after r y = true) :
    (∃ n, walk (fun c => some (page rows after limit c)) n none = some rows) ↔
      Separated rows after limit := by
  constructor
  · rintro ⟨n, hn⟩
    exact separated_of_walk hlimit hrows hafter hn
  · intro hsep
    exact exists_walk_of_separated hlimit hrows hafter hsep (j := 0) rfl

end exactness

end Relational
