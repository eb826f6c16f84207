import Mathlib

/-!
# Lists that are rearrangements of each other

`Rearranged R σ xs ys`: the element of `xs` at position `i` and the element of `ys` at position
`σ i` are related by `R`. With `Eq` for `R` this is a permutation (`Rearranged.perm`), with the
positions at hand.
-/

namespace Relational

variable {α β γ δ : Type} {R : α → β → Prop} {σ : Equiv.Perm ℕ} {xs : List α} {ys : List β}

/-- An element of the one list has its counterpart in the other. -/
theorem exists_of_forall₂ (h : List.Forall₂ R xs ys) {a : α} (ha : a ∈ xs) : ∃ b ∈ ys, R a b := by
  induction h with
  | nil => cases ha
  | cons hab _ ih =>
    rcases List.mem_cons.mp ha with rfl | ha
    · exact ⟨_, List.mem_cons_self, hab⟩
    · obtain ⟨b, hb, hab⟩ := ih ha
      exact ⟨b, List.mem_cons_of_mem _ hb, hab⟩

/-- Position by position, through a permutation of the positions. -/
def Rearranged (R : α → β → Prop) (σ : Equiv.Perm ℕ) (xs : List α) (ys : List β) : Prop :=
  ∀ i, Option.Rel R xs[i]? ys[σ i]?

namespace Rearranged

/-- What stands at the position of an element. -/
theorem exists_right (h : Rearranged R σ xs ys) {i : ℕ} {a : α} (ha : xs[i]? = some a) :
    ∃ b, ys[σ i]? = some b ∧ R a b := by
  have hi := h i
  rw [ha] at hi
  cases hb : ys[σ i]? with
  | none =>
    rw [hb] at hi
    cases hi
  | some b =>
    rw [hb] at hi
    cases hi with
    | some hab => exact ⟨b, rfl, hab⟩

/-- The other way. -/
theorem exists_left (h : Rearranged R σ xs ys) {j : ℕ} {b : β} (hb : ys[j]? = some b) :
    ∃ i a, σ i = j ∧ xs[i]? = some a ∧ R a b := by
  have hi := h (σ.symm j)
  rw [Equiv.apply_symm_apply, hb] at hi
  cases ha : xs[σ.symm j]? with
  | none =>
    rw [ha] at hi
    cases hi
  | some a =>
    rw [ha] at hi
    cases hi with
    | some hab => exact ⟨σ.symm j, a, Equiv.apply_symm_apply σ j, ha, hab⟩

theorem mem_right (h : Rearranged R σ xs ys) {a : α} (ha : a ∈ xs) : ∃ b ∈ ys, R a b := by
  obtain ⟨i, hi⟩ := List.getElem?_of_mem ha
  obtain ⟨b, hb, hab⟩ := h.exists_right hi
  exact ⟨b, List.mem_of_getElem? hb, hab⟩

theorem mem_left (h : Rearranged R σ xs ys) {b : β} (hb : b ∈ ys) : ∃ a ∈ xs, R a b := by
  obtain ⟨j, hj⟩ := List.getElem?_of_mem hb
  obtain ⟨i, a, -, ha, hab⟩ := h.exists_left hj
  exact ⟨a, List.mem_of_getElem? ha, hab⟩

theorem map {R' : γ → δ → Prop} {f : α → γ} {g : β → δ} (h : Rearranged R σ xs ys)
    (hfg : ∀ a b, R a b → R' (f a) (g b)) : Rearranged R' σ (xs.map f) (ys.map g) := by
  intro i
  rw [List.getElem?_map, List.getElem?_map]
  have hi := h i
  generalize xs[i]? = x at hi ⊢
  generalize ys[σ i]? = y at hi ⊢
  cases hi with
  | some hab => exact .some (hfg _ _ hab)
  | none => exact .none

/-- The positions of a list, rearranged, are the positions of the other one. -/
theorem perm_range (h : Rearranged R σ xs ys) :
    ((List.range xs.length).map σ).Perm (List.range ys.length) := by
  have hnodup : ((List.range xs.length).map σ).Nodup :=
    List.Nodup.map σ.injective List.nodup_range
  refine (List.perm_ext_iff_of_nodup hnodup List.nodup_range).mpr fun j => ?_
  simp only [List.mem_map, List.mem_range]
  constructor
  · rintro ⟨i, hi, rfl⟩
    obtain ⟨b, hb, -⟩ := h.exists_right (List.getElem?_eq_getElem hi)
    exact (List.getElem?_eq_some_iff.mp hb).1
  · intro hj
    obtain ⟨i, a, rfl, ha, -⟩ := h.exists_left (List.getElem?_eq_getElem hj)
    exact ⟨i, (List.getElem?_eq_some_iff.mp ha).1, rfl⟩

/-- A list, read position by position. -/
theorem filterMap_range (xs : List α) : (List.range xs.length).filterMap (xs[·]?) = xs := by
  induction xs with
  | nil => rfl
  | cons a xs ih =>
    rw [List.length_cons, List.range_succ_eq_map, List.filterMap_cons, List.filterMap_map]
    exact congrArg (a :: ·) ih

/-- A rearrangement of equal elements is a permutation. -/
theorem perm {xs ys : List α} (h : Rearranged Eq σ xs ys) : xs.Perm ys := by
  have hget : ∀ i, xs[i]? = ys[σ i]? := by
    intro i
    have hi := h i
    cases hx : xs[i]? with
    | none =>
      rw [hx] at hi
      cases hy : ys[σ i]? with
      | none => rfl
      | some b =>
        rw [hy] at hi
        cases hi
    | some a =>
      obtain ⟨b, hb, rfl⟩ := h.exists_right hx
      exact hb.symm
  have hxs : (List.range xs.length).filterMap ((ys[·]?) ∘ σ) = xs := by
    have hcomp : (ys[·]?) ∘ σ = (xs[·]?) := funext fun i => (hget i).symm
    rw [hcomp, filterMap_range]
  have hperm := h.perm_range.filterMap (ys[·]?)
  rwa [List.filterMap_map, hxs, filterMap_range] at hperm

end Rearranged

end Relational
