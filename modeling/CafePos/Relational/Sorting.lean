import Mathlib

/-!
# Sorting what comes in any order

A query without `ORDER BY` returns its rows in any order, and a stable sort keeps the order of
what it cannot tell apart. So a sorted list of distinct rows is one list, whatever order they came
in, exactly if the comparison tells all of them apart (`mergeSort_eq_iff`); and what comes last
among some of them is certain exactly if it comes strictly after all others
(`getLast_mergeSort_iff`).
-/

namespace Relational

universe u

variable {α : Type u} {le : α → α → Bool}

/-! ## Two rows in their order -/

/-- Distinct rows come in one order only. -/
theorem not_both_orders {l : List α} (hl : l.Nodup) {a b : α} (hab : [a, b].Sublist l)
    (hba : [b, a].Sublist l) : False := by
  induction l with
  | nil => cases hab
  | cons c l ih =>
    obtain ⟨hc, hl⟩ := List.nodup_cons.mp hl
    have hsecond : ∀ {x y : α} {l : List α}, [x, y].Sublist l → y ∈ l := fun h =>
      h.subset (List.mem_cons_of_mem _ (List.mem_singleton_self _))
    rcases List.sublist_cons_iff.mp hab with htail | ⟨r, hr, htail⟩
    · rcases List.sublist_cons_iff.mp hba with htail' | ⟨r, hr, -⟩
      · exact ih hl htail htail'
      · obtain ⟨rfl, -⟩ := List.cons.inj hr
        exact hc (hsecond htail)
    · obtain ⟨rfl, rfl⟩ := List.cons.inj hr
      rcases List.sublist_cons_iff.mp hba with htail' | ⟨r, hr, -⟩
      · exact hc (hsecond htail')
      · obtain ⟨rfl, -⟩ := List.cons.inj hr
        exact hc (List.singleton_sublist.mp htail)

/-- Two rows can come in either order. -/
theorem exists_perm_pair {l : List α} {a b : α} (ha : a ∈ l) (hb : b ∈ l) (hne : a ≠ b) :
    ∃ l', l'.Perm l ∧ [a, b].Sublist l' := by
  classical
  have hb' : b ∈ l.erase a := (List.mem_erase_of_ne hne.symm).mpr hb
  refine ⟨a :: b :: (l.erase a).erase b, ?_, ((List.nil_sublist _).cons_cons b).cons_cons a⟩
  exact ((List.perm_cons_erase hb').symm.cons a).trans (List.perm_cons_erase ha).symm

section sort

variable (trans : ∀ a b c, le a b = true → le b c = true → le a c = true)
  (total : ∀ a b, (le a b || le b a) = true)

include trans total

/-- Distinct rows are sorted to one list, whatever order they come in, exactly if the comparison
tells them apart. -/
theorem mergeSort_eq_iff {l : List α} (hl : l.Nodup) :
    (∀ l₁ l₂ : List α, l₁.Perm l → l₂.Perm l → l₁.mergeSort le = l₂.mergeSort le) ↔
      ∀ a ∈ l, ∀ b ∈ l, le a b = true → le b a = true → a = b := by
  constructor
  · intro h a ha b hb hab hba
    by_contra hne
    obtain ⟨l₁, hperm₁, hsub₁⟩ := exists_perm_pair ha hb hne
    obtain ⟨l₂, hperm₂, hsub₂⟩ := exists_perm_pair hb ha (Ne.symm hne)
    have hsorted₁ := List.pair_sublist_mergeSort trans total hab hsub₁
    have hsorted₂ := List.pair_sublist_mergeSort trans total hba hsub₂
    rw [h l₁ l₂ hperm₁ hperm₂] at hsorted₁
    have hnodup : (l₂.mergeSort le).Nodup :=
      ((List.mergeSort_perm l₂ le).trans hperm₂).nodup_iff.mpr hl
    exact not_both_orders hnodup hsorted₁ hsorted₂
  · intro h l₁ l₂ hperm₁ hperm₂
    have hsort₁ := (List.mergeSort_perm l₁ le).trans hperm₁
    have hsort₂ := (List.mergeSort_perm l₂ le).trans hperm₂
    refine List.Perm.eq_of_pairwise (fun a b ha hb => ?_)
      (List.pairwise_mergeSort trans total l₁) (List.pairwise_mergeSort trans total l₂)
      (hsort₁.trans hsort₂.symm)
    exact h a (hsort₁.mem_iff.mp ha) b (hsort₂.mem_iff.mp hb)

/-- Among the rows that pass a test, `x` comes last, whatever order the rows come in, exactly if
it comes strictly after all others that pass. -/
theorem getLast_mergeSort_iff {l : List α} (hl : l.Nodup) {p : α → Bool} {x : α} (hx : x ∈ l)
    (hp : p x = true) :
    (∀ l' : List α, l'.Perm l → ((l'.mergeSort le).filter p).getLast? = some x) ↔
      ∀ y ∈ l, p y = true → y ≠ x → le x y = false := by
  constructor
  · intro h y hy hpy hne
    by_contra hle
    rw [Bool.not_eq_false] at hle
    obtain ⟨l', hperm, hsub⟩ := exists_perm_pair hx hy (Ne.symm hne)
    have hsorted : [x, y].Sublist ((l'.mergeSort le).filter p) := by
      have := (List.pair_sublist_mergeSort trans total hle hsub).filter p
      simpa [hp, hpy] using this
    have hnodup : ((l'.mergeSort le).filter p).Nodup :=
      (((List.mergeSort_perm l' le).trans hperm).nodup_iff.mpr hl).filter p
    obtain ⟨ys, hys⟩ := List.getLast?_eq_some_iff.mp (h l' hperm)
    rw [hys] at hsorted hnodup
    -- `x` is last, and `y` comes before it as well
    refine not_both_orders hnodup hsorted ?_
    have hmem : y ∈ ys := by
      have : y ∈ ys ++ [x] := hsorted.subset (by simp)
      simpa [hne] using this
    exact (List.singleton_sublist.mpr hmem).append (List.Sublist.refl [x])
  · intro h l' hperm
    have hsort := (List.mergeSort_perm l' le).trans hperm
    have hmem : x ∈ (l'.mergeSort le).filter p :=
      List.mem_filter.mpr ⟨hsort.mem_iff.mpr hx, hp⟩
    have hpairwise := (List.pairwise_mergeSort trans total l').filter p
    obtain ⟨ys, y, hys⟩ := (List.eq_nil_or_concat ((l'.mergeSort le).filter p)).resolve_left
      (List.ne_nil_of_mem hmem)
    rw [List.concat_eq_append] at hys
    rw [hys] at hmem hpairwise ⊢
    have hy : y ∈ l ∧ p y = true := by
      have : y ∈ (l'.mergeSort le).filter p := hys ▸ by simp
      obtain ⟨hmem, hpy⟩ := List.mem_filter.mp this
      exact ⟨hsort.mem_iff.mp hmem, hpy⟩
    rw [List.getLast?_concat]
    by_contra hne
    have hyx : y ≠ x := fun hyx => hne (congrArg some hyx)
    have hle : le x y = true := by
      refine (List.pairwise_append.mp hpairwise).2.2 x ?_ y (List.mem_singleton_self y)
      simpa [hyx.symm] using hmem
    rw [h y hy.1 hy.2 hyx] at hle
    cases hle

end sort

end Relational
