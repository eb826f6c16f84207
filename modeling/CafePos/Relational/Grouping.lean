import Mathlib

/-!
# Aggregates over groups

`groupBy key rows` is SQL's `GROUP BY`: one group for each key that occurs, with its rows.
The order of the groups carries no meaning. What an aggregation relies on is that the
groups cut the rows into pieces:

* `sum_fibers` — summing fibre by fibre, over any list of distinct keys;
* `sum_groupBy` — summing group by group, over the groups whose key passes a test;
* `map_groupBy_perm` — the same rows in another order have the same aggregates.
-/

namespace Relational

variable {α κ M : Type} [DecidableEq κ]

/-- The rows with each key that occurs. -/
def groupBy (key : α → κ) (rows : List α) : List (κ × List α) :=
  (rows.map key).dedup.map fun k => (k, rows.filter fun a => key a = k)

theorem mem_groupBy {key : α → κ} {rows : List α} {g : κ × List α} :
    g ∈ groupBy key rows ↔ g.1 ∈ rows.map key ∧ g.2 = rows.filter fun a => key a = g.1 := by
  constructor
  · intro h
    obtain ⟨k, hk, rfl⟩ := List.mem_map.mp h
    exact ⟨List.mem_dedup.mp hk, rfl⟩
  · rintro ⟨hk, hg⟩
    exact List.mem_map.mpr ⟨g.1, List.mem_dedup.mpr hk, by rw [← hg]⟩

section sums

variable [AddCommMonoid M]

/-- One term of a sum over distinct keys. -/
theorem sum_map_eq_ite {ks : List κ} (hks : ks.Nodup) (k : κ) (m : M) :
    (ks.map fun k' => if k = k' then m else 0).sum = if k ∈ ks then m else 0 := by
  induction ks with
  | nil => simp
  | cons k' ks ih =>
    obtain ⟨hk', hks⟩ := List.nodup_cons.mp hks
    rw [List.map_cons, List.sum_cons, ih hks]
    by_cases h : k = k'
    · subst h
      simp [hk']
    · simp [h]

/-- Summing over the fibres of distinct keys is summing over the rows with one of the keys. -/
theorem sum_fibers {ks : List κ} (hks : ks.Nodup) (key : α → κ) (f : α → M) (rows : List α) :
    (ks.map fun k => ((rows.filter fun a => key a = k).map f).sum).sum =
      ((rows.filter fun a => key a ∈ ks).map f).sum := by
  induction rows with
  | nil => simp
  | cons a rows ih =>
    have hone : ∀ k, (((a :: rows).filter fun a => key a = k).map f).sum =
        (if key a = k then f a else 0) + ((rows.filter fun a => key a = k).map f).sum := by
      intro k
      by_cases hk : key a = k
      · simp [hk]
      · simp [hk]
    simp only [hone, List.sum_map_add, ih, sum_map_eq_ite hks]
    by_cases hk : key a ∈ ks
    · simp [hk]
    · simp [hk]

/-- Summing over the groups whose key passes a test is summing over the rows whose key does. -/
theorem sum_groupBy (key : α → κ) (f : α → M) (rows : List α) (p : κ → Bool) :
    (((groupBy key rows).filter fun g => p g.1).map fun g => (g.2.map f).sum).sum =
      ((rows.filter fun a => p (key a)).map f).sum := by
  have hkeys : ((groupBy key rows).filter fun g => p g.1) =
      (((rows.map key).dedup.filter p).map fun k => (k, rows.filter fun a => key a = k)) := by
    rw [groupBy, List.filter_map]
    rfl
  have hrows : rows.filter (fun a => p (key a)) =
      rows.filter fun a => key a ∈ (rows.map key).dedup.filter p := by
    refine List.filter_congr fun a ha => ?_
    have hmem : key a ∈ rows.map key := List.mem_map_of_mem ha
    simp [hmem]
  rw [hkeys, hrows, List.map_map]
  exact sum_fibers ((List.nodup_dedup _).filter p) key f rows

end sums

/-- An aggregation that does not depend on the order in a group answers the same groups for the
same rows. -/
theorem map_groupBy_perm {β : Type} {key : α → κ} {f : κ × List α → β}
    (hf : ∀ k rows rows', rows.Perm rows' → f (k, rows) = f (k, rows')) {rows rows' : List α}
    (h : rows.Perm rows') : ((groupBy key rows).map f).Perm ((groupBy key rows').map f) := by
  rw [groupBy, groupBy, List.map_map, List.map_map]
  refine ((h.map key).dedup.map _).trans (List.Perm.of_eq ?_)
  refine List.map_congr_left fun k _ => ?_
  exact hf k _ _ (h.filter _)

end Relational
