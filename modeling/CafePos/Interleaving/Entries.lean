import CafePos.Interleaving.Table
import Mathlib

/-!
# The rows of a table, one by one

What `put` and `keep` do to the rows of a table as a list, and with it to how many rows there are
and how many of them a `SELECT` returns.
-/

namespace Interleaving.Table

variable {K V : Type}

/-- What a `DELETE` returns is what it removes. -/
theorem length_keep_add (t : Table K V) (p : K → V → Bool) :
    (t.keep fun k v => !p k v).entries.length + (t.select p).length = t.entries.length := by
  rw [Table.keep, Table.select, List.length_map, Nat.add_comm]
  exact List.length_eq_length_filter_add _ |>.symm

/-- How many rows a `SELECT` returns. -/
theorem length_select (t : Table K V) (p : K → V → Bool) :
    (t.select p).length = t.entries.countP fun e => p e.1 e.2 := by
  rw [select, List.length_map, List.countP_eq_length_filter]

variable [DecidableEq K] {t : Table K V} {k : K}

/-- A row under a new key comes before the others. -/
theorem entries_put_of_none (h : t.get k = none) (v : V) :
    (t.put k v).entries = ⟨k, v⟩ :: t.entries := by
  have hnot : k ∉ t := fun hk => by
    rw [Table.get, AList.lookup_eq_none] at h
    exact h hk
  rw [Table.put, AList.entries_insert_of_notMem hnot]

/-- A row under a key that is there replaces the one before. -/
theorem exists_entries_put {u : V} (h : t.get k = some u) : ∃ l₁ l₂,
    t.entries = l₁ ++ ⟨k, u⟩ :: l₂ ∧ ∀ v, (t.put k v).entries = ⟨k, v⟩ :: (l₁ ++ l₂) := by
  have hmem : k ∈ t.entries.keys :=
    AList.mem_keys.mp (AList.lookup_isSome.mp (by rw [← Table.get, h]; rfl))
  obtain ⟨u', l₁, l₂, -, hl, herase⟩ := List.exists_of_kerase hmem
  have hu : u' = u := by
    have hin : (⟨k, u'⟩ : (_ : K) × V) ∈ t.entries := by
      rw [hl]
      simp
    exact Option.some.inj ((AList.mem_lookup_iff.mpr hin).symm.trans h)
  refine ⟨l₁, l₂, hu ▸ hl, fun v => ?_⟩
  rw [Table.put, AList.entries_insert, herase]

theorem length_put_of_none (h : t.get k = none) (v : V) :
    (t.put k v).entries.length = t.entries.length + 1 := by
  rw [entries_put_of_none h, List.length_cons]

theorem length_put_of_some {u : V} (h : t.get k = some u) (v : V) :
    (t.put k v).entries.length = t.entries.length := by
  obtain ⟨l₁, l₂, hl, hput⟩ := exists_entries_put h
  rw [hput, hl, List.length_cons, List.length_append, List.length_append, List.length_cons]
  omega

/-- Replacing a row changes how many rows satisfy `p` by what the two rows say. -/
theorem length_select_put (t : Table K V) (p : K → V → Bool) (k : K) (v : V) :
    ((t.put k v).select p).length + (if (t.get k).any (p k) then 1 else 0) =
      (t.select p).length + if p k v then 1 else 0 := by
  rw [length_select, length_select]
  cases hk : t.get k with
  | none =>
    rw [entries_put_of_none hk, List.countP_cons]
    rfl
  | some u =>
    obtain ⟨l₁, l₂, hl, hput⟩ := exists_entries_put hk
    rw [hput, hl, Option.any_some]
    simp only [List.countP_append, List.countP_cons]
    omega

/-- Putting a row that does not satisfy `p`, in the place of none that does, selects the same. -/
theorem select_put_of_not (t : Table K V) {p : K → V → Bool} {k : K} {v : V}
    (hold : ∀ u, t.get k = some u → p k u = false) (hnew : p k v = false) :
    (t.put k v).select p = t.select p := by
  cases hk : t.get k with
  | none =>
    rw [select, select, entries_put_of_none hk, List.filter_cons_of_neg (by simp [hnew])]
  | some u =>
    obtain ⟨l₁, l₂, hl, hput⟩ := exists_entries_put hk
    rw [select, select, hput, hl, List.filter_cons_of_neg (by simp [hnew])]
    simp [List.filter_append, hold u hk]

end Interleaving.Table
