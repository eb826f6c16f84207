import Mathlib

/-!
# Running totals under a key

A `Map` of running totals, filled row by row: the first row with a key puts an entry there, and
every later one is taken up by the entry. A map that remembers the order in which its keys came is
a list of entries with distinct keys.

* `Tally.find_totals` — the entry under a key is what the rows with the key make of each other;
* `Tally.nodup_totals`, `Tally.mem_keys` — the entries are those of the keys that occur;
* `Tally.sum_totals` — a weight that adds up over the rows adds up over the entries.
-/

namespace Relational

universe u v w

/-- How rows `α` become entries `β` under keys `κ`: the entry that the first row with a key puts
there, and the entry after one more row. -/
structure Tally (α : Type u) (β : Type v) (κ : Type w) where
  /-- the key of a row -/
  key : α → κ
  /-- the key of an entry -/
  keyOf : β → κ
  /-- the entry of the first row -/
  first : α → β
  /-- the entry after one more row -/
  more : β → α → β
  /-- the first row gives the entry its key -/
  key_first : ∀ a, keyOf (first a) = key a
  /-- no row changes it -/
  key_more : ∀ b a, keyOf (more b a) = keyOf b

namespace Tally

variable {α : Type u} {β : Type v} {κ : Type w} [DecidableEq κ] (T : Tally α β κ)

/-- One row is taken up. -/
def bump : List β → α → List β
  | [], a => [T.first a]
  | b :: bs, a => if T.keyOf b = T.key a then T.more b a :: bs else b :: bump bs a

/-- The entries after all the rows. -/
def totals (rows : List α) : List β := rows.foldl T.bump []

/-- The entry that rows with one key make of each other. -/
def entry (rows : List α) : Option β :=
  rows.foldl (fun o a => some (o.elim (T.first a) fun b => T.more b a)) none

theorem totals_append (rows : List α) (a : α) :
    T.totals (rows ++ [a]) = T.bump (T.totals rows) a := by
  rw [totals, List.foldl_append]
  rfl

omit [DecidableEq κ] in
theorem entry_append (rows : List α) (a : α) :
    T.entry (rows ++ [a]) = some ((T.entry rows).elim (T.first a) fun b => T.more b a) := by
  rw [entry, List.foldl_append]
  rfl

/-! ## The entries by key -/

theorem find_bump (bs : List β) (a : α) (k : κ) :
    (T.bump bs a).find? (fun b => T.keyOf b = k) =
      if T.key a = k then
        some ((bs.find? fun b => T.keyOf b = k).elim (T.first a) fun b => T.more b a)
      else bs.find? fun b => T.keyOf b = k := by
  induction bs with
  | nil =>
    by_cases hk : T.key a = k
    · simp [bump, T.key_first, hk]
    · simp [bump, T.key_first, hk]
  | cons b bs ih =>
    rw [bump]
    by_cases hb : T.keyOf b = T.key a
    · rw [if_pos hb]
      by_cases hk : T.key a = k
      · simp [T.key_more, hb, hk]
      · simp [T.key_more, hb, hk]
    · rw [if_neg hb]
      by_cases hk : T.keyOf b = k
      · have hak : T.key a ≠ k := fun h => hb (hk.trans h.symm)
        simp [hk, hak]
      · simp [hk, ih]

/-- The entry under a key is what the rows with the key make of each other. -/
theorem find_totals (rows : List α) (k : κ) :
    (T.totals rows).find? (fun b => T.keyOf b = k) =
      T.entry (rows.filter fun a => T.key a = k) := by
  induction rows using List.reverseRecOn with
  | nil => rfl
  | append_singleton rows a ih =>
    rw [totals_append, find_bump, ih, List.filter_append]
    by_cases hk : T.key a = k
    · simp [hk, entry_append]
    · simp [hk]

theorem keys_bump (bs : List β) (a : α) :
    (T.bump bs a).map T.keyOf =
      if T.key a ∈ bs.map T.keyOf then bs.map T.keyOf else bs.map T.keyOf ++ [T.key a] := by
  induction bs with
  | nil => simp [bump, T.key_first]
  | cons b bs ih =>
    rw [bump]
    by_cases hb : T.keyOf b = T.key a
    · simp [hb, T.key_more]
    · rw [if_neg hb, List.map_cons, ih]
      have hne : T.key a ≠ T.keyOf b := fun h => hb h.symm
      by_cases hmem : T.key a ∈ bs.map T.keyOf
      · rw [if_pos hmem, List.map_cons, if_pos (List.mem_cons_of_mem _ hmem)]
      · have hnew : T.key a ∉ T.keyOf b :: bs.map T.keyOf := by
          rw [List.mem_cons, not_or]
          exact ⟨hne, hmem⟩
        rw [if_neg hmem, List.map_cons, if_neg hnew]
        rfl

/-- There is one entry under a key. -/
theorem nodup_totals (rows : List α) : ((T.totals rows).map T.keyOf).Nodup := by
  induction rows using List.reverseRecOn with
  | nil => exact List.nodup_nil
  | append_singleton rows a ih =>
    rw [totals_append, keys_bump]
    split
    · exact ih
    · rename_i hnew
      exact List.nodup_append'.mpr ⟨ih, List.nodup_singleton _, by simpa using hnew⟩

/-- There is an entry under every key that occurs. -/
theorem mem_keys (rows : List α) (k : κ) :
    k ∈ (T.totals rows).map T.keyOf ↔ k ∈ rows.map T.key := by
  induction rows using List.reverseRecOn with
  | nil => exact Iff.rfl
  | append_singleton rows a ih =>
    rw [totals_append, keys_bump, List.map_append, List.mem_append]
    split
    · rename_i hold
      rw [← ih]
      constructor
      · exact Or.inl
      · rintro (h | h)
        · exact h
        · rw [List.mem_singleton.mp h]
          exact hold
    · rw [List.mem_append, ih]
      rfl

/-- An entry is the one under its key. -/
theorem entry_of_mem {rows : List α} {b : β} (hb : b ∈ T.totals rows) :
    T.entry (rows.filter fun a => T.key a = T.keyOf b) = some b := by
  rw [← find_totals]
  have hnodup := T.nodup_totals rows
  generalize T.totals rows = bs at hb hnodup
  induction bs with
  | nil => cases hb
  | cons b' bs ih =>
    rw [List.map_cons, List.nodup_cons] at hnodup
    rcases List.mem_cons.mp hb with rfl | hb
    · simp
    · have hne : T.keyOf b' ≠ T.keyOf b := fun h =>
        hnodup.1 (h ▸ List.mem_map_of_mem hb)
      rw [List.find?_cons_of_neg (by simpa using hne)]
      exact ih hb hnodup.2

/-! ## Weights that add up -/

section weights

variable {M : Type*} [AddCommMonoid M] {weight : β → M} {of : α → M}

omit [DecidableEq κ] in
/-- The weight of an entry is the sum over its rows. -/
theorem sum_entry (hfirst : ∀ a, weight (T.first a) = of a)
    (hmore : ∀ b a, weight (T.more b a) = weight b + of a) (rows : List α) :
    (T.entry rows).elim 0 weight = (rows.map of).sum := by
  induction rows using List.reverseRecOn with
  | nil => rfl
  | append_singleton rows a ih =>
    rw [entry_append, List.map_append, List.sum_append, ← ih]
    cases T.entry rows with
    | none => simp [hfirst]
    | some b => simp [hmore]

theorem sum_bump (hfirst : ∀ a, weight (T.first a) = of a)
    (hmore : ∀ b a, weight (T.more b a) = weight b + of a) (bs : List β) (a : α) :
    ((T.bump bs a).map weight).sum = (bs.map weight).sum + of a := by
  induction bs with
  | nil => simp [bump, hfirst]
  | cons b bs ih =>
    rw [bump]
    split
    · rw [List.map_cons, List.sum_cons, hmore, List.map_cons, List.sum_cons]
      exact add_right_comm ..
    · rw [List.map_cons, List.sum_cons, ih, List.map_cons, List.sum_cons, add_assoc]

/-- The weight of all entries is the sum over all rows. -/
theorem sum_totals (hfirst : ∀ a, weight (T.first a) = of a)
    (hmore : ∀ b a, weight (T.more b a) = weight b + of a) (rows : List α) :
    ((T.totals rows).map weight).sum = (rows.map of).sum := by
  induction rows using List.reverseRecOn with
  | nil => rfl
  | append_singleton rows a ih =>
    rw [totals_append, T.sum_bump hfirst hmore, ih, List.map_append, List.sum_append]
    simp

end weights

end Tally

end Relational
