import Mathlib

/-!
# Tables with a primary key

A table is a finite map from its primary key to its rows, Mathlib's `AList`. The
order in which `Table.select` lists the rows carries no meaning. `Table.Grows R` says that
no row was removed and that every row moved along `R`.
-/

namespace Interleaving

variable {K V : Type}

/-- A table with primary key `K` and rows `V`. -/
abbrev Table (K V : Type) : Type := AList fun _ : K => V

namespace Table

variable [DecidableEq K]

/-- The row with key `k`. -/
def get (t : Table K V) (k : K) : Option V := t.lookup k

/-- Insert a row, or replace the one with the same key. -/
def put (t : Table K V) (k : K) (v : V) : Table K V := t.insert k v

/-- The rows that satisfy `p`, with their keys. -/
def select (t : Table K V) (p : K → V → Bool) : List (K × V) :=
  (t.entries.filter fun e => p e.1 e.2).map fun e => (e.1, e.2)

/-- Only the rows that satisfy `p`. -/
def keep (t : Table K V) (p : K → V → Bool) : Table K V :=
  ⟨t.entries.filter fun e => p e.1 e.2, t.nodupKeys.sublist List.filter_sublist⟩

/-- Every row, changed. -/
def mapRows (t : Table K V) (f : V → V) : Table K V :=
  ⟨t.entries.map fun e => ⟨e.1, f e.2⟩, by
    have hkeys : (t.entries.map fun e => (⟨e.1, f e.2⟩ : (_ : K) × V)).keys = t.entries.keys := by
      simp [List.keys]
    rw [List.NodupKeys, hkeys]
    exact t.nodupKeys⟩

/-- Every row, changed by its key. -/
def mapKeyed (t : Table K V) (f : K → V → V) : Table K V :=
  ⟨t.entries.map fun e => ⟨e.1, f e.1 e.2⟩, by
    have hkeys : (t.entries.map fun e => (⟨e.1, f e.1 e.2⟩ : (_ : K) × V)).keys =
        t.entries.keys := by
      simp [List.keys]
    rw [List.NodupKeys, hkeys]
    exact t.nodupKeys⟩

/-- The rows, without their keys. -/
def values (t : Table K V) : List V := t.entries.map fun e => e.2

@[simp] theorem get_empty (k : K) : get (∅ : Table K V) k = none := rfl

theorem get_put (t : Table K V) (k k' : K) (v : V) :
    (t.put k v).get k' = if k' = k then some v else t.get k' := by
  by_cases h : k' = k
  · subst h
    rw [if_pos rfl]
    exact AList.lookup_insert t
  · rw [if_neg h]
    exact AList.lookup_insert_ne h

@[simp] theorem get_put_self (t : Table K V) (k : K) (v : V) : (t.put k v).get k = some v := by
  rw [get_put, if_pos rfl]

theorem get_put_ne (t : Table K V) {k k' : K} (v : V) (h : k' ≠ k) :
    (t.put k v).get k' = t.get k' := by
  rw [get_put, if_neg h]

/-- What a fold of `put` leaves under a key. -/
theorem get_foldl_put {α : Type} (key : α → K) (value : α → V) (l : List α)
    (m : Table K V) {k : K} {v : V}
    (h : (l.foldl (fun m e => m.put (key e) (value e)) m).get k = some v) :
    m.get k = some v ∨ ∃ e ∈ l, key e = k ∧ value e = v := by
  induction l generalizing m with
  | nil => exact Or.inl h
  | cons e l ih =>
    rcases ih _ h with hm | ⟨e', he', hkv⟩
    · rw [get_put] at hm
      split at hm
      · rename_i hk
        exact Or.inr ⟨e, List.mem_cons_self, hk.symm, Option.some.inj hm⟩
      · exact Or.inl hm
    · exact Or.inr ⟨e', List.mem_cons_of_mem _ he', hkv⟩

/-- The second image of a row is the one that stays. -/
theorem put_put (t : Table K V) (k : K) (v v' : V) : (t.put k v).put k v' = t.put k v' :=
  AList.insert_insert t

theorem mem_select {t : Table K V} {p : K → V → Bool} {k : K} {v : V} :
    (k, v) ∈ t.select p ↔ t.get k = some v ∧ p k v = true := by
  have hlookup : t.get k = some v ↔ (⟨k, v⟩ : (_ : K) × V) ∈ t.entries :=
    AList.mem_lookup_iff
  rw [hlookup]
  constructor
  · intro h
    obtain ⟨⟨k', v'⟩, he, hkv⟩ := List.mem_map.mp h
    obtain ⟨rfl, rfl⟩ := Prod.mk.inj hkv
    exact List.mem_filter.mp he
  · intro h
    exact List.mem_map.mpr ⟨⟨k, v⟩, List.mem_filter.mpr h, rfl⟩

theorem select_eq_nil {t : Table K V} {p : K → V → Bool} :
    t.select p = [] ↔ ∀ k v, t.get k = some v → p k v = false := by
  rw [List.eq_nil_iff_forall_not_mem]
  constructor
  · intro h k v hkv
    cases hp : p k v
    · rfl
    · exact absurd (mem_select.mpr ⟨hkv, hp⟩) (h (k, v))
  · rintro h ⟨k, v⟩ hkv
    obtain ⟨hget, hp⟩ := mem_select.mp hkv
    rw [h k v hget] at hp
    cases hp

/-- What is left under a key. -/
theorem get_keep (t : Table K V) (p : K → V → Bool) (k : K) :
    (t.keep p).get k = (t.get k).filter (p k) := by
  have hmem : ∀ v, (t.keep p).get k = some v ↔ t.get k = some v ∧ p k v = true := by
    intro v
    have hkeep : (t.keep p).get k = some v ↔ (⟨k, v⟩ : (_ : K) × V) ∈ (t.keep p).entries :=
      AList.mem_lookup_iff
    have hget : t.get k = some v ↔ (⟨k, v⟩ : (_ : K) × V) ∈ t.entries := AList.mem_lookup_iff
    rw [hkeep, hget]
    exact List.mem_filter
  refine Option.ext fun v => ?_
  rw [hmem, Option.filter_eq_some_iff]

/-- A row that is kept was there. -/
theorem get_of_keep {t : Table K V} {p : K → V → Bool} {k : K} {v : V}
    (h : (t.keep p).get k = some v) : t.get k = some v := by
  rw [get_keep] at h
  exact (Option.filter_eq_some_iff.mp h).1

theorem get_mapKeyed (t : Table K V) (f : K → V → V) (k : K) :
    (t.mapKeyed f).get k = (t.get k).map (f k) := by
  have hmem : ∀ v, (t.mapKeyed f).get k = some v ↔ ∃ u, t.get k = some u ∧ f k u = v := by
    intro v
    have hmap : (t.mapKeyed f).get k = some v ↔ (⟨k, v⟩ : (_ : K) × V) ∈ (t.mapKeyed f).entries :=
      AList.mem_lookup_iff
    have hget : ∀ u, t.get k = some u ↔ (⟨k, u⟩ : (_ : K) × V) ∈ t.entries :=
      fun u => AList.mem_lookup_iff
    rw [hmap]
    simp only [hget]
    constructor
    · intro h
      obtain ⟨⟨k', u⟩, he, hku⟩ := List.mem_map.mp h
      obtain ⟨rfl, hu⟩ := Sigma.mk.inj hku
      exact ⟨u, he, eq_of_heq hu⟩
    · rintro ⟨u, he, rfl⟩
      exact List.mem_map.mpr ⟨⟨k, u⟩, he, rfl⟩
  refine Option.ext fun v => ?_
  rw [hmem, Option.map_eq_some_iff]

theorem get_mapRows (t : Table K V) (f : V → V) (k : K) :
    (t.mapRows f).get k = (t.get k).map f :=
  get_mapKeyed t (fun _ => f) k

omit [DecidableEq K] in
/-- A select lists every row once. -/
theorem nodup_select (t : Table K V) (p : K → V → Bool) : ((t.select p).map Prod.fst).Nodup := by
  have hkeys : (t.select p).map Prod.fst = (t.entries.filter fun e => p e.1 e.2).keys := by
    simp only [select, List.map_map, List.keys]
    rfl
  rw [hkeys]
  exact t.nodupKeys.sublist List.filter_sublist

/-- Replacing the row under a key changes the sum over the rows by the difference. -/
theorem sum_values_put {M : Type} [AddCommGroup M] (t : Table K M) (k : K) (m : M) :
    (t.put k m).values.sum = t.values.sum - (t.get k).getD 0 + m := by
  have hentries : (t.put k m).entries = ⟨k, m⟩ :: t.entries.kerase k := AList.entries_insert
  cases hk : t.get k with
  | none =>
    have hnot : k ∉ t.entries.keys := fun h => by
      rw [Table.get, AList.lookup_eq_none] at hk
      exact hk (AList.mem_keys.mpr h)
    rw [values, hentries, List.kerase_of_notMem_keys hnot]
    simp [values, add_comm]
  | some m₀ =>
    have hmem : k ∈ t.entries.keys := AList.mem_keys.mp (AList.lookup_isSome.mp (by
      rw [← Table.get, hk]
      rfl))
    obtain ⟨m₁, l₁, l₂, hl₁, hl, herase⟩ := List.exists_of_kerase hmem
    have hm : m₁ = m₀ := by
      have hin : (⟨k, m₁⟩ : (_ : K) × M) ∈ t.entries := by rw [hl]; simp
      exact Option.some.inj ((AList.mem_lookup_iff.mpr hin).symm.trans hk)
    rw [values, hentries, herase, values, hl, hm]
    simp only [List.map_cons, List.map_append, List.sum_cons, List.sum_append, Option.getD_some]
    abel

/-- Every row of a table is still there, and has moved along `R`. -/
def Grows (R : V → V → Prop) (t t' : Table K V) : Prop :=
  ∀ k v, t.get k = some v → ∃ v', t'.get k = some v' ∧ R v v'

namespace Grows

variable {R : V → V → Prop} {t t' t'' : Table K V}

theorem refl (hR : ∀ v, R v v) (t : Table K V) : Grows R t t :=
  fun _ v h => ⟨v, h, hR v⟩

theorem trans (hR : ∀ {u v w}, R u v → R v w → R u w) (h₁ : Grows R t t')
    (h₂ : Grows R t' t'') : Grows R t t'' := by
  intro k v hv
  obtain ⟨v', hv', hr'⟩ := h₁ k v hv
  obtain ⟨v'', hv'', hr''⟩ := h₂ k v' hv'
  exact ⟨v'', hv'', hR hr' hr''⟩

/-- Putting a row under a key: the row that was there, if any, moved along `R`. -/
theorem put (hR : ∀ v, R v v) {k : K} {v : V} (h : ∀ u, t.get k = some u → R u v) :
    Grows R t (t.put k v) := by
  intro k' v' hv'
  by_cases hk : k' = k
  · subst hk
    exact ⟨v, Table.get_put_self .., h v' hv'⟩
  · exact ⟨v', by rw [Table.get_put_ne _ _ hk]; exact hv', hR v'⟩

/-- A row that was there and is there now has moved along `R`. -/
theorem rel (h : Grows R t t') {k : K} {v v' : V} (hv : t.get k = some v)
    (hv' : t'.get k = some v') : R v v' := by
  obtain ⟨u, hu, hr⟩ := h k v hv
  obtain rfl := Option.some.inj (hu.symm.trans hv')
  exact hr

end Grows

end Table

end Interleaving
