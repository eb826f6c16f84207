import CafePos.SalesViews
import CafePos.TopItems
import CafePos.Relational.Sorting

/-!
# Rolling a day up again

None of the grouped queries of `aggregateDay` is ordered, so two runs over the same tables may
hand `buildRollupRow` the same groups in different orders. Counts and revenue are sums over the
groups and do not notice. The items are sorted, but only by quantity and name: an order is certain
only where these two tell all groups of the day apart.

* `get_bucketRevenue`, `countOf_eq` — revenue and counts as sums over the groups;
* `soldUnder` — how much of an item was sold on a day under a name;
* `reroll_same_iff` — when all runs over a day give the same row.
-/

namespace CafePos

open Interleaving Relational

/-! ## Sums over the groups -/

/-- The bucket of a group of the revenue. -/
def bucketOf (e : Option PaymentMethod × ℤ) : String :=
  (e.1.map PaymentMethod.text).getD unknownMethod

theorem bucketRevenue_append (revenue : List (Option PaymentMethod × ℤ))
    (e : Option PaymentMethod × ℤ) :
    bucketRevenue (revenue ++ [e]) = addTo (bucketRevenue revenue) (bucketOf e) e.2 := by
  rw [bucketRevenue, List.foldl_append]
  rfl

/-- A bucket holds the sum of its groups, and there is none without a group. -/
theorem get_bucketRevenue (revenue : List (Option PaymentMethod × ℤ)) (k : String) :
    (bucketRevenue revenue).get k = if k ∈ revenue.map bucketOf then
      some ((revenue.filter fun e => bucketOf e = k).map Prod.snd).sum else none := by
  induction revenue using List.reverseRecOn with
  | nil => rfl
  | append_singleton revenue e ih =>
    rw [bucketRevenue_append, addTo, Table.get_put]
    by_cases hk : k = bucketOf e
    · subst hk
      rw [if_pos rfl, if_pos (by simp), ih]
      by_cases hmem : bucketOf e ∈ revenue.map bucketOf
      · rw [if_pos hmem]
        simp
      · have hnone : (revenue.filter fun e' => bucketOf e' = bucketOf e) = [] := by
          refine List.filter_eq_nil_iff.mpr fun e' he' h => hmem ?_
          exact of_decide_eq_true h ▸ List.mem_map_of_mem he'
        rw [if_neg hmem]
        simp [hnone]
    · have hne : ¬ bucketOf e = k := fun h => hk h.symm
      have hmem : k ∈ (revenue ++ [e]).map bucketOf ↔ k ∈ revenue.map bucketOf := by
        rw [List.map_append, List.mem_append]
        exact or_iff_left fun h => hk (List.mem_singleton.mp h)
      have hrows : (revenue ++ [e]).filter (fun e => bucketOf e = k) =
          revenue.filter fun e => bucketOf e = k := by
        simp [hne]
      rw [if_neg hk, ih, hrows]
      simp only [hmem]

/-- The count of a status, if every status has one group. -/
theorem countOf_eq {counts : List (OrderStatus × ℕ)} (h : (counts.map Prod.fst).Nodup)
    (status : OrderStatus) :
    countOf counts status = ((counts.filter fun e => e.1 = status).map Prod.snd).sum := by
  induction counts using List.reverseRecOn with
  | nil => rfl
  | append_singleton counts e ih =>
    rw [List.map_append, List.nodup_append'] at h
    obtain ⟨hcounts, -, hdisjoint⟩ := h
    have hcons : countOf (counts ++ [e]) status =
        if status = e.1 then e.2 else countOf counts status := by
      rw [countOf, List.foldl_append, List.foldl_cons, List.foldl_nil, Table.get_put]
      split
      · rfl
      · rfl
    rw [hcons, List.filter_append, List.map_append, List.sum_append, ← ih hcounts]
    by_cases hs : status = e.1
    · subst hs
      have hnone : (counts.filter fun e' => e'.1 = e.1) = [] := by
        refine List.filter_eq_nil_iff.mpr fun e' he' h => ?_
        refine hdisjoint (List.mem_map_of_mem he') ?_
        rw [of_decide_eq_true h]
        exact List.mem_singleton_self _
      rw [ih hcounts, hnone]
      simp
    · have hne : ¬ e.1 = status := fun h => hs h.symm
      simp [hs, hne]

/-! ## The groups of a day -/

namespace Db

variable (db : Db)

/-- How much of an item was sold on a day under a name. -/
def soldUnder (day : String) (menuItemId : Id) (name : String) : ℤ :=
  (((db.soldOn day).filter fun i => (i.menuItemId, i.nameSnapshot) = (menuItemId, name)).map
    OrderItem.quantity).sum

end Db

variable {db : Db} {day : String}

/-- The groups of the items of a day are the items and names that were sold. -/
theorem exists_mem_items {menuItemId : Id} {name : String} {quantity : ℤ} :
    (∃ e ∈ (aggregateDay db day).items,
      e.menuItemId = menuItemId ∧ e.name = name ∧ e.quantity = quantity) ↔
      (∃ i ∈ db.soldOn day, i.menuItemId = menuItemId ∧ i.nameSnapshot = name) ∧
        db.soldUnder day menuItemId name = quantity := by
  constructor
  · rintro ⟨e, he, rfl, rfl, rfl⟩
    obtain ⟨g, hg, rfl⟩ := List.mem_map.mp he
    obtain ⟨hkey, hrows⟩ := mem_groupBy.mp hg
    obtain ⟨i, hi, hkey⟩ := List.mem_map.mp hkey
    refine ⟨⟨i, hi, congrArg Prod.fst hkey, congrArg Prod.snd hkey⟩, ?_⟩
    simp only [Db.soldUnder, hrows]
  · rintro ⟨⟨i, hi, rfl, rfl⟩, rfl⟩
    have hg : ((i.menuItemId, i.nameSnapshot), (db.soldOn day).filter fun j =>
        (j.menuItemId, j.nameSnapshot) = (i.menuItemId, i.nameSnapshot)) ∈
          groupBy (fun i => (i.menuItemId, i.nameSnapshot)) (db.soldOn day) :=
      mem_groupBy.mpr ⟨List.mem_map_of_mem hi, rfl⟩
    exact ⟨_, List.mem_map_of_mem hg, rfl, rfl, rfl⟩

theorem nodup_groups {α κ : Type} [DecidableEq κ] (key : α → κ) (rows : List α) :
    ((groupBy key rows).map Prod.fst).Nodup := by
  rw [groupBy, List.map_map]
  simpa [Function.comp_def] using List.nodup_dedup (rows.map key)

/-- The groups of the items differ in item or in name. -/
theorem nodup_items : ((aggregateDay db day).items.map fun e => (e.menuItemId, e.name)).Nodup := by
  rw [aggregateDay, List.map_map]
  exact nodup_groups _ _

theorem nodup_statusCounts : ((aggregateDay db day).statusCounts.map Prod.fst).Nodup := by
  rw [aggregateDay, List.map_map]
  exact nodup_groups _ _

/-! ## The rows a day can be rolled up to -/

/-- What `aggregateDay` could hand over for the same tables: its groups in any order. -/
structure CouldReturn (db : Db) (day : String) (parts : RollupParts) : Prop where
  statusCounts : parts.statusCounts.Perm (aggregateDay db day).statusCounts
  revenueByMethod : parts.revenueByMethod.Perm (aggregateDay db day).revenueByMethod
  refundsMinor : parts.refundsMinor = (aggregateDay db day).refundsMinor
  vatMinor : parts.vatMinor = (aggregateDay db day).vatMinor
  ordersSettled : parts.ordersSettled = (aggregateDay db day).ordersSettled
  items : parts.items.Perm (aggregateDay db day).items

/-- The rows are equal but for their items; the revenue as a map. -/
structure RollupRow.SameTotals (r r' : RollupRow) : Prop where
  businessDay : r.businessDay = r'.businessDay
  ordersCompleted : r.ordersCompleted = r'.ordersCompleted
  ordersRefunded : r.ordersRefunded = r'.ordersRefunded
  ordersCancelled : r.ordersCancelled = r'.ordersCancelled
  ordersExpired : r.ordersExpired = r'.ordersExpired
  ordersSettled : r.ordersSettled = r'.ordersSettled
  revenueMinor : r.revenueMinor = r'.revenueMinor
  revenueByMethod : ∀ k, r.revenueByMethod.get k = r'.revenueByMethod.get k
  refundsMinor : r.refundsMinor = r'.refundsMinor
  vatMinor : r.vatMinor = r'.vatMinor

/-- The rows are equal. -/
def RollupRow.Same (r r' : RollupRow) : Prop := r.SameTotals r' ∧ r.topItems = r'.topItems

theorem get_bucketRevenue_perm {revenue revenue' : List (Option PaymentMethod × ℤ)}
    (h : revenue.Perm revenue') (k : String) :
    (bucketRevenue revenue).get k = (bucketRevenue revenue').get k := by
  rw [get_bucketRevenue, get_bucketRevenue, ((h.filter _).map _).sum_eq]
  simp only [(h.map bucketOf).mem_iff]

theorem countOf_perm {counts counts' : List (OrderStatus × ℕ)} (h : counts.Perm counts')
    (hnodup : (counts'.map Prod.fst).Nodup) (status : OrderStatus) :
    countOf counts status = countOf counts' status := by
  rw [countOf_eq hnodup, countOf_eq ((h.map _).nodup_iff.mpr hnodup),
    ((h.filter _).map _).sum_eq]

/-- Everything but the order of the items is certain. -/
theorem CouldReturn.sameTotals {parts : RollupParts} (h : CouldReturn db day parts)
    (localeCompare : String → String → Ordering) :
    (buildRollupRow localeCompare day parts).SameTotals
      (buildRollupRow localeCompare day (aggregateDay db day)) where
  businessDay := rfl
  ordersCompleted := countOf_perm h.statusCounts nodup_statusCounts _
  ordersRefunded := countOf_perm h.statusCounts nodup_statusCounts _
  ordersCancelled := countOf_perm h.statusCounts nodup_statusCounts _
  ordersExpired := countOf_perm h.statusCounts nodup_statusCounts _
  ordersSettled := h.ordersSettled
  revenueMinor := by
    simp only [buildRollupRow, sum_bucketRevenue]
    exact (h.revenueByMethod.map _).sum_eq
  revenueByMethod := get_bucketRevenue_perm h.revenueByMethod
  refundsMinor := h.refundsMinor
  vatMinor := h.vatMinor

theorem RollupRow.SameTotals.symm {r r' : RollupRow} (h : r.SameTotals r') : r'.SameTotals r where
  businessDay := h.businessDay.symm
  ordersCompleted := h.ordersCompleted.symm
  ordersRefunded := h.ordersRefunded.symm
  ordersCancelled := h.ordersCancelled.symm
  ordersExpired := h.ordersExpired.symm
  ordersSettled := h.ordersSettled.symm
  revenueMinor := h.revenueMinor.symm
  revenueByMethod k := (h.revenueByMethod k).symm
  refundsMinor := h.refundsMinor.symm
  vatMinor := h.vatMinor.symm

theorem RollupRow.SameTotals.trans {r r' r'' : RollupRow} (h : r.SameTotals r')
    (h' : r'.SameTotals r'') : r.SameTotals r'' where
  businessDay := h.businessDay.trans h'.businessDay
  ordersCompleted := h.ordersCompleted.trans h'.ordersCompleted
  ordersRefunded := h.ordersRefunded.trans h'.ordersRefunded
  ordersCancelled := h.ordersCancelled.trans h'.ordersCancelled
  ordersExpired := h.ordersExpired.trans h'.ordersExpired
  ordersSettled := h.ordersSettled.trans h'.ordersSettled
  revenueMinor := h.revenueMinor.trans h'.revenueMinor
  revenueByMethod k := (h.revenueByMethod k).trans (h'.revenueByMethod k)
  refundsMinor := h.refundsMinor.trans h'.refundsMinor
  vatMinor := h.vatMinor.trans h'.vatMinor

/-! ## The order of the items -/

/-- An item of a row, as it would stand on a leaderboard. -/
def RollupItem.toTopItem (i : RollupItem) : TopItem :=
  ⟨i.menuItemId, i.name, i.quantity, i.revenueMinor⟩

section order

variable (localeCompare : String → String → Ordering) [Std.TransCmp localeCompare]

theorem topFirst_trans (a b c : RollupItem) (hab : topFirst localeCompare a b = true)
    (hbc : topFirst localeCompare b c = true) : topFirst localeCompare a c = true :=
  @soldFirst_trans localeCompare _ a.toTopItem b.toTopItem c.toTopItem hab hbc

theorem topFirst_total (a b : RollupItem) :
    (topFirst localeCompare a b || topFirst localeCompare b a) = true :=
  soldFirst_total localeCompare a.toTopItem b.toTopItem

theorem topFirst_iff_eq {a b : RollupItem} :
    topFirst localeCompare a b = true ∧ topFirst localeCompare b a = true ↔
      a.quantity = b.quantity ∧ localeCompare a.name b.name = .eq := by
  simp only [topFirst, Bool.or_eq_true, Bool.and_eq_true, decide_eq_true_eq, beq_iff_eq]
  constructor
  · rintro ⟨hab, hba⟩
    rcases hab with hab | ⟨hab, hle⟩
    · rcases hba with hba | ⟨hba, -⟩
      · exact absurd hab (by omega)
      · exact absurd hab (by omega)
    · rcases hba with hba | ⟨-, hge⟩
      · exact absurd hba (by omega)
      · exact ⟨hab, Std.OrientedCmp.isLE_antisymm hle hge⟩
  · rintro ⟨hquantity, hname⟩
    have hname' : localeCompare b.name a.name = .eq := Std.OrientedCmp.eq_comm.mp hname
    exact ⟨Or.inr ⟨hquantity, by rw [hname]; rfl⟩, Or.inr ⟨hquantity.symm, by rw [hname']; rfl⟩⟩

/-- Any two items or names that the day sold in equal number have names that differ for
`localeCompare`. -/
def Distinguishable (localeCompare : String → String → Ordering) (db : Db) (day : String) : Prop :=
  ∀ i ∈ db.soldOn day, ∀ j ∈ db.soldOn day,
    db.soldUnder day i.menuItemId i.nameSnapshot = db.soldUnder day j.menuItemId j.nameSnapshot →
    localeCompare i.nameSnapshot j.nameSnapshot = .eq →
    i.menuItemId = j.menuItemId ∧ i.nameSnapshot = j.nameSnapshot

instance (db : Db) (day : String) : Decidable (Distinguishable localeCompare db day) :=
  inferInstanceAs (Decidable (∀ i ∈ db.soldOn day, ∀ j ∈ db.soldOn day, _ → _ → _))

theorem eq_of_key {e e' : RollupItem} (he : e ∈ (aggregateDay db day).items)
    (he' : e' ∈ (aggregateDay db day).items) (hid : e.menuItemId = e'.menuItemId)
    (hname : e.name = e'.name) : e = e' :=
  List.inj_on_of_nodup_map nodup_items he he' (Prod.ext hid hname)

omit [Std.TransCmp localeCompare] in
theorem distinguishable_iff : Distinguishable localeCompare db day ↔
    ∀ a ∈ (aggregateDay db day).items, ∀ b ∈ (aggregateDay db day).items,
      a.quantity = b.quantity → localeCompare a.name b.name = .eq → a = b := by
  constructor
  · intro h a ha b hb hquantity hname
    obtain ⟨⟨i, hi, hia, hin⟩, hqa⟩ := exists_mem_items.mp ⟨a, ha, rfl, rfl, rfl⟩
    obtain ⟨⟨j, hj, hjb, hjn⟩, hqb⟩ := exists_mem_items.mp ⟨b, hb, rfl, rfl, rfl⟩
    rw [← hia, ← hin] at hqa
    rw [← hjb, ← hjn] at hqb
    rw [← hin, ← hjn] at hname
    obtain ⟨hid, hnames⟩ := h i hi j hj (hqa.trans (hquantity.trans hqb.symm)) hname
    exact eq_of_key ha hb (hia.symm.trans (hid.trans hjb)) (hin.symm.trans (hnames.trans hjn))
  · intro h i hi j hj hquantity hname
    obtain ⟨a, ha, hia, hin, hqa⟩ := exists_mem_items.mpr
      ⟨⟨i, hi, rfl, rfl⟩, (rfl : db.soldUnder day i.menuItemId i.nameSnapshot = _)⟩
    obtain ⟨b, hb, hjb, hjn, hqb⟩ := exists_mem_items.mpr
      ⟨⟨j, hj, rfl, rfl⟩, (rfl : db.soldUnder day j.menuItemId j.nameSnapshot = _)⟩
    rw [← hin, ← hjn] at hname
    obtain rfl := h a ha b hb (hqa.trans (hquantity.trans hqb.symm)) hname
    exact ⟨hia.symm.trans hjb, hin.symm.trans hjn⟩

theorem nodup_rollupItems : (aggregateDay db day).items.Nodup := List.Nodup.of_map _ nodup_items

/-- All runs over the same tables give the same row of a day. -/
def Reproducible (localeCompare : String → String → Ordering) (db : Db) (day : String) : Prop :=
  ∀ parts parts', CouldReturn db day parts → CouldReturn db day parts' →
    (buildRollupRow localeCompare day parts).Same (buildRollupRow localeCompare day parts')

/-- Two groups that the comparison does not tell apart can change places. -/
theorem distinguishable_of_reproducible (h : Reproducible localeCompare db day) :
    Distinguishable localeCompare db day := by
  refine (distinguishable_iff localeCompare).mpr fun a ha b hb hquantity hname => ?_
  have hle := (topFirst_iff_eq localeCompare).mpr ⟨hquantity, hname⟩
  refine (mergeSort_eq_iff (topFirst_trans localeCompare) (topFirst_total localeCompare)
    nodup_rollupItems).mp (fun l₁ l₂ h₁ h₂ => ?_) a ha b hb hle.1 hle.2
  have hcould : ∀ l : List RollupItem, l.Perm (aggregateDay db day).items →
      CouldReturn db day { aggregateDay db day with items := l } := fun l hl =>
    ⟨List.Perm.refl _, List.Perm.refl _, rfl, rfl, rfl, hl⟩
  exact (h _ _ (hcould l₁ h₁) (hcould l₂ h₂)).2

theorem reproducible_of_distinguishable (h : Distinguishable localeCompare db day) :
    Reproducible localeCompare db day := by
  intro parts parts' hparts hparts'
  refine ⟨(hparts.sameTotals localeCompare).trans (hparts'.sameTotals localeCompare).symm, ?_⟩
  refine (mergeSort_eq_iff (topFirst_trans localeCompare) (topFirst_total localeCompare)
    nodup_rollupItems).mpr (fun a ha b hb hab hba => ?_) _ _ hparts.items hparts'.items
  obtain ⟨hquantity, hname⟩ := (topFirst_iff_eq localeCompare).mp ⟨hab, hba⟩
  exact (distinguishable_iff localeCompare).mp h a ha b hb hquantity hname

/-- **Rolling up again.** All runs over the same tables give the same row of a day if and only if
quantity and name tell apart all that the day sold. -/
theorem reroll_same_iff (db : Db) (day : String) :
    Reproducible localeCompare db day ↔ Distinguishable localeCompare db day :=
  ⟨distinguishable_of_reproducible localeCompare, reproducible_of_distinguishable localeCompare⟩

end order

/-- A menu with two lattes, at different prices. -/
def twoLattes (fresh : Id) : Input :=
  { fresh, stripeId := "", now := 5,
    menu := [⟨1, "Latte", 4000, true, true, []⟩, ⟨2, "Latte", 4500, true, true, []⟩] }

/-- Staff member 7 takes an order for one of each; the order gets id 100. -/
def takeBoth : List PosAct :=
  .start (.createOrder (.staff 7)
    ⟨.counter, [⟨1, 1, [], none⟩, ⟨2, 1, [], none⟩], none, none, false⟩ none) ::
      steps 0 8 (twoLattes 100)

/-- One latte is all that was sold. -/
theorem reroll_same_one_latte : ∃ w, Reachable cornerCafe w ∧
    w.shared.db.soldOn "2026-01-01" ≠ [] ∧ Reproducible compare w.shared.db "2026-01-01" := by
  obtain ⟨w, hw, hsold, hone⟩ := Reachable.exists_of_runIf cornerCafe (takeOrder ++ payCash 1 200)
    (fun w => w.shared.db.soldOn "2026-01-01" ≠ [] ∧
      Distinguishable compare w.shared.db "2026-01-01") (by decide)
  exact ⟨w, hw, hsold, (reroll_same_iff compare _ _).mpr hone⟩

/-- One of each latte was sold, and the row depends on the order in which they come. -/
theorem reroll_differs : ∃ w, Reachable cornerCafe w ∧
    ¬ Reproducible compare w.shared.db "2026-01-01" := by
  obtain ⟨w, hw, htie⟩ := Reachable.exists_of_runIf cornerCafe (takeBoth ++ payCash 1 200)
    (fun w => ¬ Distinguishable compare w.shared.db "2026-01-01") (by decide)
  exact ⟨w, hw, fun h => htie (distinguishable_of_reproducible compare h)⟩

end CafePos
