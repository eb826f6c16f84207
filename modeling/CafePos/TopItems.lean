import CafePos.Reporting
import CafePos.Relational.Tally

/-!
# The leaderboard

`mergeTopItems` (`reporting/reports/shape-reports.ts`) merges the item lists of days into one
leaderboard. Its map of running totals is a tally under the item's id, and quantity and revenue
are weights that add up; sorting and cutting come last and only rearrange.

* `mergeTotals_eq` — the two nested loops are one pass over the rows of all days;
* `amounts_of_mem` — an entry's amounts are those of its id, `sum_quantity`, `sum_revenueMinor` —
  nothing is lost;
* `amountsOf_congr` — no order of days or of items matters;
* `merge_exact` — the leaderboard is an exact group-by.
-/

namespace CafePos

open Relational

/-! ## Merging the days -/

/-- One row of `GET /reports/top-items`. -/
structure TopItem where
  menuItemId : Id
  name : String
  quantity : ℤ
  revenueMinor : ℤ
  deriving DecidableEq

/-- A day's item list, tagged with the day it is for. -/
structure DayItems where
  businessDay : String
  topItems : List RollupItem

/-- `TopItem & { nameFrom }`: a running total, and the day its name is from. -/
structure RunningTotal extends TopItem where
  nameFrom : String
  deriving DecidableEq

/-- The running total of an item's first row. -/
def firstTotal (row : String × RollupItem) : RunningTotal :=
  ⟨⟨row.2.menuItemId, row.2.name, row.2.quantity, row.2.revenueMinor⟩, row.1⟩

/-- One more row is added; its name wins unless it is from an earlier day. -/
def RunningTotal.add (running : RunningTotal) (row : String × RollupItem) : RunningTotal where
  menuItemId := running.menuItemId
  quantity := running.quantity + row.2.quantity
  revenueMinor := running.revenueMinor + row.2.revenueMinor
  name := if running.nameFrom ≤ row.1 then row.2.name else running.name
  nameFrom := if running.nameFrom ≤ row.1 then row.1 else running.nameFrom

/-- `totals`: the running totals by `menuItemId`, never by name. -/
def itemTally : Tally (String × RollupItem) RunningTotal Id where
  key row := row.2.menuItemId
  keyOf running := running.menuItemId
  first := firstTotal
  more := RunningTotal.add
  key_first _ := rfl
  key_more _ _ := rfl

/-- The two loops of `mergeTopItems`. -/
def mergeTotals (days : List DayItems) : List RunningTotal :=
  days.foldl (fun totals day =>
    day.topItems.foldl (fun totals item => itemTally.bump totals (day.businessDay, item)) totals) []

/-- The most sold first, then by name. -/
def soldFirst (localeCompare : String → String → Ordering) (a b : TopItem) : Bool :=
  b.quantity < a.quantity || (a.quantity == b.quantity && (localeCompare a.name b.name).isLE)

/-- `mergeTopItems`. -/
def mergeTopItems (localeCompare : String → String → Ordering) (days : List DayItems)
    (limit : ℕ) : List TopItem :=
  (((mergeTotals days).mergeSort fun a b =>
    soldFirst localeCompare a.toTopItem b.toTopItem).take limit).map RunningTotal.toTopItem

/-! ## One pass over the rows -/

/-- The rows of all days, each with its day. -/
def dayRows (days : List DayItems) : List (String × RollupItem) :=
  days.flatMap fun day => day.topItems.map fun item => (day.businessDay, item)

theorem mergeTotals_eq (days : List DayItems) :
    mergeTotals days = itemTally.totals (dayRows days) := by
  have hfold : ∀ totals : List RunningTotal, days.foldl (fun totals day =>
      day.topItems.foldl (fun totals item => itemTally.bump totals (day.businessDay, item)) totals)
        totals = (dayRows days).foldl itemTally.bump totals := by
    induction days with
    | nil => exact fun _ => rfl
    | cons day days ih =>
      intro totals
      have hrows : dayRows (day :: days) =
          day.topItems.map (fun item => (day.businessDay, item)) ++ dayRows days := rfl
      rw [List.foldl_cons, ih, hrows, List.foldl_append, List.foldl_map]
  exact hfold []

/-- The leaderboard before it is cut. -/
def mergedItems (localeCompare : String → String → Ordering) (days : List DayItems) :
    List TopItem :=
  ((mergeTotals days).mergeSort fun a b =>
    soldFirst localeCompare a.toTopItem b.toTopItem).map RunningTotal.toTopItem

/-- The limit is applied last. -/
theorem mergeTopItems_eq (localeCompare : String → String → Ordering) (days : List DayItems)
    (limit : ℕ) :
    mergeTopItems localeCompare days limit = (mergedItems localeCompare days).take limit :=
  List.map_take ..

theorem mergedItems_perm (localeCompare : String → String → Ordering) (days : List DayItems) :
    (mergedItems localeCompare days).Perm ((mergeTotals days).map RunningTotal.toTopItem) :=
  (List.mergeSort_perm _ _).map _

/-! ## Amounts -/

/-- What is counted of an entry. -/
def TopItem.amounts (t : TopItem) : ℤ × ℤ := (t.quantity, t.revenueMinor)

/-- What is counted of a row. -/
def RollupItem.amounts (i : RollupItem) : ℤ × ℤ := (i.quantity, i.revenueMinor)

/-- The amounts of all rows of an item. -/
def amountsOf (days : List DayItems) (id : Id) : ℤ × ℤ :=
  (((dayRows days).filter fun row => row.2.menuItemId = id).map fun row => row.2.amounts).sum

theorem sum_pairs (rows : List (String × RollupItem)) :
    (rows.map fun row => row.2.amounts).sum =
      ((rows.map fun row => row.2.quantity).sum, (rows.map fun row => row.2.revenueMinor).sum) := by
  induction rows with
  | nil => rfl
  | cons row rows ih =>
    rw [List.map_cons, List.sum_cons, ih]
    rfl

theorem amounts_of_mem {days : List DayItems} {running : RunningTotal}
    (h : running ∈ mergeTotals days) :
    running.amounts = amountsOf days running.menuItemId := by
  rw [mergeTotals_eq] at h
  have hsum : (itemTally.entry ((dayRows days).filter fun row =>
      row.2.menuItemId = running.menuItemId)).elim 0 (fun running => running.amounts) =
        amountsOf days running.menuItemId :=
    itemTally.sum_entry (fun _ => rfl) (fun _ _ => rfl) _
  have hentry : itemTally.entry ((dayRows days).filter fun row =>
      row.2.menuItemId = running.menuItemId) = some running := itemTally.entry_of_mem h
  rw [hentry] at hsum
  exact hsum

theorem sum_quantity (days : List DayItems) :
    ((mergeTotals days).map fun running => running.quantity).sum =
      ((dayRows days).map fun row => row.2.quantity).sum := by
  rw [mergeTotals_eq]
  exact itemTally.sum_totals (fun _ => rfl) (fun _ _ => rfl) _

theorem sum_revenueMinor (days : List DayItems) :
    ((mergeTotals days).map fun running => running.revenueMinor).sum =
      ((dayRows days).map fun row => row.2.revenueMinor).sum := by
  rw [mergeTotals_eq]
  exact itemTally.sum_totals (fun _ => rfl) (fun _ _ => rfl) _

theorem mem_ids {days : List DayItems} {id : Id} :
    id ∈ (mergeTotals days).map (fun running => running.menuItemId) ↔
      ∃ row ∈ dayRows days, row.2.menuItemId = id := by
  rw [mergeTotals_eq]
  exact (itemTally.mem_keys _ _).trans List.mem_map

theorem nodup_ids (days : List DayItems) :
    ((mergeTotals days).map fun running => running.menuItemId).Nodup := by
  rw [mergeTotals_eq]
  exact itemTally.nodup_totals _

/-! ## The same sales in another order -/

/-- The days in another order, and the items of each day in another order. -/
def SameSales (days days' : List DayItems) : Prop :=
  ∃ days'', days.Perm days'' ∧ List.Forall₂
    (fun d d' => d.businessDay = d'.businessDay ∧ d.topItems.Perm d'.topItems) days'' days'

theorem dayRows_perm {days days' : List DayItems} (h : SameSales days days') :
    (dayRows days).Perm (dayRows days') := by
  obtain ⟨days'', hdays, hitems⟩ := h
  refine (hdays.flatMap_right _).trans ?_
  clear hdays
  induction hitems with
  | nil => exact List.Perm.nil
  | cons hday _ ih =>
    obtain ⟨hname, hperm⟩ := hday
    change (List.map _ _ ++ dayRows _).Perm (List.map _ _ ++ dayRows _)
    rw [hname]
    exact (hperm.map _).append ih

theorem amountsOf_congr {days days' : List DayItems} (h : SameSales days days') (id : Id) :
    amountsOf days id = amountsOf days' id :=
  (((dayRows_perm h).filter _).map _).sum_eq

/-- Which entries there are, but for their names, does not depend on the order either. -/
theorem exists_total_iff {days : List DayItems} {id : Id} {amounts : ℤ × ℤ} :
    (∃ running ∈ mergeTotals days, running.menuItemId = id ∧ running.amounts = amounts) ↔
      (∃ row ∈ dayRows days, row.2.menuItemId = id) ∧ amountsOf days id = amounts := by
  constructor
  · rintro ⟨running, hmem, rfl, rfl⟩
    exact ⟨mem_ids.mp (List.mem_map_of_mem hmem), (amounts_of_mem hmem).symm⟩
  · rintro ⟨hrow, rfl⟩
    obtain ⟨running, hmem, rfl⟩ := List.mem_map.mp (mem_ids.mpr hrow)
    exact ⟨running, hmem, rfl, amounts_of_mem hmem⟩

/-- The same for the leaderboard. -/
theorem exists_merged_iff {localeCompare : String → String → Ordering} {days : List DayItems}
    {id : Id} {quantity revenueMinor : ℤ} :
    (∃ t ∈ mergedItems localeCompare days,
      t.menuItemId = id ∧ t.quantity = quantity ∧ t.revenueMinor = revenueMinor) ↔
      (∃ row ∈ dayRows days, row.2.menuItemId = id) ∧
        amountsOf days id = (quantity, revenueMinor) := by
  rw [← exists_total_iff]
  constructor
  · rintro ⟨t, ht, hid, hquantity, hrevenue⟩
    obtain ⟨running, hmem, rfl⟩ :=
      List.mem_map.mp ((mergedItems_perm localeCompare days).mem_iff.mp ht)
    exact ⟨running, hmem, hid, Prod.ext hquantity hrevenue⟩
  · rintro ⟨running, hmem, hid, hamounts⟩
    exact ⟨running.toTopItem,
      (mergedItems_perm localeCompare days).mem_iff.mpr (List.mem_map_of_mem hmem), hid,
      congrArg Prod.fst hamounts, congrArg Prod.snd hamounts⟩

/-! ## The law -/

section order

variable (localeCompare : String → String → Ordering) [Std.TransCmp localeCompare]

theorem soldFirst_trans {a b c : TopItem} (hab : soldFirst localeCompare a b = true)
    (hbc : soldFirst localeCompare b c = true) : soldFirst localeCompare a c = true := by
  simp only [soldFirst, Bool.or_eq_true, Bool.and_eq_true, decide_eq_true_eq, beq_iff_eq]
    at hab hbc ⊢
  rcases hab with hab | ⟨hab, hname⟩
  · exact Or.inl (by omega)
  rcases hbc with hbc | ⟨hbc, hname'⟩
  · exact Or.inl (by omega)
  exact Or.inr ⟨hab.trans hbc, Std.TransCmp.isLE_trans hname hname'⟩

omit [Std.TransCmp localeCompare] in
theorem soldFirst_total [Std.OrientedCmp localeCompare] (a b : TopItem) :
    (soldFirst localeCompare a b || soldFirst localeCompare b a) = true := by
  simp only [soldFirst, Bool.or_eq_true, Bool.and_eq_true, decide_eq_true_eq, beq_iff_eq]
  rcases lt_trichotomy a.quantity b.quantity with h | h | h
  · exact Or.inr (Or.inl h)
  · cases hcmp : localeCompare a.name b.name with
    | gt =>
      have hlt : localeCompare b.name a.name = .lt := Std.OrientedCmp.gt_iff_lt.mp hcmp
      exact Or.inr (Or.inr ⟨h.symm, by rw [hlt]; rfl⟩)
    | lt => exact Or.inl (Or.inr ⟨h, rfl⟩)
    | eq => exact Or.inl (Or.inr ⟨h, rfl⟩)
  · exact Or.inl (Or.inl h)

theorem pairwise_mergedItems (days : List DayItems) : (mergedItems localeCompare days).Pairwise
    fun a b => soldFirst localeCompare a b = true := by
  rw [mergedItems, List.pairwise_map]
  refine List.pairwise_mergeSort (fun a b c => ?_) (fun a b => ?_) _
  · exact soldFirst_trans localeCompare
  · exact soldFirst_total localeCompare a.toTopItem b.toTopItem

/-- **The leaderboard is an exact group-by.** Its limit cuts the unlimited one; that has one entry
for each item that occurs, with the sums of all its rows, and nothing else; the most sold come
first, then names in order; and the amounts of an item are the same in whatever order the days
and their items come. -/
theorem merge_exact (days : List DayItems) :
    (∀ limit, mergeTopItems localeCompare days limit =
      (mergedItems localeCompare days).take limit) ∧
    ((mergedItems localeCompare days).map TopItem.menuItemId).Nodup ∧
    (∀ id, id ∈ (mergedItems localeCompare days).map TopItem.menuItemId ↔
      ∃ row ∈ dayRows days, row.2.menuItemId = id) ∧
    (∀ t ∈ mergedItems localeCompare days,
      t.quantity = (((dayRows days).filter fun row => row.2.menuItemId = t.menuItemId).map
        fun row => row.2.quantity).sum ∧
      t.revenueMinor = (((dayRows days).filter fun row => row.2.menuItemId = t.menuItemId).map
        fun row => row.2.revenueMinor).sum) ∧
    ((mergedItems localeCompare days).map TopItem.quantity).sum =
      ((dayRows days).map fun row => row.2.quantity).sum ∧
    ((mergedItems localeCompare days).map TopItem.revenueMinor).sum =
      ((dayRows days).map fun row => row.2.revenueMinor).sum ∧
    (mergedItems localeCompare days).Pairwise (fun a b => b.quantity < a.quantity ∨
      a.quantity = b.quantity ∧ (localeCompare a.name b.name).isLE) ∧
    ∀ days', SameSales days days' → ∀ id quantity revenueMinor,
      (∃ t ∈ mergedItems localeCompare days,
        t.menuItemId = id ∧ t.quantity = quantity ∧ t.revenueMinor = revenueMinor) ↔
      ∃ t ∈ mergedItems localeCompare days',
        t.menuItemId = id ∧ t.quantity = quantity ∧ t.revenueMinor = revenueMinor := by
  have hperm := mergedItems_perm localeCompare days
  refine ⟨mergeTopItems_eq localeCompare days, ?_, fun id => ?_, fun t ht => ?_, ?_, ?_, ?_, ?_⟩
  · rw [(hperm.map _).nodup_iff, List.map_map]
    exact nodup_ids days
  · rw [(hperm.map _).mem_iff, ← mem_ids, List.map_map]
    rfl
  · obtain ⟨running, hmem, rfl⟩ := List.mem_map.mp (hperm.mem_iff.mp ht)
    have h := amounts_of_mem hmem
    rw [amountsOf, sum_pairs] at h
    exact Prod.ext_iff.mp h
  · rw [(hperm.map _).sum_eq, List.map_map]
    exact sum_quantity days
  · rw [(hperm.map _).sum_eq, List.map_map]
    exact sum_revenueMinor days
  · refine (pairwise_mergedItems localeCompare days).imp fun hab => ?_
    simpa [soldFirst] using hab
  · intro days' hsame id quantity revenueMinor
    have hrow : (∃ row ∈ dayRows days, row.2.menuItemId = id) ↔
        ∃ row ∈ dayRows days', row.2.menuItemId = id :=
      exists_congr fun row => and_congr_left fun _ => (dayRows_perm hsame).mem_iff
    rw [exists_merged_iff, exists_merged_iff, hrow, amountsOf_congr hsame]

/-- A steady seller beats a spike of another item, cut to one entry. -/
theorem merge_exact_steady : ∃ days : List DayItems,
    mergeTopItems compare days 1 = [⟨2, "Steady", 12, 120⟩] ∧
    mergeTopItems compare days 1 = (mergedItems compare days).take 1 := by
  refine ⟨[⟨"2026-06-01", [⟨1, "Spike", 10, 100⟩, ⟨2, "Steady", 6, 60⟩]⟩,
    ⟨"2026-06-02", [⟨2, "Steady", 6, 60⟩]⟩], ?_, (merge_exact compare _).1 1⟩
  have htotals : mergeTotals [⟨"2026-06-01", [⟨1, "Spike", 10, 100⟩, ⟨2, "Steady", 6, 60⟩]⟩,
      ⟨"2026-06-02", [⟨2, "Steady", 6, 60⟩]⟩] =
        [⟨⟨1, "Spike", 10, 100⟩, "2026-06-01"⟩, ⟨⟨2, "Steady", 12, 120⟩, "2026-06-02"⟩] := by
    decide
  rw [mergeTopItems, htotals]
  simp [List.mergeSort, List.MergeSort.Internal.splitInTwo, soldFirst]

end order

end CafePos
