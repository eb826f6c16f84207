import CafePos.Reporting
import CafePos.Money

/-!
# The sales views agree

The revenue of a day comes from the payments, the hourly view from the orders and the
leaderboard from the lines. They agree because of what every committed state satisfies
(`Settled`): an order that took money has one `SUCCEEDED` payment, for its total, which is
the sum of its lines.
-/

namespace CafePos

open Interleaving Relational

variable {cfg : Config} {db : Db}

/-! ## Who took money -/

theorem Db.settled_iff {id : Id} : db.settled id = true ↔ ∃ pid, db.PaidBy id pid := by
  rw [Db.settled, Bool.not_eq_true', ← Bool.not_eq_true, List.isEmpty_iff, Table.select_eq_nil]
  push Not
  constructor
  · rintro ⟨pid, p, hp, hcond⟩
    simp only [ne_eq, Bool.not_eq_false, Bool.and_eq_true, beq_iff_eq] at hcond
    exact ⟨pid, p, hp, hcond.1, hcond.2⟩
  · rintro ⟨pid, p, hp, ho, hs⟩
    exact ⟨pid, p, hp, by simp [ho, hs]⟩

theorem Db.isOn_iff {day : String} {id : Id} :
    db.isOn day id = true ↔ ∃ o, db.orders.get id = some o ∧ o.businessDay = day := by
  simp [Db.isOn, Option.any_eq_true]

theorem Db.mem_ordersOn {day : String} {e : Id × Order} :
    e ∈ db.ordersOn day ↔ db.orders.get e.1 = some e.2 ∧ e.2.businessDay = day := by
  rw [Db.ordersOn, Table.mem_select, beq_iff_eq]

theorem Db.mem_takingsOn {day : String} {e : Id × Payment} :
    e ∈ db.takingsOn day ↔ db.payments.get e.1 = some e.2 ∧ e.2.status = .succeeded ∧
      db.isOn day e.2.orderId = true := by
  rw [Db.takingsOn, Table.mem_select, Bool.and_eq_true, beq_iff_eq]

/-- The ids of the orders that took money on a day. -/
theorem Db.mem_settledOn {day : String} {id : Id} :
    id ∈ (db.settledOn day).map Prod.fst ↔ db.isOn day id = true ∧ db.settled id = true := by
  rw [List.mem_map, Db.isOn_iff]
  constructor
  · rintro ⟨e, he, rfl⟩
    obtain ⟨hon, hset⟩ := List.mem_filter.mp he
    exact ⟨⟨e.2, Db.mem_ordersOn.mp hon⟩, hset⟩
  · rintro ⟨⟨o, ho, hday⟩, hset⟩
    exact ⟨(id, o), List.mem_filter.mpr ⟨Db.mem_ordersOn.mpr ⟨ho, hday⟩, hset⟩, rfl⟩

theorem Db.nodup_settledOn (day : String) : ((db.settledOn day).map Prod.fst).Nodup :=
  (Table.nodup_select _ _).sublist (List.filter_sublist.map _)

/-- The payments that took a day's money are for the orders that took it, one each. -/
theorem Settled.takings_perm (hs : Settled db) (day : String) :
    ((db.takingsOn day).map fun e => e.2.orderId).Perm ((db.settledOn day).map Prod.fst) := by
  have hnodup : ((db.takingsOn day).map fun e => e.2.orderId).Nodup := by
    refine List.Nodup.map_on ?_ (List.Nodup.of_map _ (Table.nodup_select _ _))
    rintro ⟨pid, p⟩ he ⟨pid', p'⟩ he' ho
    obtain ⟨hp, hsucc, -⟩ := Db.mem_takingsOn.mp he
    obtain ⟨hp', hsucc', -⟩ := Db.mem_takingsOn.mp he'
    obtain rfl := hs.once hp hp' ho hsucc hsucc'
    obtain rfl := Option.some.inj (hp.symm.trans hp')
    rfl
  refine (List.perm_ext_iff_of_nodup hnodup (Db.nodup_settledOn day)).mpr fun id => ?_
  rw [Db.mem_settledOn, Db.settled_iff, List.mem_map]
  constructor
  · rintro ⟨⟨pid, p⟩, he, rfl⟩
    obtain ⟨hp, hsucc, hon⟩ := Db.mem_takingsOn.mp he
    exact ⟨hon, pid, p, hp, rfl, hsucc⟩
  · rintro ⟨hon, pid, p, hp, rfl, hsucc⟩
    exact ⟨(pid, p), Db.mem_takingsOn.mpr ⟨hp, hsucc, hon⟩, rfl⟩

/-! ## Revenue -/

/-- The revenue of a day as its orders have it. -/
def Db.totalOn (db : Db) (day : String) : ℤ :=
  ((db.settledOn day).map fun e => e.2.totalMinor).sum

/-- An order's total, by id. -/
def Db.totalOf (db : Db) (id : Id) : ℤ := ((db.orders.get id).map Order.totalMinor).getD 0

theorem Db.totalOn_eq (day : String) :
    db.totalOn day = (((db.settledOn day).map Prod.fst).map db.totalOf).sum := by
  rw [Db.totalOn, List.map_map]
  refine congrArg List.sum (List.map_congr_left fun e he => ?_)
  obtain ⟨ho, -⟩ := Db.mem_ordersOn.mp (List.mem_of_mem_filter he)
  simp [Db.totalOf, ho]

/-- What the payments took is what the orders cost. -/
theorem Settled.sum_takings (hs : Settled db) (day : String) :
    ((db.takingsOn day).map fun e => e.2.amountMinor).sum = db.totalOn day := by
  rw [Db.totalOn_eq, ← ((hs.takings_perm day).map db.totalOf).sum_eq, List.map_map]
  refine congrArg List.sum (List.map_congr_left fun e he => ?_)
  obtain ⟨o, ho, hfits⟩ := hs.payment (Db.mem_takingsOn.mp he).1
  simp [Db.totalOf, ho, hfits.amount]

/-- What the lines sold for is what the orders cost. -/
theorem Settled.sum_sold (hs : Settled db) (day : String) :
    ((db.soldOn day).map OrderItem.lineTotalMinor).sum = db.totalOn day := by
  have hfibers : db.soldOn day =
      db.orderItems.filter fun i => i.orderId ∈ (db.settledOn day).map Prod.fst := by
    refine List.filter_congr fun i _ => ?_
    rw [Bool.eq_iff_iff, Bool.and_eq_true, decide_eq_true_iff, Db.mem_settledOn]
  rw [hfibers, ← sum_fibers (Db.nodup_settledOn day), Db.totalOn_eq]
  refine congrArg List.sum (List.map_congr_left fun id hid => ?_)
  obtain ⟨o, ho, -⟩ := Db.isOn_iff.mp (Db.mem_settledOn.mp hid).1
  simp only [Db.totalOf, ho, Option.map_some, Option.getD_some, hs.total ho, Db.lineTotal,
    Db.itemsOf]
  rfl

/-! ## The row of a day -/

theorem sum_bucketRevenue (revenue : List (Option PaymentMethod × ℤ)) :
    (bucketRevenue revenue).values.sum = (revenue.map Prod.snd).sum := by
  have hfold : ∀ m : Table String ℤ,
      (revenue.foldl (fun m e => addTo m ((e.1.map PaymentMethod.text).getD unknownMethod) e.2)
        m).values.sum = m.values.sum + (revenue.map Prod.snd).sum := by
    induction revenue with
    | nil => simp
    | cons e revenue ih =>
      intro m
      rw [List.foldl_cons, ih, addTo, Table.sum_values_put, List.map_cons, List.sum_cons]
      omega
  have hempty : (∅ : Table String ℤ).values.sum = 0 := rfl
  rw [bucketRevenue, hfold, hempty, zero_add]

/-- Summing over all groups. -/
theorem sum_all_groups {α κ : Type} [DecidableEq κ] (key : α → κ) (f : α → ℤ) (rows : List α) :
    ((groupBy key rows).map fun g => (g.2.map f).sum).sum = (rows.map f).sum := by
  simpa using sum_groupBy key f rows fun _ => true

theorem Settled.revenueMinor (hs : Settled db) (localeCompare : String → String → Ordering)
    (day : String) :
    (buildRollupRow localeCompare day (aggregateDay db day)).revenueMinor = db.totalOn day := by
  rw [buildRollupRow, sum_bucketRevenue, aggregateDay, List.map_map, ← hs.sum_takings]
  exact sum_all_groups _ (fun e : Id × Payment => e.2.amountMinor) _

theorem Settled.sum_topItems (hs : Settled db) (localeCompare : String → String → Ordering)
    (day : String) : ((buildRollupRow localeCompare day (aggregateDay db day)).topItems.map
      RollupItem.revenueMinor).sum = db.totalOn day := by
  rw [buildRollupRow, ((List.mergeSort_perm _ _).map _).sum_eq, aggregateDay, List.map_map,
    ← hs.sum_sold]
  exact sum_all_groups _ OrderItem.lineTotalMinor _

/-! ## The hours of a day -/

theorem length_hh24 (hour : Fin 24) : (hh24 hour).toList.length = 2 := by
  simp [hh24]

/-- A label names its business day. -/
theorem hourLabel_day {day day' : String} {hour hour' : Fin 24}
    (h : hourLabel day hour = hourLabel day' hour') : day = day' := by
  have hlist : day.toList ++ ('T' :: (hh24 hour).toList) =
      day'.toList ++ ('T' :: (hh24 hour').toList) := by
    simpa [hourLabel] using congrArg String.toList h
  have hday := (List.append_inj' hlist (by simp only [List.length_cons, length_hh24])).1
  exact String.toList_inj.mp hday

/-- The rows of the hourly view that are labelled with a day of the range. -/
theorem hourly_rows (createdAt : Id → Instant) (wallClock : Instant → Fin 24)
    {first last day : String} (hfirst : first ≤ day) (hlast : day ≤ last) :
    ((db.orders.select fun id o => first ≤ o.businessDay && o.businessDay ≤ last &&
      db.settled id).filter fun e =>
        decide (∃ hour, hourLabel e.2.businessDay (wallClock (createdAt e.1)) =
          hourLabel day hour)) = db.settledOn day := by
  have hlabel : ∀ e : Id × Order, (∃ hour, hourLabel e.2.businessDay
      (wallClock (createdAt e.1)) = hourLabel day hour) ↔ e.2.businessDay = day := by
    intro e
    constructor
    · rintro ⟨hour, h⟩
      exact hourLabel_day h
    · intro h
      exact ⟨_, by rw [h]⟩
  simp only [Db.settledOn, Db.ordersOn, Table.select, List.filter_map, List.filter_filter, hlabel]
  refine congrArg (List.map _) (List.filter_congr fun e _ => ?_)
  by_cases h : e.2.businessDay = day
  · simp [h, hfirst, hlast]
  · simp [h]

/-- Summing over the hours of a day is summing over the orders that took its money. -/
theorem sum_hours {M : Type} [AddCommMonoid M] (createdAt : Id → Instant)
    (wallClock : Instant → Fin 24) {first last day : String} (hfirst : first ≤ day)
    (hlast : day ≤ last) (f : SalesBucket → M) (g : Id × Order → M)
    (hf : ∀ label (rows : List (Id × Order)) avg, f ⟨label, (rows.map fun e => e.2.totalMinor).sum,
      rows.length, avg⟩ = (rows.map g).sum) :
    (((hourlyBuckets createdAt wallClock db first last).filter fun b => b.isOf day).map f).sum =
      ((db.settledOn day).map g).sum := by
  rw [← hourly_rows createdAt wallClock hfirst hlast, ← sum_groupBy _ g _ fun label =>
    decide (∃ hour, label = hourLabel day hour)]
  simp only [hourlyBuckets, List.filter_map, List.map_map]
  refine (((List.mergeSort_perm _ _).filter _).map _).sum_eq.trans ?_
  exact congrArg List.sum (List.map_congr_left fun g _ => hf _ _ _)

/-! ## The views -/

/-- The orders of a day in a paid status. -/
def Db.paidOn (db : Db) (day : String) : List (Id × Order) :=
  (db.ordersOn day).filter fun e => e.2.status ∈ paidStatuses

/-- An order took money when its status says so. -/
theorem Settled.settled_eq (hs : Settled db) {id : Id} {o : Order}
    (ho : db.orders.get id = some o) : db.settled id = decide (o.status ∈ paidStatuses) := by
  rw [Bool.eq_iff_iff, decide_eq_true_iff, mem_paidStatuses, Db.settled_iff]
  constructor
  · rintro ⟨pid, p, hp, rfl, hsucc⟩
    obtain ⟨o', ho', hfits⟩ := hs.payment hp
    obtain rfl := Option.some.inj (ho.symm.trans ho')
    exact hfits.settled hsucc
  · intro hset
    obtain ⟨pid, p, hp, hpo, hsucc⟩ := hs.paid ho hset
    exact ⟨pid, p, hp, hpo, hsucc⟩

theorem Settled.settledOn_eq (hs : Settled db) (day : String) :
    db.settledOn day = db.paidOn day :=
  List.filter_congr fun _ he => hs.settled_eq (Db.mem_ordersOn.mp he).1

/-- For every day of a range: the revenue of the day's row, its buckets by method, the totals
of the orders with a `SUCCEEDED` payment, the leaderboard and the hours of the day are the same
money; and the orders the row counts are those of the hours, and those in a paid status. -/
theorem sales_views_agree {w : PosWorld} (h : Reachable cfg w)
    (localeCompare : String → String → Ordering) (createdAt : Id → Instant)
    (wallClock : Instant → Fin 24) (first last day : String) (hfirst : first ≤ day)
    (hlast : day ≤ last) {row : RollupRow} {hours : List SalesBucket}
    (hrow : row = buildRollupRow localeCompare day (aggregateDay w.shared.db day))
    (hhours : hours = (hourlyBuckets createdAt wallClock w.shared.db first last).filter
      fun b => b.isOf day) :
    row.revenueMinor = row.revenueByMethod.values.sum ∧
    row.revenueMinor = w.shared.db.totalOn day ∧
    row.revenueMinor = (row.topItems.map RollupItem.revenueMinor).sum ∧
    row.revenueMinor = (hours.map SalesBucket.revenueMinor).sum ∧
    row.ordersSettled = (hours.map SalesBucket.ordersSettled).sum ∧
    row.ordersSettled = (w.shared.db.paidOn day).length := by
  have hs : Settled w.shared.db := h.sound.inv.1
  subst hrow hhours
  refine ⟨rfl, hs.revenueMinor localeCompare day, ?_, ?_, ?_, ?_⟩
  · rw [hs.revenueMinor, hs.sum_topItems]
  · rw [hs.revenueMinor, sum_hours createdAt wallClock hfirst hlast _
      (fun e => e.2.totalMinor) fun _ _ _ => rfl]
    rfl
  · rw [sum_hours createdAt wallClock hfirst hlast SalesBucket.ordersSettled (fun _ => 1)
      fun _ rows _ => by simp]
    simp [buildRollupRow, aggregateDay]
  · rw [← hs.settledOn_eq]
    rfl

theorem sales_views_agree_paid : ∃ w, Reachable cornerCafe w ∧
    (buildRollupRow compare "2026-01-01" (aggregateDay w.shared.db "2026-01-01")).revenueMinor =
      9000 ∧
    (((hourlyBuckets (fun _ => 5) (fun _ => 9) w.shared.db "2026-01-01" "2026-01-31").filter
      fun b => b.isOf "2026-01-01").map SalesBucket.revenueMinor).sum = 9000 := by
  obtain ⟨w, hw, htotal⟩ := Reachable.exists_of_runIf cornerCafe (takeOrder ++ payCash 1 200)
    (fun w => w.shared.db.totalOn "2026-01-01" = 9000) (by decide)
  obtain ⟨-, hrevenue, -, hhours, -⟩ := sales_views_agree hw compare (fun _ => 5) (fun _ => 9)
    "2026-01-01" "2026-01-31" "2026-01-01" (by decide) (by decide) rfl rfl
  exact ⟨w, hw, hrevenue.trans htotal, (hhours.symm.trans hrevenue).trans htotal⟩

end CafePos
