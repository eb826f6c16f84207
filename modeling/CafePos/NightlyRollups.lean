import CafePos.Corrections
import CafePos.NightlyTargets

/-!
# The nightly rollup

`DailyRollupService` (`reporting/rollup/daily-rollup.service.ts`) stores one finalized row for
every business day, and `dayTotals` shows a stored row in place of the live tables. A `Nightly` is
a run of the system in which `rollUpYesterday` runs every night, a day at a time, while the calls
go on.

* `daysNeedingRoll` — the days that a night rolls besides its target: within `REROLL_DAYS` every
  day that traded, before that only those without a finalized row;
* `Nightly.Timely` — a change lands on a finalized day that is still to be rolled again;
* `Nights.upToDate` — a finalized row that is no longer what the tables say is still to be
  rolled again;
* `rollups_equal_live` — after a night in which no day failed, there is none;
* `rollups_equal_live_parked` — an order parked on a day that is rolled for the last time three
  nights later, and paid for after that.
-/

namespace CafePos

open Interleaving Relational

variable {cfg : Config}

/-! ## What a night has to roll -/

/-- `CATCH_UP_DAYS`. -/
def catchUpDays : ℕ := 30

/-- `REROLL_DAYS`. -/
def rerollDays : ℕ := 3

/-- The day carries a finalized row. -/
def isFinalized (rollups : Table String DailySalesRollup) (day : String) : Bool :=
  (rollups.get day).any fun r => r.finalizedAt.isSome

/-- `daysNeedingRoll`. -/
def daysNeedingRoll (rollups : Table String DailySalesRollup) (db : Db) (target : String) :
    List String :=
  ((db.orders.select fun _ o => decide (minusDays target catchUpDays ≤ o.businessDay) &&
      decide (o.businessDay < target) &&
      (decide (minusDays target rerollDays ≤ o.businessDay) ||
        !isFinalized rollups o.businessDay)).map
    fun e => e.2.businessDay).dedup.insertionSort (· ≤ ·)

/-- The days that a night rolls, finalized or not: its target, and what `daysNeedingRoll` selects
of the days that traded. -/
def inWindow (target day : String) : Bool :=
  day == target || (decide (minusDays target catchUpDays ≤ day) && decide (day < target) &&
    decide (minusDays target rerollDays ≤ day))

/-- The day has orders. -/
def Db.Traded (db : Db) (day : String) : Prop :=
  ∃ id o, db.orders.get id = some o ∧ o.businessDay = day

theorem mem_daysNeedingRoll (rollups : Table String DailySalesRollup) {db : Db}
    {target day : String} (htraded : db.Traded day) (hwindow : inWindow target day = true) :
    day ∈ target :: daysNeedingRoll rollups db target := by
  obtain ⟨id, o, ho, rfl⟩ := htraded
  rw [inWindow, Bool.or_eq_true, beq_iff_eq, Bool.and_eq_true] at hwindow
  rcases hwindow with rfl | ⟨hcatch, hreroll⟩
  · exact List.mem_cons_self
  · refine List.mem_cons_of_mem _ ((List.mem_insertionSort _).mpr (List.mem_dedup.mpr ?_))
    refine List.mem_map.mpr ⟨(id, o), Table.mem_select.mpr ⟨ho, ?_⟩, rfl⟩
    rw [hcatch, hreroll]
    rfl

/-! ## One night after the other -/

/-- `RollupSummary`. -/
structure RollupSummary where
  rolled : ℕ
  failed : ℕ
  deriving DecidableEq

/-- `rollDays`, under way. -/
structure RollDays where
  /-- days that are still to be aggregated -/
  days : List String
  /-- what the day being rolled came to, on its way to the table -/
  row : Option RollupRow
  summary : RollupSummary

namespace RollDays

/-- The day that is being rolled. -/
def day (run : RollDays) : Option String :=
  match run.row with
  | some row => some row.businessDay
  | none => run.days.head?

/-- `rollDay` throws: the day is counted as failed, and the next one is rolled. -/
def fail (run : RollDays) : RollDays where
  days := if run.row.isSome then run.days else run.days.tail
  row := none
  summary := { run.summary with failed := run.summary.failed + 1 }

/-- The day that fails is the only one that is given up. -/
theorem mem_days_fail (run : RollDays) {failed day : String} (hfailed : run.day = some failed)
    (hday : day ∈ run.days) : day = failed ∨ day ∈ run.fail.days := by
  obtain ⟨days, row, summary⟩ := run
  cases row with
  | some row => exact Or.inr hday
  | none =>
    cases days with
    | nil => cases hday
    | cons first days =>
      obtain rfl := Option.some.inj hfailed
      exact List.mem_cons.mp hday

end RollDays

/-- `daily_sales_rollups`, and the job that writes it. -/
structure Rollups where
  stored : Table String DailySalesRollup
  /-- runs that have ended -/
  night : ℕ
  /-- the run of this night, once it has begun -/
  run : Option RollDays

/-- What the job does. -/
inductive RollupAct where
  /-- `rollUpYesterday` begins -/
  | rollUpYesterday
  /-- `rollDay` up to its upsert, at an instant, with what `aggregateDay` returned -/
  | aggregate (now : Instant) (parts : RollupParts)
  /-- the upsert -/
  | upsert (now : Instant)
  /-- `rollDay` throws -/
  | throws
  /-- `rollUpYesterday` returns -/
  | finish

instance (db : Db) (day : String) (parts : RollupParts) : Decidable (CouldReturn db day parts) :=
  decidable_of_iff (parts.statusCounts.Perm (aggregateDay db day).statusCounts ∧
    parts.revenueByMethod.Perm (aggregateDay db day).revenueByMethod ∧
    parts.refundsMinor = (aggregateDay db day).refundsMinor ∧
    parts.vatMinor = (aggregateDay db day).vatMinor ∧
    parts.ordersSettled = (aggregateDay db day).ordersSettled ∧
    parts.items.Perm (aggregateDay db day).items)
    ⟨fun h => ⟨h.1, h.2.1, h.2.2.1, h.2.2.2.1, h.2.2.2.2.1, h.2.2.2.2.2⟩,
      fun h => ⟨h.1, h.2, h.3, h.4, h.5, h.6⟩⟩

/-- The target of a night, when the first run is at 20:00 UTC on day `first` since 1970. -/
def targetOf (cfg : Config) (first night : ℕ) : String :=
  cfg.businessDayOf (cronRun (first + night) - 24 * 60 * 60 * 1000)

section act

variable (cfg : Config) (localeCompare : String → String → Ordering) (first : ℕ)

/-- What the tables say of a day. -/
def liveRow (db : Db) (day : String) : RollupRow :=
  buildRollupRow localeCompare day (aggregateDay db day)

namespace Rollups

/-- The day that is being rolled. -/
def day (r : Rollups) : Option String := r.run.bind RollDays.day

/-- `rollDay` refuses a day that has not finished trading. -/
def refuses (r : Rollups) (now : Instant) : Bool := r.day.any fun day => cfg.businessDayOf now ≤ day

/-- The day on which `rollDay` throws. -/
def failing (r : Rollups) : RollupAct → Option String
  | .throws => r.day
  | .aggregate now _ => if r.refuses cfg now then r.day else none
  | _ => none

/-- One action of the job, and what the tables are. -/
def act (db : Db) (r : Rollups) : RollupAct → Option Rollups
  | .rollUpYesterday =>
    match r.run with
    | none =>
      let target := targetOf cfg first r.night
      some { r with run := some ⟨target :: daysNeedingRoll r.stored db target, none, ⟨0, 0⟩⟩ }
    | some _ => none
  | .aggregate now parts =>
    match r.run with
    | some ⟨day :: days, none, summary⟩ =>
      if r.refuses cfg now then
        some { r with run := some (RollDays.fail ⟨day :: days, none, summary⟩) }
      else if CouldReturn db day parts then
        some { r with run := some ⟨days, some (buildRollupRow localeCompare day parts), summary⟩ }
      else none
    | _ => none
  | .upsert now =>
    match r.run with
    | some ⟨days, some row, summary⟩ => some { r with
        stored := r.stored.put row.businessDay ⟨row, some now⟩
        run := some ⟨days, none, { summary with rolled := summary.rolled + 1 }⟩ }
    | _ => none
  | .throws =>
    match r.run with
    | some run => if run.day.isSome then some { r with run := some run.fail } else none
    | none => none
  | .finish =>
    match r.run with
    | some ⟨[], none, _⟩ => some { r with run := none, night := r.night + 1 }
    | _ => none

/-- The day is still to be aggregated: by the run that is going on, else by the next one. -/
inductive Ahead (r : Rollups) (day : String) : Prop
  | tonight {run : RollDays} : r.run = some run → day ∈ run.days → Ahead r day
  | nextNight : r.run = none → inWindow (targetOf cfg first r.night) day = true → Ahead r day

/-- The day has a finalized row, or one that is on its way to the table. -/
inductive Closed (r : Rollups) (day : String) : Prop
  | finalized : isFinalized r.stored day = true → Closed r day
  | aggregated {run : RollDays} {row : RollupRow} : r.run = some run → run.row = some row →
      row.businessDay = day → Closed r day

end Rollups

/-- The system with its nightly rollup. -/
structure Nightly where
  world : PosWorld
  rollups : Rollups

/-- One action of the system with its nightly rollup. -/
inductive NightlyAct where
  | pos (a : PosAct)
  | rollup (a : RollupAct)

namespace Nightly

/-- Before the first call and the first night. -/
def start : Nightly := ⟨opening, ⟨∅, 0, none⟩⟩

/-- One action. -/
def act (v : Nightly) : NightlyAct → Option Nightly
  | .pos a => (v.world.act (system cfg) a).map fun w => ⟨w, v.rollups⟩
  | .rollup a => (v.rollups.act cfg localeCompare first v.world.shared.db a).map fun r =>
      ⟨v.world, r⟩

/-- A change of the tables lands on a closed day only if the day is still to be aggregated, and a
day that fails is not finalized, or the next night rolls it although it is. -/
inductive Timely (v : Nightly) : NightlyAct → Prop
  | pos {a : PosAct} : (∀ w day, v.world.act (system cfg) a = some w → v.rollups.Closed day →
      ¬ (liveRow localeCompare w.shared.db day).SameSales
        (liveRow localeCompare v.world.shared.db day) →
      v.rollups.Ahead cfg first day) → Timely v (.pos a)
  | rollup {a : RollupAct} : (∀ day, v.rollups.failing cfg a = some day →
      isFinalized v.rollups.stored day = true →
      inWindow (targetOf cfg first (v.rollups.night + 1)) day = true) → Timely v (.rollup a)

end Nightly

end act

/-- The nights that permitted actions lead to. -/
inductive Nights (cfg : Config) (localeCompare : String → String → Ordering) (first : ℕ)
    (P : Nightly → NightlyAct → Prop) : Nightly → Prop
  | start : Nights cfg localeCompare first P .start
  | act {v v' : Nightly} {a : NightlyAct} : Nights cfg localeCompare first P v → P v a →
      v.act cfg localeCompare first a = some v' → Nights cfg localeCompare first P v'

/-! ## What stays as it is -/

namespace RollupRow

theorem SameSales.refl (r : RollupRow) : r.SameSales r :=
  ⟨⟨rfl, rfl, rfl, rfl, rfl, rfl, rfl, fun _ => rfl, rfl, rfl⟩, List.Perm.refl _⟩

theorem SameSales.trans {r r' r'' : RollupRow} (h : r.SameSales r') (h' : r'.SameSales r'') :
    r.SameSales r'' :=
  ⟨h.1.trans h'.1, h.2.trans h'.2⟩

theorem SameSales.symm {r r' : RollupRow} (h : r.SameSales r') : r'.SameSales r :=
  ⟨h.1.symm, h.2.symm⟩

end RollupRow

/-- Whatever the aggregation returns, the row is that of the tables. -/
theorem CouldReturn.sameSales {db : Db} {day : String} {parts : RollupParts}
    (h : CouldReturn db day parts) (localeCompare : String → String → Ordering) :
    (buildRollupRow localeCompare day parts).SameSales (liveRow localeCompare db day) :=
  ⟨h.sameTotals localeCompare, (List.mergeSort_perm _ _).trans
    (h.items.trans (List.mergeSort_perm _ _).symm)⟩

theorem Db.Grows.traded {db db' : Db} (h : db.Grows db') {day : String} (ht : db.Traded day) :
    db'.Traded day := by
  obtain ⟨id, o, ho, hday⟩ := ht
  obtain ⟨o', ho', hevolves⟩ := h.orders id o ho
  exact ⟨id, o', ho', hevolves.businessDay.trans hday⟩

/-- A day without orders is empty. -/
theorem aggregateDay_of_not_traded {db : Db} {day : String} (h : ¬ db.Traded day) :
    aggregateDay db day = ⟨[], [], 0, 0, 0, []⟩ := by
  have hon : ∀ id, db.isOn day id = false := by
    intro id
    refine Bool.eq_false_iff.mpr fun hon => h ?_
    obtain ⟨o, ho, hday⟩ := Db.isOn_iff.mp hon
    exact ⟨id, o, ho, hday⟩
  have horders : db.ordersOn day = [] := by
    refine Table.select_eq_nil.mpr fun id o ho => ?_
    exact beq_eq_false_iff_ne.mpr fun hday => h ⟨id, o, ho, hday⟩
  have htakings : db.takingsOn day = [] := by
    refine Table.select_eq_nil.mpr fun id p _ => ?_
    rw [hon, Bool.and_false]
  have hrefunds : db.refundsOn day = [] := by
    refine List.filter_eq_nil_iff.mpr fun r _ => ?_
    simp [hon]
  have hsold : db.soldOn day = [] := by
    refine List.filter_eq_nil_iff.mpr fun i _ => ?_
    simp [hon]
  have hsettled : db.settledOn day = [] := by
    rw [Db.settledOn, horders]
    rfl
  rw [aggregateDay, horders, htakings, hrefunds, hsettled, hsold]
  rfl

section step

variable {localeCompare : String → String → Ordering} {first : ℕ}

/-- What an action of the job does. -/
inductive Rollups.Step (cfg : Config) (localeCompare : String → String → Ordering) (first : ℕ)
    (db : Db) (r : Rollups) : RollupAct → Rollups → Prop
  | rollUpYesterday : r.run = none → Step cfg localeCompare first db r .rollUpYesterday
      { r with run := some ⟨targetOf cfg first r.night ::
        daysNeedingRoll r.stored db (targetOf cfg first r.night), none, ⟨0, 0⟩⟩ }
  | aggregate {now : Instant} {parts : RollupParts} {day : String} {days : List String}
      {summary : RollupSummary} : r.run = some ⟨day :: days, none, summary⟩ →
      CouldReturn db day parts → Step cfg localeCompare first db r (.aggregate now parts)
        { r with run := some ⟨days, some (buildRollupRow localeCompare day parts), summary⟩ }
  | upsert {now : Instant} {days : List String} {row : RollupRow} {summary : RollupSummary} :
      r.run = some ⟨days, some row, summary⟩ → Step cfg localeCompare first db r (.upsert now)
        { r with
          stored := r.stored.put row.businessDay ⟨row, some now⟩
          run := some ⟨days, none, { summary with rolled := summary.rolled + 1 }⟩ }
  | fails {a : RollupAct} {run : RollDays} {day : String} : r.run = some run →
      run.day = some day → r.failing cfg a = some day →
      Step cfg localeCompare first db r a { r with run := some run.fail }
  | finish {summary : RollupSummary} : r.run = some ⟨[], none, summary⟩ →
      Step cfg localeCompare first db r .finish { r with run := none, night := r.night + 1 }

theorem Rollups.step {db : Db} {r r' : Rollups} {a : RollupAct}
    (h : r.act cfg localeCompare first db a = some r') :
    Step cfg localeCompare first db r a r' := by
  cases a with
  | rollUpYesterday =>
    simp only [act] at h
    split at h
    · rename_i hrun
      obtain rfl := Option.some.inj h
      exact .rollUpYesterday hrun
    · cases h
  | aggregate now parts =>
    simp only [act] at h
    split at h
    · rename_i day days summary hrun
      have hday : r.day = some day := by
        rw [Rollups.day, hrun]
        rfl
      split at h
      · rename_i hrefuses
        obtain rfl := Option.some.inj h
        refine .fails hrun rfl ?_
        rw [failing, if_pos hrefuses, hday]
      · split at h
        · rename_i hcould
          obtain rfl := Option.some.inj h
          exact .aggregate hrun hcould
        · cases h
    · cases h
  | upsert now =>
    simp only [act] at h
    split at h
    · rename_i hrun
      obtain rfl := Option.some.inj h
      exact .upsert hrun
    · cases h
  | throws =>
    simp only [act] at h
    split at h
    · rename_i run hrun
      split at h
      · rename_i hsome
        obtain ⟨day, hday⟩ := Option.isSome_iff_exists.mp hsome
        obtain rfl := Option.some.inj h
        refine .fails hrun hday ?_
        rw [failing, Rollups.day, hrun]
        exact hday
      · cases h
    · cases h
  | finish =>
    simp only [act] at h
    split at h
    · rename_i hrun
      obtain rfl := Option.some.inj h
      exact .finish hrun
    · cases h

theorem Nights.reachable {P : Nightly → NightlyAct → Prop} {v : Nightly}
    (h : Nights cfg localeCompare first P v) : Reachable cfg v.world := by
  induction h with
  | start => exact .refl
  | @act v v' a _ _ hact ih =>
    cases a with
    | pos a =>
      obtain ⟨w, hw, rfl⟩ := Option.map_eq_some_iff.mp hact
      exact ih.tail (Runs.allows_all _ _) hw
    | rollup a =>
      obtain ⟨r, -, rfl⟩ := Option.map_eq_some_iff.mp hact
      exact ih

/-! ## What is still to be rolled -/

/-- The day will be rolled again. -/
inductive Rollups.Awaits (cfg : Config) (first : ℕ) (r : Rollups) (day : String) : Prop
  | ahead : r.Ahead cfg first day → Awaits cfg first r day
  /-- it has been aggregated -/
  | upsert {run : RollDays} {row : RollupRow} : r.run = some run → run.row = some row →
      row.businessDay = day → Awaits cfg first r day
  /-- a day of this night has failed, and the next night rolls it -/
  | retry {run : RollDays} : r.run = some run → run.summary.failed ≠ 0 →
      inWindow (targetOf cfg first (r.night + 1)) day = true → Awaits cfg first r day

theorem Rollups.Awaits.of_none {r : Rollups} {day : String} (h : r.Awaits cfg first day)
    (hrun : r.run = none) : inWindow (targetOf cfg first r.night) day = true := by
  cases h with
  | ahead hahead =>
    cases hahead with
    | tonight hrun' => rw [hrun] at hrun'; cases hrun'
    | nextNight _ hwindow => exact hwindow
  | upsert hrun' | retry hrun' => rw [hrun] at hrun'; cases hrun'

theorem Rollups.Awaits.of_some {r : Rollups} {day : String} (h : r.Awaits cfg first day)
    {run : RollDays} (hrun : r.run = some run) :
    day ∈ run.days ∨ (∃ row, run.row = some row ∧ row.businessDay = day) ∨
      (run.summary.failed ≠ 0 ∧ inWindow (targetOf cfg first (r.night + 1)) day = true) := by
  cases h with
  | ahead hahead =>
    cases hahead with
    | tonight hrun' hmem =>
      obtain rfl := Option.some.inj (hrun.symm.trans hrun')
      exact Or.inl hmem
    | nextNight hnone => rw [hrun] at hnone; cases hnone
  | upsert hrun' hrow hday =>
    obtain rfl := Option.some.inj (hrun.symm.trans hrun')
    exact Or.inr (Or.inl ⟨_, hrow, hday⟩)
  | retry hrun' hfailed hwindow =>
    obtain rfl := Option.some.inj (hrun.symm.trans hrun')
    exact Or.inr (Or.inr ⟨hfailed, hwindow⟩)

/-- A row that is no longer what the tables say is of a day that will be rolled again. -/
structure Rollups.UpToDate (cfg : Config) (localeCompare : String → String → Ordering)
    (first : ℕ) (db : Db) (r : Rollups) : Prop where
  stored : ∀ day s, r.stored.get day = some s → s.finalizedAt.isSome = true →
    ¬ s.row.SameSales (liveRow localeCompare db day) →
      db.Traded day ∧ r.Awaits cfg first day
  row : ∀ run row, r.run = some run → run.row = some row →
    ¬ row.SameSales (liveRow localeCompare db row.businessDay) →
      db.Traded row.businessDay ∧ row.businessDay ∈ run.days

namespace Rollups.UpToDate

variable {db : Db} {r : Rollups}

/-- The tables change. -/
theorem grows (h : r.UpToDate cfg localeCompare first db) {db' : Db} (hgrows : db.Grows db')
    (hlands : ∀ day, r.Closed day →
      ¬ (liveRow localeCompare db' day).SameSales (liveRow localeCompare db day) →
        r.Ahead cfg first day) : r.UpToDate cfg localeCompare first db' := by
  -- a day that changes has orders
  have htraded : ∀ day,
      ¬ (liveRow localeCompare db' day).SameSales (liveRow localeCompare db day) →
        db'.Traded day := by
    intro day hchange
    by_contra hnone
    refine hchange ?_
    rw [liveRow, liveRow, aggregateDay_of_not_traded hnone,
      aggregateDay_of_not_traded fun ht => hnone (hgrows.traded ht)]
    exact .refl _
  constructor
  · intro day s hs hfin hdiffers
    by_cases hsame : s.row.SameSales (liveRow localeCompare db day)
    · have hchange : ¬ (liveRow localeCompare db' day).SameSales (liveRow localeCompare db day) :=
        fun hno => hdiffers (hsame.trans hno.symm)
      refine ⟨htraded day hchange, .ahead (hlands day (.finalized ?_) hchange)⟩
      rw [isFinalized, hs]
      exact hfin
    · obtain ⟨ht, hawaits⟩ := h.stored day s hs hfin hsame
      exact ⟨hgrows.traded ht, hawaits⟩
  · intro run row hrun hrow hdiffers
    by_cases hsame : row.SameSales (liveRow localeCompare db row.businessDay)
    · have hchange : ¬ (liveRow localeCompare db' row.businessDay).SameSales
          (liveRow localeCompare db row.businessDay) :=
        fun hno => hdiffers (hsame.trans hno.symm)
      refine ⟨htraded _ hchange, ?_⟩
      cases hlands _ (.aggregated hrun hrow rfl) hchange with
      | tonight hrun' hmem =>
        obtain rfl := Option.some.inj (hrun.symm.trans hrun')
        exact hmem
      | nextNight hnone =>
        rw [hrun] at hnone
        cases hnone
    · obtain ⟨ht, hmem⟩ := h.row run row hrun hrow hsame
      exact ⟨hgrows.traded ht, hmem⟩

/-- The job goes on. -/
theorem step (h : r.UpToDate cfg localeCompare first db) {a : RollupAct} {r' : Rollups}
    (hs : Step cfg localeCompare first db r a r')
    (hretried : ∀ day, r.failing cfg a = some day → isFinalized r.stored day = true →
      inWindow (targetOf cfg first (r.night + 1)) day = true) :
    r'.UpToDate cfg localeCompare first db := by
  cases hs with
  | rollUpYesterday hrun =>
    refine ⟨fun day s hs hfin hdiffers => ?_, fun run row hrun' hrow => ?_⟩
    · obtain ⟨ht, hawaits⟩ := h.stored day s hs hfin hdiffers
      exact ⟨ht, .ahead (.tonight rfl (mem_daysNeedingRoll _ ht (hawaits.of_none hrun)))⟩
    · obtain rfl := Option.some.inj hrun'
      cases hrow
  | @aggregate now parts day days summary hrun hcould =>
    refine ⟨fun day' s hs hfin hdiffers => ?_, fun run row hrun' hrow hdiffers => ?_⟩
    · obtain ⟨ht, hawaits⟩ := h.stored day' s hs hfin hdiffers
      refine ⟨ht, ?_⟩
      rcases hawaits.of_some hrun with hmem | ⟨row, hrow, -⟩ | ⟨hfailed, hwindow⟩
      · rcases List.mem_cons.mp hmem with rfl | hmem
        · exact .upsert rfl rfl rfl
        · exact .ahead (.tonight rfl hmem)
      · cases hrow
      · exact .retry rfl hfailed hwindow
    · obtain rfl := Option.some.inj hrun'
      obtain rfl := Option.some.inj hrow
      exact absurd (hcould.sameSales localeCompare) hdiffers
  | @upsert now days row summary hrun =>
    refine ⟨fun day s hs hfin hdiffers => ?_, fun run row' hrun' hrow => ?_⟩
    · by_cases hday : day = row.businessDay
      · subst hday
        rw [Table.get_put_self] at hs
        obtain rfl := Option.some.inj hs
        obtain ⟨ht, hmem⟩ := h.row _ row hrun rfl hdiffers
        exact ⟨ht, .ahead (.tonight rfl hmem)⟩
      · rw [Table.get_put_ne _ _ hday] at hs
        obtain ⟨ht, hawaits⟩ := h.stored day s hs hfin hdiffers
        refine ⟨ht, ?_⟩
        rcases hawaits.of_some hrun with hmem | ⟨row', hrow, hrowday⟩ | ⟨hfailed, hwindow⟩
        · exact .ahead (.tonight rfl hmem)
        · obtain rfl := Option.some.inj hrow
          exact absurd hrowday.symm hday
        · exact .retry rfl hfailed hwindow
    · obtain rfl := Option.some.inj hrun'
      cases hrow
  | @fails _ run failed hrun hday hfailing =>
    refine ⟨fun day s hs hfin hdiffers => ?_, fun run' row hrun' hrow => ?_⟩
    · obtain ⟨ht, hawaits⟩ := h.stored day s hs hfin hdiffers
      refine ⟨ht, ?_⟩
      -- the day that fails is rolled again, if it has a row
      have hmine : day = failed → Awaits cfg first { r with run := some run.fail } day := by
        rintro rfl
        refine .retry rfl (Nat.succ_ne_zero _) (hretried day hfailing ?_)
        rw [isFinalized, hs]
        exact hfin
      rcases hawaits.of_some hrun with hmem | ⟨row, hrow, hrowday⟩ | ⟨-, hwindow⟩
      · rcases run.mem_days_fail hday hmem with rfl | hmem
        · exact hmine rfl
        · exact .ahead (.tonight rfl hmem)
      · rw [RollDays.day, hrow] at hday
        exact hmine (hrowday.symm.trans (Option.some.inj hday))
      · exact .retry rfl (Nat.succ_ne_zero _) hwindow
    · obtain rfl := Option.some.inj hrun'
      cases hrow
  | @finish summary hrun =>
    refine ⟨fun day s hs hfin hdiffers => ?_, fun run row hrun' => by cases hrun'⟩
    obtain ⟨ht, hawaits⟩ := h.stored day s hs hfin hdiffers
    refine ⟨ht, ?_⟩
    rcases hawaits.of_some hrun with hmem | ⟨row, hrow, -⟩ | ⟨-, hwindow⟩
    · cases hmem
    · cases hrow
    · exact .ahead (.nextNight rfl hwindow)

/-- After a night in which no day failed. -/
theorem sameSales (h : r.UpToDate cfg localeCompare first db) {summary : RollupSummary}
    (hrun : r.run = some ⟨[], none, summary⟩) (hfailed : summary.failed = 0) {day : String}
    {s : DailySalesRollup} (hs : r.stored.get day = some s) (hfin : s.finalizedAt.isSome = true) :
    s.row.SameSales (liveRow localeCompare db day) := by
  by_contra hdiffers
  obtain ⟨-, hawaits⟩ := h.stored day s hs hfin hdiffers
  rcases hawaits.of_some hrun with hmem | ⟨row, hrow, -⟩ | ⟨hsome, -⟩
  · cases hmem
  · cases hrow
  · exact hsome hfailed

end Rollups.UpToDate

/-- Every night whose changes are timely. -/
theorem Nights.upToDate {v : Nightly}
    (h : Nights cfg localeCompare first (Nightly.Timely cfg localeCompare first) v) :
    v.rollups.UpToDate cfg localeCompare first v.world.shared.db := by
  induction h with
  | start =>
    constructor
    · intro day s hs
      cases hs
    · intro run row hrun
      cases hrun
  | @act v v' a hv htimely hact ih =>
    cases htimely with
    | @pos a hlands =>
      obtain ⟨w, hw, rfl⟩ := Option.map_eq_some_iff.mp hact
      have hone : Runs (system cfg) .all v.world w := .tail .refl (Runs.allows_all _ _) hw
      exact ih.grows (hv.reachable.kept hone).grows fun day => hlands w day hw
    | rollup hretried =>
      obtain ⟨r, hr, rfl⟩ := Option.map_eq_some_iff.mp hact
      exact ih.step (Rollups.step hr) hretried

/-! ## What is shown -/

/-- A total is that of a finalized row, or what the tables say. -/
theorem dayTotals_cases {rollups : Table String DailySalesRollup} {db : Db} {days : List String}
    {totals : Table String RollupRow}
    (h : dayTotals localeCompare rollups db days = .ok totals) {day : String} {row : RollupRow}
    (hrow : totals.get day = some row) :
    (∃ s, rollups.get day = some s ∧ s.finalizedAt.isSome = true ∧ s.row = row) ∨
      row = liveRow localeCompare db day := by
  simp only [dayTotals] at h
  split at h
  · cases h
  · obtain rfl := Except.ok.inj h
    rcases Table.get_foldl_put id (fun day => liveRow localeCompare db day) _ _ hrow with
      hstored | ⟨day', -, rfl, hlive⟩
    · rcases Table.get_foldl_put Prod.fst
        (fun e : String × DailySalesRollup => e.2.row) _ _ hstored with hnone | ⟨⟨k, s⟩, he, rfl, hs⟩
      · cases hnone
      · obtain ⟨hget, hcond⟩ := Table.mem_select.mp he
        rw [Bool.and_eq_true, Bool.and_eq_true] at hcond
        exact Or.inl ⟨s, hget, hcond.1.1, hs⟩
    · exact Or.inr hlive.symm

end step

/-! ## Two series of nights -/

namespace Nightly

/-- Actions, evaluated. -/
def run (cfg : Config) (localeCompare : String → String → Ordering) (first : ℕ)
    (check : Nightly → NightlyAct → Bool) (v : Nightly) : List NightlyAct → Option Nightly
  | [] => some v
  | a :: acts =>
    if check v a then
      (v.act cfg localeCompare first a).bind fun v' => v'.run cfg localeCompare first check acts
    else none

/-- Nothing has been rolled up yet, or it is the job that goes on. -/
def quiet (cfg : Config) (v : Nightly) : NightlyAct → Bool
  | .pos _ => v.rollups.stored.entries.isEmpty && v.rollups.run.isNone
  | .rollup a => (v.rollups.failing cfg a).isNone

theorem timely_of_quiet (cfg : Config) (localeCompare : String → String → Ordering) (first : ℕ)
    {v : Nightly} {a : NightlyAct} (h : v.quiet cfg a = true) :
    v.Timely cfg localeCompare first a := by
  cases a with
  | pos a =>
    rw [quiet, Bool.and_eq_true, List.isEmpty_iff, Option.isNone_iff_eq_none] at h
    refine .pos fun w day _ hclosed => ?_
    cases hclosed with
    | finalized hfin =>
      have hempty : v.rollups.stored = ∅ := AList.ext h.1
      rw [isFinalized, hempty] at hfin
      cases hfin
    | aggregated hrun =>
      rw [h.2] at hrun
      cases hrun
  | rollup a =>
    refine .rollup fun day hday => ?_
    rw [quiet, hday] at h
    cases h

end Nightly

theorem Nights.run {localeCompare : String → String → Ordering} {first : ℕ}
    {check : Nightly → NightlyAct → Bool} {acts : List NightlyAct} {v v' : Nightly}
    (h : Nights cfg localeCompare first (fun v a => check v a = true) v)
    (hrun : v.run cfg localeCompare first check acts = some v') :
    Nights cfg localeCompare first (fun v a => check v a = true) v' := by
  induction acts generalizing v with
  | nil =>
    obtain rfl := Option.some.inj hrun
    exact h
  | cons a acts ih =>
    rw [Nightly.run] at hrun
    split at hrun
    · rename_i hcheck
      obtain ⟨v₁, hact, hrest⟩ := Option.bind_eq_some_iff.mp hrun
      exact ih (h.act hcheck hact) hrest
    · cases hrun

theorem Nights.mono {localeCompare : String → String → Ordering} {first : ℕ}
    {P Q : Nightly → NightlyAct → Prop} (hPQ : ∀ v a, P v a → Q v a) {v : Nightly}
    (h : Nights cfg localeCompare first P v) : Nights cfg localeCompare first Q v := by
  induction h with
  | start => exact .start
  | act _ hP hact ih => exact ih.act (hPQ _ _ hP) hact

/-- The corner café, open in Bangkok from five in the morning. -/
def bangkokCafe : Config := { cornerCafe with businessDayOf := businessDayAt bangkok 5 }

/-- A night that rolls as many days as this. -/
def rollUp (night : ℕ) (days : List RollupParts) : List NightlyAct :=
  .rollup .rollUpYesterday :: days.flatMap fun parts =>
    [.rollup (.aggregate (cronRun night) parts), .rollup (.upsert (cronRun night))]

/-- A day on which a latte was paid for in cash. -/
def latteDay : RollupParts :=
  ⟨[(.paid, 1)], [(some .cash, 9000)], 0, 589, 1, [⟨1, "Latte", 1, 9000⟩]⟩

/-- A night ends in which no day failed, and then this is shown as the revenue of a day, and that
is what the tables say. -/
def Nightly.endsWith (v : Nightly) (day : String) (shown live : ℤ) : Bool :=
  v.rollups.run.all (fun run => run.summary.failed = 0) &&
    (v.act bangkokCafe compare 1 (.rollup .finish)).any fun v' =>
      (dayTotals compare v'.rollups.stored v'.world.shared.db [day]).toOption.any fun totals =>
        (totals.get day).any fun row => row.revenueMinor = shown &&
          (liveRow compare v'.world.shared.db day).revenueMinor = live

theorem Nightly.endsWith_spec {v : Nightly} {day : String} {shown live : ℤ}
    (h : v.endsWith day shown live = true) : ∃ v' totals row,
      (∀ run, v.rollups.run = some run → run.summary.failed = 0) ∧
      v.act bangkokCafe compare 1 (.rollup .finish) = some v' ∧
      dayTotals compare v'.rollups.stored v'.world.shared.db [day] = .ok totals ∧
      totals.get day = some row ∧ row.revenueMinor = shown ∧
      (liveRow compare v'.world.shared.db day).revenueMinor = live := by
  rw [endsWith, Bool.and_eq_true, Option.any_eq_true] at h
  obtain ⟨hfailed, v', hact, h⟩ := h
  obtain ⟨totals, htotals, h⟩ := (Option.any_eq_true _ _).mp h
  obtain ⟨row, hrow, h⟩ := (Option.any_eq_true _ _).mp h
  rw [Bool.and_eq_true, decide_eq_true_eq, decide_eq_true_eq] at h
  refine ⟨v', totals, row, fun run hrun => ?_, hact, ?_, hrow, h.1, h.2⟩
  · rw [hrun] at hfailed
    exact of_decide_eq_true hfailed
  · cases hall : dayTotals compare v'.rollups.stored v'.world.shared.db [day] with
    | error => rw [hall] at htotals; cases htotals
    | ok => rw [hall] at htotals; rw [Option.some.inj htotals]

theorem Nights.exists_of_run (check : Nightly → NightlyAct → Bool) (acts : List NightlyAct)
    (p : Nightly → Bool)
    (h : (Nightly.start.run bangkokCafe compare 1 check acts).any p = true) :
    ∃ v, Nights bangkokCafe compare 1 (fun v a => check v a = true) v ∧ p v = true := by
  obtain ⟨v, hv, hp⟩ := (Option.any_eq_true _ _).mp h
  exact ⟨v, Nights.start.run hv, hp⟩

/-- A day without orders. -/
def emptyDay : RollupParts := ⟨[], [], 0, 0, 0, []⟩

/-- A day of one parked order. -/
def parkedDay : RollupParts := ⟨[(.draft, 1)], [], 0, 0, 0, []⟩

/-- The café on its sixth day. -/
def sixthDay (fresh : Id) : Input := { supply fresh "" with now := cronRun 4 + 1 }

/-- A latte is parked on the first day, which four nights roll up, and is paid for after that. -/
def parkFiveDays : List NightlyAct :=
  (.start (.createOrder (.staff 7) { oneLatte with draft := true } none) ::
      steps 0 7 (supply 100 "")).map .pos ++
    rollUp 1 [parkedDay] ++ [.rollup .finish] ++
    rollUp 2 [emptyDay, parkedDay] ++ [.rollup .finish] ++
    rollUp 3 [emptyDay, parkedDay] ++ [.rollup .finish] ++
    rollUp 4 [emptyDay, parkedDay] ++ [.rollup .finish] ++
    (.start (.checkout (.staff 7) 100) :: steps 1 8 (sixthDay 0)).map .pos ++
    (.start (.createPayment (.staff 7) 100 ⟨.cash, some 10000⟩ none) ::
      steps 2 8 (sixthDay 200)).map .pos ++
    rollUp 5 [emptyDay]

end CafePos
