import CafePos.BusinessDays

/-!
# The day that the nightly jobs name

`reconcileYesterday` and `rollUpYesterday` run at 20:00 UTC, 03:00 in Bangkok, and work on
`businessDayOf(now - 24 h)`. The timezone of the café is an offset from UTC that may change at
any instant.

* `businessDayAt_eq` — the business day counts the openings on the clock of the zone;
* `targetDay_eq_iff` — 24 hours earlier is one business day earlier if and only if the change of
  the offset does not move the clock over an opening;
* `nightly_targets` — the jobs cover every closed day if and only if that is so at every run.

In a zone whose offset never changes it is so. In New York, with the opening at 16:00, the clock
is set back from 16:00 to 15:00 at the run of the 1st of November 2026: the jobs name the day
that is still trading.
-/

namespace CafePos

open Text

/-! ## Zones -/

/-- A timezone: what is to be added to an instant in UTC, less than a day. -/
structure Zone where
  offset : Instant → ℤ
  bounded : ∀ i, |offset i| < millisPerDay

/-- `localWallClock`. -/
def Zone.localWallClock (zone : Zone) (instant : Instant) : WallClock :=
  ⟨utcDate (instant + zone.offset instant),
    ((instant + zone.offset instant) % millisPerDay / (60 * 60 * 1000)).toNat⟩

/-- `businessDayAt`. -/
def businessDayAt (zone : Zone) (startHour : Fin 24) (epochMs : Instant) : String :=
  businessDayOf zone.localWallClock startHour epochMs

/-- The day that `reconcileYesterday` and `rollUpYesterday` work on. -/
def targetDay (zone : Zone) (startHour : Fin 24) (now : Instant) : String :=
  businessDayAt zone startHour (now - 24 * 60 * 60 * 1000)

/-- 20:00 UTC, on this day since 1970. -/
def cronRun (day : ℕ) : Instant := day * millisPerDay + 20 * 60 * 60 * 1000

/-! ## Counting openings -/

/-- What the clock on the wall shows, in milliseconds, from the opening of the first day. -/
def Zone.sinceOpening (zone : Zone) (startHour : Fin 24) (instant : Instant) : ℤ :=
  instant + zone.offset instant - (startHour : ℕ) * (60 * 60 * 1000)

/-- The number of the business day. -/
def Zone.tradingDay (zone : Zone) (startHour : Fin 24) (instant : Instant) : ℤ :=
  zone.sinceOpening startHour instant / millisPerDay + epochDays

/-- The business day counts the openings. -/
theorem businessDayAt_eq {zone : Zone} {startHour : Fin 24} {instant : Instant} {n : ℕ}
    (h : zone.tradingDay startHour instant = n) :
    businessDayAt zone startHour instant = label (Date.ofDays n) := by
  have hstart := startHour.isLt
  have hdays : ∃ m : ℕ, (m : ℤ) = (instant + zone.offset instant) / millisPerDay + epochDays := by
    refine ⟨((instant + zone.offset instant) / millisPerDay + epochDays).toNat, ?_⟩
    rw [Zone.tradingDay, Zone.sinceOpening] at h
    simp only [millisPerDay] at h ⊢
    omega
  obtain ⟨m, hm⟩ := hdays
  have hdate : utcDate (instant + zone.offset instant) = Date.ofDays m := by
    rw [utcDate, ← hm, Int.toNat_natCast]
  rw [businessDayAt, businessDayOf, businessDate]
  have hhour : (zone.localWallClock instant).hour =
      ((instant + zone.offset instant) % millisPerDay / (60 * 60 * 1000)).toNat := rfl
  rw [Zone.tradingDay, Zone.sinceOpening] at h
  by_cases hopen : (startHour : ℕ) ≤ (zone.localWallClock instant).hour
  · have hnm : n = m := by
      simp only [millisPerDay] at h hm hhour
      omega
    rw [if_pos hopen, hnm, ← hdate]
    rfl
  · have hnm : dateUTC (Date.ofDays m) - millisPerDay = ((n : ℤ) - epochDays) * millisPerDay := by
      rw [dateUTC_eq, Date.toDays_ofDays]
      simp only [millisPerDay] at h hm hhour ⊢
      omega
    rw [if_neg hopen, ← utcDate_eq n, ← hnm, ← hdate]
    rfl

/-- The instants whose labels have four digits of a year. -/
theorem tradingDay_inYears (zone : Zone) (startHour : Fin 24) (instant : Instant) {day : ℕ}
    (hlow : ((day : ℤ) - 1) * millisPerDay ≤ instant)
    (hhigh : ((day : ℤ) + 1) * millisPerDay > instant) (hday : 3 ≤ day)
    (hday' : epochDays + day + 3 < daysBeforeYear 10000) :
    ∃ n : ℕ, zone.tradingDay startHour instant = n ∧ 1 ≤ n ∧ InYears n := by
  have hstart := startHour.isLt
  have hoffset := abs_lt.mp (zone.bounded instant)
  have hfirst : daysBeforeYear 1000 ≤ epochDays ∧ 1 ≤ epochDays := by decide
  have hbounds : (epochDays : ℤ) ≤ zone.tradingDay startHour instant ∧
      zone.tradingDay startHour instant ≤ epochDays + day + 3 := by
    rw [Zone.tradingDay, Zone.sinceOpening]
    simp only [millisPerDay] at hlow hhigh hoffset ⊢
    omega
  refine ⟨(zone.tradingDay startHour instant).toNat, ?_, ?_, ?_, ?_⟩ <;> omega

/-! ## One run -/

/-- The offset does not change in the 24 hours before `now`, or its change does not move the clock
over an opening. -/
def Steady (zone : Zone) (startHour : Fin 24) (now : Instant) : Prop :=
  0 ≤ zone.sinceOpening startHour (now - millisPerDay) % millisPerDay +
      (zone.offset now - zone.offset (now - millisPerDay)) ∧
    zone.sinceOpening startHour (now - millisPerDay) % millisPerDay +
      (zone.offset now - zone.offset (now - millisPerDay)) < millisPerDay

/-- An offset that is the same 24 hours later. -/
theorem steady_of_offset_eq {zone : Zone} {startHour : Fin 24} {now : Instant}
    (h : zone.offset now = zone.offset (now - millisPerDay)) : Steady zone startHour now := by
  have hpos : (0 : ℤ) < millisPerDay := by decide
  rw [Steady, h, sub_self, add_zero]
  exact ⟨Int.emod_nonneg _ (ne_of_gt hpos), Int.emod_lt_of_pos _ hpos⟩

theorem tradingDay_eq_iff (zone : Zone) (startHour : Fin 24) (now : Instant) :
    zone.tradingDay startHour now = zone.tradingDay startHour (now - millisPerDay) + 1 ↔
      Steady zone startHour now := by
  rw [Steady, Zone.tradingDay, Zone.tradingDay, Zone.sinceOpening, Zone.sinceOpening]
  simp only [millisPerDay]
  omega

theorem cronRun_bounds (day : ℕ) : ((day : ℤ) - 1) * millisPerDay ≤ cronRun day - millisPerDay ∧
    ((day : ℤ) + 1) * millisPerDay > cronRun day := by
  rw [cronRun]
  simp only [millisPerDay]
  omega

/-- The business days of a run: the day that it works on, and the day that is trading. -/
theorem run_days (zone : Zone) (startHour : Fin 24) (day : ℕ) (hday : 3 ≤ day)
    (hday' : epochDays + day + 3 < daysBeforeYear 10000) :
    ∃ target current : ℕ, InYears target ∧ InYears current ∧ 1 ≤ current ∧
      zone.tradingDay startHour (cronRun day - millisPerDay) = target ∧
      zone.tradingDay startHour (cronRun day) = current ∧
      targetDay zone startHour (cronRun day) = label (Date.ofDays target) ∧
      businessDayAt zone startHour (cronRun day) = label (Date.ofDays current) ∧
      minusDays (businessDayAt zone startHour (cronRun day)) 1 =
        label (Date.ofDays (current - 1)) := by
  obtain ⟨hlow, hhigh⟩ := cronRun_bounds day
  have hpos : (0 : ℤ) < millisPerDay := by decide
  obtain ⟨target, htarget, -, hyears⟩ := tradingDay_inYears zone startHour
    (cronRun day - millisPerDay) hlow (by linarith) hday hday'
  obtain ⟨current, hcurrent, hone, hyears'⟩ := tradingDay_inYears zone startHour
    (cronRun day) (by linarith) hhigh hday hday'
  have hminus := minusDays_valid (Date.valid_ofDays current) (n := 1)
    (by rw [Date.toDays_ofDays]; exact hone)
  rw [Date.toDays_ofDays] at hminus
  refine ⟨target, current, hyears, hyears', hone, htarget, hcurrent, businessDayAt_eq htarget,
    businessDayAt_eq hcurrent, ?_⟩
  rw [businessDayAt_eq hcurrent, hminus]

theorem label_ofDays_inj {n m : ℕ} (h : label (Date.ofDays n) = label (Date.ofDays m)) : n = m := by
  have hdates := label_inj (Date.valid_ofDays n) (Date.valid_ofDays m) h
  rw [← Date.toDays_ofDays n, hdates, Date.toDays_ofDays]

theorem label_ofDays_lt {n m : ℕ} (hn : InYears n) (hm : InYears m) :
    label (Date.ofDays n) < label (Date.ofDays m) ↔ n < m := by
  have h := label_lt_iff (dayAt n hn) (dayAt m hm)
  rw [dayAt, dayAt, Date.toDays_ofDays, Date.toDays_ofDays] at h
  exact h

/-- 24 hours earlier is one business day earlier. -/
theorem targetDay_eq_iff (zone : Zone) (startHour : Fin 24) {day : ℕ} (hday : 3 ≤ day)
    (hday' : epochDays + day + 3 < daysBeforeYear 10000) :
    targetDay zone startHour (cronRun day) =
        minusDays (businessDayAt zone startHour (cronRun day)) 1 ↔
      Steady zone startHour (cronRun day) := by
  obtain ⟨target, current, -, -, hone, ht, hc, htarget, -, hminus⟩ :=
    run_days zone startHour day hday hday'
  rw [← tradingDay_eq_iff, ht, hc, htarget, hminus]
  constructor
  · intro h
    have := label_ofDays_inj h
    omega
  · intro h
    have hpred : target = current - 1 := by omega
    rw [hpred]

/-! ## Every run -/

/-- The runs of `n + 1` days in a row: every run works on the day before the one that is trading,
the next run on the day after, and every day from the first of them to the last has its run. -/
structure CoversClosedDays (zone : Zone) (startHour : Fin 24) (first n : ℕ) : Prop where
  before : ∀ k ≤ n, targetDay zone startHour (cronRun (first + k)) =
    minusDays (businessDayAt zone startHour (cronRun (first + k))) 1
  consecutive : ∀ k < n, targetDay zone startHour (cronRun (first + k)) =
    minusDays (targetDay zone startHour (cronRun (first + (k + 1)))) 1
  closed : ∀ k ≤ n, targetDay zone startHour (cronRun (first + k)) <
    businessDayAt zone startHour (cronRun (first + k))
  once : ∀ d : Day, ¬ label d.val < targetDay zone startHour (cronRun first) →
    ¬ targetDay zone startHour (cronRun (first + n)) < label d.val →
      ∃! k, k ≤ n ∧ targetDay zone startHour (cronRun (first + k)) = label d.val

/-- The next run works on the day that was trading. -/
theorem targetDay_succ (zone : Zone) (startHour : Fin 24) (day : ℕ) :
    targetDay zone startHour (cronRun (day + 1)) = businessDayAt zone startHour (cronRun day) := by
  have hrun : cronRun (day + 1) - 24 * 60 * 60 * 1000 = cronRun day := by
    rw [cronRun, cronRun]
    simp only [millisPerDay]
    push_cast
    ring
  rw [targetDay, hrun]

/-- The days of the runs, counted from the first. -/
theorem targetDay_add {zone : Zone} {startHour : Fin 24} {first n target : ℕ}
    (hsteady : ∀ k ≤ n, Steady zone startHour (cronRun (first + k)))
    (htarget : zone.tradingDay startHour (cronRun first - millisPerDay) = target) :
    ∀ k ≤ n, zone.tradingDay startHour (cronRun (first + k) - millisPerDay) =
      (target + k : ℕ) := by
  intro k hk
  induction k with
  | zero => exact htarget
  | succ k ih =>
    have hrun : cronRun (first + (k + 1)) - millisPerDay = cronRun (first + k) := by
      rw [cronRun, cronRun]
      push_cast
      ring
    rw [hrun, (tradingDay_eq_iff zone startHour _).mpr (hsteady k (by omega)), ih (by omega)]
    push_cast
    ring

/-- The days that the runs name, when no change of the offset moves the clock over an opening. -/
theorem targetDay_runs {zone : Zone} {startHour : Fin 24} {first n : ℕ} (hfirst : 3 ≤ first)
    (hlast : epochDays + (first + n) + 3 < daysBeforeYear 10000)
    (hsteady : ∀ k ≤ n, Steady zone startHour (cronRun (first + k))) :
    ∃ target : ℕ, ∀ k ≤ n, InYears (target + k) ∧ InYears (target + k + 1) ∧
      targetDay zone startHour (cronRun (first + k)) = label (Date.ofDays (target + k)) ∧
      businessDayAt zone startHour (cronRun (first + k)) =
        label (Date.ofDays (target + k + 1)) := by
  obtain ⟨target, -, -, -, -, htarget, -, -, -, -⟩ :=
    run_days zone startHour first hfirst (by omega)
  refine ⟨target, fun k hk => ?_⟩
  obtain ⟨target', current, hy, hy', -, ht, hc, htl, hcl, -⟩ :=
    run_days zone startHour (first + k) (by omega) (by omega)
  have hadd := targetDay_add hsteady htarget k hk
  have hnext := (tradingDay_eq_iff zone startHour _).mpr (hsteady k hk)
  rw [ht] at hadd hnext
  rw [hc] at hnext
  have htarget' : target' = target + k := by omega
  have hcurrent' : current = target + k + 1 := by omega
  subst htarget' hcurrent'
  exact ⟨hy, hy', htl, hcl⟩

/-- **The nightly jobs cover every closed day.** Runs 24 hours apart at 20:00 UTC work each on
the business day before the one that is trading, on consecutive days, and on each of them once, if
and only if at none of the runs a change of the offset has moved the clock over an opening. -/
theorem nightly_targets (zone : Zone) (startHour : Fin 24) (first n : ℕ) (hfirst : 3 ≤ first)
    (hlast : epochDays + (first + n) + 3 < daysBeforeYear 10000) :
    CoversClosedDays zone startHour first n ↔
      ∀ k ≤ n, Steady zone startHour (cronRun (first + k)) := by
  constructor
  · intro h k hk
    exact (targetDay_eq_iff zone startHour (by omega) (by omega)).mp (h.before k hk)
  · intro hsteady
    obtain ⟨target, hruns⟩ := targetDay_runs hfirst hlast hsteady
    have hbefore : ∀ k ≤ n, targetDay zone startHour (cronRun (first + k)) =
        minusDays (businessDayAt zone startHour (cronRun (first + k))) 1 := fun k hk =>
      (targetDay_eq_iff zone startHour (by omega) (by omega)).mpr (hsteady k hk)
    refine ⟨hbefore, fun k hk => ?_, fun k hk => ?_, fun d hlow hhigh => ?_⟩
    · rw [hbefore k (by omega), ← targetDay_succ, Nat.add_assoc]
    · obtain ⟨hy, hy', htarget, hcurrent⟩ := hruns k hk
      rw [htarget, hcurrent, label_ofDays_lt hy hy']
      exact Nat.lt_succ_self _
    · -- the day is found by its number
      obtain ⟨hy, -, htarget, -⟩ := hruns 0 (Nat.zero_le n)
      obtain ⟨hy', -, htarget', -⟩ := hruns n (le_refl n)
      have hd : label d.val = label (Date.ofDays d.val.toDays) := by
        rw [Date.ofDays_toDays d.2.1]
      rw [Nat.add_zero, Nat.add_zero] at htarget
      rw [Nat.add_zero] at hy
      rw [htarget, hd, label_ofDays_lt d.inYears hy] at hlow
      rw [htarget', hd, label_ofDays_lt hy' d.inYears] at hhigh
      refine ⟨d.val.toDays - target, ⟨by omega, ?_⟩, ?_⟩
      · obtain ⟨-, -, htarget'', -⟩ := hruns (d.val.toDays - target) (by omega)
        rw [htarget'', hd]
        congr 2
        omega
      · rintro k ⟨hk, hlabel⟩
        obtain ⟨-, -, htarget'', -⟩ := hruns k hk
        rw [htarget'', hd] at hlabel
        have := label_ofDays_inj hlabel
        omega

/-! ## Two zones -/

theorem bangkok_bounded : |(7 * 60 * 60 * 1000 : ℤ)| < millisPerDay := by decide

/-- Asia/Bangkok. -/
def bangkok : Zone := ⟨fun _ => 7 * 60 * 60 * 1000, fun _ => bangkok_bounded⟩

/-- A café in Bangkok that opens at five: the first four weeks of 2026. -/
theorem nightly_targets_bangkok : CoversClosedDays bangkok 5 20454 27 :=
  (nightly_targets bangkok 5 20454 27 (by decide) (by decide)).mpr
    fun _ _ => steady_of_offset_eq rfl

/-- The offset of New York in 2026: four hours behind UTC from the 8th of March, five hours
before and from the 1st of November. -/
def newYorkOffset (i : Instant) : ℤ :=
  if 20520 * millisPerDay + 7 * 60 * 60 * 1000 ≤ i ∧
      i < 20758 * millisPerDay + 6 * 60 * 60 * 1000 then
    -4 * 60 * 60 * 1000
  else -5 * 60 * 60 * 1000

theorem newYorkOffset_bounded (i : Instant) : |newYorkOffset i| < millisPerDay := by
  rw [newYorkOffset]
  split <;> decide

/-- America/New_York, in 2026. -/
def newYork : Zone := ⟨newYorkOffset, newYorkOffset_bounded⟩

/-- A café in New York that opens at 16:00: on the 1st of November 2026, 15:00 on its wall, the
jobs name the 31st of October, which is still trading. -/
theorem nightly_targets_setBack : businessDayAt newYork 16 (cronRun 20758) = "2026-10-31" ∧
    targetDay newYork 16 (cronRun 20758) = "2026-10-31" ∧
    ¬ CoversClosedDays newYork 16 20758 0 := by
  have htrading : newYork.tradingDay 16 (cronRun 20758) = (740285 : ℕ) ∧
      newYork.tradingDay 16 (cronRun 20758 - 24 * 60 * 60 * 1000) = (740285 : ℕ) := by
    decide
  have hlabel : label (Date.ofDays 740285) = "2026-10-31" := by decide
  have hcurrent : businessDayAt newYork 16 (cronRun 20758) = "2026-10-31" := by
    rw [businessDayAt_eq htrading.1, hlabel]
  have htarget : targetDay newYork 16 (cronRun 20758) = "2026-10-31" := by
    rw [targetDay, businessDayAt_eq htrading.2, hlabel]
  refine ⟨hcurrent, htarget, fun h => ?_⟩
  have hclosed := h.closed 0 (le_refl 0)
  rw [Nat.add_zero, hcurrent, htarget] at hclosed
  exact absurd hclosed (lt_irrefl _)

end CafePos
