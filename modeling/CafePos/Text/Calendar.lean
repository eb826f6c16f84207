import CafePos.Text.Digits

/-!
# The proleptic Gregorian calendar

Days are counted from the first day of the year 0. `ofDays` finds the date of a day, `toDays`
counts the days before a date; the first always gives a date that exists, and the second takes it
back. An instant is a number of milliseconds since 1970; `printInstant` is its ISO text.
-/

namespace Text

/-! ## Years and months -/

/-- A leap year. -/
def IsLeap (y : ℕ) : Prop := y % 4 = 0 ∧ (y % 100 ≠ 0 ∨ y % 400 = 0)

instance (y : ℕ) : Decidable (IsLeap y) := inferInstanceAs (Decidable (_ ∧ _))

/-- The days before year `y`. -/
def daysBeforeYear (y : ℕ) : ℕ := y * 365 + ((y + 3) / 4 + (y + 399) / 400 - (y + 99) / 100)

theorem daysBeforeYear_succ (y : ℕ) :
    daysBeforeYear (y + 1) = daysBeforeYear y + if IsLeap y then 366 else 365 := by
  by_cases h : IsLeap y
  · rw [if_pos h]
    simp only [daysBeforeYear, IsLeap] at h ⊢
    omega
  · rw [if_neg h]
    simp only [daysBeforeYear, IsLeap] at h ⊢
    omega

theorem le_daysBeforeYear (y : ℕ) : y * 365 ≤ daysBeforeYear y := Nat.le_add_right ..

/-- The days of a month, counted from 1. -/
def daysInMonth (y : ℕ) : ℕ → ℕ
  | 2 => if IsLeap y then 29 else 28
  | 4 => 30
  | 6 => 30
  | 9 => 30
  | 11 => 30
  | _ => 31

/-- The days of a year before its month `m`. -/
def daysBeforeMonth (y : ℕ) : ℕ → ℕ
  | 0 => 0
  | 1 => 0
  | m + 2 => daysBeforeMonth y (m + 1) + daysInMonth y (m + 1)

theorem daysBeforeMonth_thirteen (y : ℕ) :
    daysBeforeMonth y 13 = if IsLeap y then 366 else 365 := by
  simp only [daysBeforeMonth, daysInMonth]
  split <;> rfl

/-! ## Dates -/

/-- A date. -/
structure Date where
  year : ℕ
  month : ℕ
  day : ℕ
  deriving DecidableEq

/-- The date is one of the calendar. -/
def Date.Valid (d : Date) : Prop :=
  1 ≤ d.month ∧ d.month ≤ 12 ∧ 1 ≤ d.day ∧ d.day ≤ daysInMonth d.year d.month

instance (d : Date) : Decidable d.Valid := inferInstanceAs (Decidable (_ ∧ _ ∧ _ ∧ _))

/-- The days before a date. -/
def Date.toDays (d : Date) : ℕ :=
  daysBeforeYear d.year + daysBeforeMonth d.year d.month + (d.day - 1)

/-- The year of day `n`. -/
def yearOf (n : ℕ) : ℕ := Nat.findGreatest (fun y => daysBeforeYear y ≤ n) (n / 365)

/-- The month of day `n` of year `y`. -/
def monthOf (y n : ℕ) : ℕ := Nat.findGreatest (fun m => daysBeforeMonth y m ≤ n) 12

/-- The date of day `n`. -/
def Date.ofDays (n : ℕ) : Date :=
  let y := yearOf n
  let m := monthOf y (n - daysBeforeYear y)
  ⟨y, m, n - daysBeforeYear y - daysBeforeMonth y m + 1⟩

theorem daysBeforeYear_yearOf (n : ℕ) : daysBeforeYear (yearOf n) ≤ n :=
  Nat.findGreatest_spec (P := fun y => daysBeforeYear y ≤ n) (Nat.zero_le _) (Nat.zero_le n)

theorem lt_daysBeforeYear_yearOf (n : ℕ) : n < daysBeforeYear (yearOf n + 1) := by
  by_cases hle : yearOf n + 1 ≤ n / 365
  · exact Nat.not_le.mp (Nat.findGreatest_is_greatest (P := fun y => daysBeforeYear y ≤ n)
      (Nat.lt_succ_self _) hle)
  · have := le_daysBeforeYear (yearOf n + 1)
    omega

theorem daysBeforeMonth_monthOf (y n : ℕ) : daysBeforeMonth y (monthOf y n) ≤ n :=
  Nat.findGreatest_spec (P := fun m => daysBeforeMonth y m ≤ n) (show 1 ≤ 12 by decide)
    (Nat.zero_le n)

theorem monthOf_pos (y n : ℕ) : 1 ≤ monthOf y n :=
  Nat.le_findGreatest (P := fun m => daysBeforeMonth y m ≤ n) (by decide) (Nat.zero_le n)

theorem monthOf_le (y n : ℕ) : monthOf y n ≤ 12 := Nat.findGreatest_le 12

theorem lt_daysBeforeMonth_monthOf {y n : ℕ} (hn : n < if IsLeap y then 366 else 365) :
    n < daysBeforeMonth y (monthOf y n + 1) := by
  by_cases hle : monthOf y n + 1 ≤ 12
  · exact Nat.not_le.mp (Nat.findGreatest_is_greatest (P := fun m => daysBeforeMonth y m ≤ n)
      (Nat.lt_succ_self _) hle)
  · have hmonth : monthOf y n = 12 := by
      have := monthOf_le y n
      omega
    rw [hmonth, daysBeforeMonth_thirteen]
    exact hn

/-- Every day has its date. -/
theorem Date.toDays_ofDays (n : ℕ) : (Date.ofDays n).toDays = n := by
  have hyear := daysBeforeYear_yearOf n
  have hmonth := daysBeforeMonth_monthOf (yearOf n) (n - daysBeforeYear (yearOf n))
  simp only [ofDays, toDays]
  omega

/-- It is a date of the calendar. -/
theorem Date.valid_ofDays (n : ℕ) : (Date.ofDays n).Valid := by
  have hyear := daysBeforeYear_yearOf n
  have hlast := lt_daysBeforeYear_yearOf n
  rw [daysBeforeYear_succ] at hlast
  have hmonth := daysBeforeMonth_monthOf (yearOf n) (n - daysBeforeYear (yearOf n))
  have hnext := lt_daysBeforeMonth_monthOf (y := yearOf n) (n := n - daysBeforeYear (yearOf n))
    (by omega)
  have hpos := monthOf_pos (yearOf n) (n - daysBeforeYear (yearOf n))
  obtain ⟨m, hm⟩ := Nat.exists_eq_add_of_le' hpos
  refine ⟨hpos, monthOf_le .., Nat.le_add_left .., ?_⟩
  simp only [ofDays]
  rw [hm] at hmonth hnext ⊢
  rw [daysBeforeMonth] at hnext
  omega

/-- A day before the year `y` is not in it. -/
theorem yearOf_lt {n y : ℕ} (h : n < daysBeforeYear y) : yearOf n < y := by
  by_contra hle
  have hmono : Monotone daysBeforeYear := by
    refine monotone_nat_of_le_succ fun y => ?_
    rw [daysBeforeYear_succ]
    exact Nat.le_add_right ..
  have := hmono (Nat.not_lt.mp hle)
  have := daysBeforeYear_yearOf n
  omega

/-! ## Instants -/

/-- A time of day. -/
structure Time where
  hour : ℕ
  minute : ℕ
  second : ℕ
  milli : ℕ
  deriving DecidableEq

/-- The milliseconds since midnight. -/
def Time.toMillis (t : Time) : ℕ := ((t.hour * 60 + t.minute) * 60 + t.second) * 1000 + t.milli

/-- The days before 1970. -/
def epochDays : ℕ := 719528

/-- The milliseconds since 1970. -/
def toInstant (d : Date) (t : Time) : ℤ := ((d.toDays : ℤ) - epochDays) * 86400000 + t.toMillis

/-- The date of an instant. -/
def dateOf (ms : ℕ) : Date := Date.ofDays (ms / 86400000 + epochDays)

/-- The time of day of an instant. -/
def timeOf (ms : ℕ) : Time := ⟨ms / 3600000 % 24, ms / 60000 % 60, ms / 1000 % 60, ms % 1000⟩

theorem toInstant_dateOf (ms : ℕ) : toInstant (dateOf ms) (timeOf ms) = ms := by
  rw [toInstant, dateOf, Date.toDays_ofDays]
  simp only [timeOf, Time.toMillis]
  omega

theorem one_le_year_dateOf (ms : ℕ) : 1 ≤ (dateOf ms).year := by
  by_contra hyear
  have hzero : yearOf (ms / 86400000 + epochDays) = 0 := by
    simpa [dateOf, Date.ofDays] using hyear
  have hlt := lt_daysBeforeYear_yearOf (ms / 86400000 + epochDays)
  have hone : daysBeforeYear (0 + 1) = 366 := by decide
  rw [hzero, hone] at hlt
  simp only [epochDays] at hlt
  omega

/-- `YYYY-MM-DDTHH:mm:ss.sssZ`. -/
def isoFields : List Field :=
  [.number 10 4, .literal '-', .number 10 2, .literal '-', .number 10 2, .literal 'T',
    .number 10 2, .literal ':', .number 10 2, .literal ':', .number 10 2, .literal '.',
    .number 10 3, .literal 'Z']

/-- A date and a time in ISO form. -/
def printIso (d : Date) (t : Time) : List Char :=
  print isoFields [d.year, d.month, d.day, t.hour, t.minute, t.second, t.milli]

/-- The date and the time of a text in exactly this form; whether they exist is another matter. -/
def scanIso (cs : List Char) : Option (Date × Time) :=
  match scan isoFields cs with
  | some [year, month, day, hour, minute, second, milli] =>
    some (⟨year, month, day⟩, ⟨hour, minute, second, milli⟩)
  | _ => none

/-- The end of the year 9999. -/
def lastInstant : ℕ := 253402300800000

theorem daysInMonth_le (y m : ℕ) : daysInMonth y m ≤ 31 := by
  unfold daysInMonth
  split <;> try split
  all_goals decide

/-- An instant of a year with four digits reads back. -/
theorem scanIso_printIso {ms : ℕ} (h : ms < lastInstant) :
    scanIso (printIso (dateOf ms) (timeOf ms)) = some (dateOf ms, timeOf ms) := by
  have hvalid := Date.valid_ofDays (ms / 86400000 + epochDays)
  have hyear : (dateOf ms).year < 10000 := by
    refine yearOf_lt ?_
    have hend : daysBeforeYear 10000 = 3652425 := by decide
    rw [hend]
    simp only [lastInstant, epochDays] at h ⊢
    omega
  have hmonth : (dateOf ms).month ≤ 12 := hvalid.2.1
  have hday : (dateOf ms).day ≤ 31 := hvalid.2.2.2.trans (daysInMonth_le ..)
  have hfits : Fits isoFields [(dateOf ms).year, (dateOf ms).month, (dateOf ms).day,
      (timeOf ms).hour, (timeOf ms).minute, (timeOf ms).second, (timeOf ms).milli] := by
    simp only [isoFields, Fits, timeOf, and_true]
    omega
  rw [scanIso, printIso, scan_print hfits]

end Text
