import CafePos.Schema
import CafePos.Text.Dates

/-!
# Business days

The calendar of `orders/business-day.ts`, and `spanInDays` of `reporting/reports/reports.dto.ts`.
A label is the text of a date; every function takes it apart, counts days in UTC, and writes a
date again. The wall clock of the café is any function of the instant.

* `dateParts_label` — a label is read back;
* `label_lt_iff` — labels in alphabetical order are in calendar order;
* `daysFrom_eq`, `minusDays_label` — the loop counts the days, and so does the subtraction;
* `business_day_calendar` — the calendar; business days follow the clock from one opening to the
  next.
-/

namespace CafePos

open Text

/-! ## Labels -/

/-- `String(value).padStart(2, '0')`. -/
def pad (value : ℕ) : List Char :=
  List.replicate (2 - (Nat.toDigits 10 value).length) '0' ++ Nat.toDigits 10 value

/-- `formatDate`. -/
def formatDate (year month day : ℕ) : String :=
  String.ofList (Nat.toDigits 10 year ++ '-' :: (pad month ++ '-' :: pad day))

/-- The label of a date. -/
def label (d : Date) : String := formatDate d.year d.month d.day

/-- `businessDay.split('-').map(Number)`, when the first three parts are numbers. -/
def dateParts (businessDay : String) : Option Date :=
  match (businessDay.toList.splitOn '-').map scanNat with
  | some year :: some month :: some day :: _ => some ⟨year, month, day⟩
  | _ => none

/-! ## Counting in UTC -/

/-- `MILLIS_PER_DAY`. -/
def millisPerDay : ℤ := 24 * 60 * 60 * 1000

/-- `Date.UTC(year, month - 1, day)`. -/
def dateUTC (d : Date) : ℤ := toInstant d ⟨0, 0, 0, 0⟩

/-- `getUTCFullYear`, `getUTCMonth` and `getUTCDate` of an instant. -/
def utcDate (ms : ℤ) : Date := Date.ofDays (ms / millisPerDay + epochDays).toNat

/-- `minusDays`. -/
def minusDays (businessDay : String) (days : ℕ) : String :=
  match dateParts businessDay with
  | some d => label (utcDate (dateUTC d - days * millisPerDay))
  | none => "NaN-NaN-NaN"

/-- The loop of `eachBusinessDay`. -/
def daysFrom (cursor last : ℤ) : List String :=
  if cursor ≤ last then label (utcDate cursor) :: daysFrom (cursor + millisPerDay) last else []
termination_by (last + 1 - cursor).toNat
decreasing_by
  simp only [millisPerDay]
  omega

/-- `eachBusinessDay`; nothing compares with a date that is not a number. -/
def eachBusinessDay (first last : String) : List String :=
  match dateParts first, dateParts last with
  | some f, some t => daysFrom (dateUTC f) (dateUTC t)
  | _, _ => []

/-- `spanInDays`, of two dates. -/
def spanInDays (first last : String) : Option ℤ :=
  match dateParts first, dateParts last with
  | some f, some t => some ((dateUTC t - dateUTC f) / millisPerDay + 1)
  | _, _ => none

/-! ## The wall clock -/

/-- `WallClock`. -/
structure WallClock where
  date : Date
  hour : ℕ

/-- The date of the business day at this reading of the clock: before opening, the shift still
belongs to yesterday. -/
def businessDate (w : WallClock) (startHour : ℕ) : Date :=
  if startHour ≤ w.hour then w.date else utcDate (dateUTC w.date - millisPerDay)

/-- `businessDayOf`. -/
def businessDayOf (localWallClock : Instant → WallClock) (startHour : ℕ) (instant : Instant) :
    String :=
  label (businessDate (localWallClock instant) startHour)

/-! ## Labels are read back -/

/-- A date of the years whose labels have four digits of a year. -/
abbrev Day : Type := { d : Date // d.Valid ∧ 1000 ≤ d.year ∧ d.year ≤ 9999 }

theorem pad_eq : ∀ n < 100, pad n = printNumber 10 2 n ∧ scanNat (pad n) = some n ∧
    '-' ∉ pad n := by
  decide

theorem toDigits_eq {width n : ℕ} (h : 10 ^ width ≤ n) (h' : n < 10 ^ (width + 1)) :
    Nat.toDigits 10 n = printNumber 10 (width + 1) n := by
  induction width generalizing n with
  | zero =>
    have hn : n < 10 := by omega
    rw [Nat.toDigits_of_lt_base hn, printNumber, printNumber, List.nil_append, Nat.mod_eq_of_lt hn]
  | succ width ih =>
    have hpow : 10 ^ (width + 1) = 10 * 10 ^ width := Nat.pow_succ'
    have hpow' : 10 ^ (width + 1 + 1) = 10 * 10 ^ (width + 1) := Nat.pow_succ'
    have hpos : 0 < 10 ^ width := Nat.pow_pos (by decide)
    have hmod : n % 10 < 10 := Nat.mod_lt _ (by decide)
    have hdigits := @Nat.toDigits_append_toDigits 10 (n / 10) (n % 10) (by decide) (by omega) hmod
    rw [Nat.div_add_mod, ih (by omega) (by omega), Nat.toDigits_of_lt_base hmod] at hdigits
    exact hdigits.symm

theorem fields_lt {d : Date} (h : d.Valid) : d.month < 100 ∧ d.day < 100 := by
  have := h.2.1
  have := h.2.2.2.trans (daysInMonth_le d.year d.month)
  omega

/-- The characters of a label. -/
theorem toList_label (d : Day) : (label d.val).toList = printNumber 10 4 d.val.year ++
    '-' :: (printNumber 10 2 d.val.month ++ '-' :: printNumber 10 2 d.val.day) := by
  obtain ⟨d, hvalid, hyear⟩ := d
  obtain ⟨hmonth, hday⟩ := fields_lt hvalid
  have hdigits : Nat.toDigits 10 d.year = printNumber 10 4 d.year :=
    toDigits_eq (by omega) (by omega)
  rw [label, formatDate, String.toList_ofList, (pad_eq _ hmonth).1, (pad_eq _ hday).1, hdigits]

/-- The label of any date of the calendar is read back. -/
theorem dateParts_valid {d : Date} (h : d.Valid) : dateParts (label d) = some d := by
  obtain ⟨hmonth, hday⟩ := fields_lt h
  have hdigits : '-' ∉ Nat.toDigits 10 d.year := fun h => absurd (isDigit_toDigits h) (by decide)
  have hsplit : ((label d).toList.splitOn '-').map scanNat =
      [some d.year, some d.month, some d.day] := by
    rw [label, formatDate, String.toList_ofList,
      List.splitOn_append_cons_self_of_not_mem hdigits,
      List.splitOn_append_cons_self_of_not_mem (pad_eq _ hmonth).2.2,
      List.splitOn_eq_singleton (pad_eq _ hday).2.2]
    simp only [List.map_cons, List.map_nil, scanNat_toDigits, (pad_eq _ hmonth).2.1,
      (pad_eq _ hday).2.1]
  rw [dateParts, hsplit]

/-- A label is read back. -/
theorem dateParts_label (d : Day) : dateParts (label d.val) = some d.val := dateParts_valid d.2.1

theorem label_inj {d e : Date} (hd : d.Valid) (he : e.Valid) (h : label d = label e) : d = e := by
  have hread := dateParts_valid hd
  rw [h, dateParts_valid he] at hread
  exact (Option.some.inj hread).symm

/-- Labels in alphabetical order are in calendar order. -/
theorem label_lt_iff (d e : Day) : label d.val < label e.val ↔ d.val.toDays < e.val.toDays := by
  obtain ⟨hdm, hdd⟩ := fields_lt d.2.1
  obtain ⟨hem, hed⟩ := fields_lt e.2.1
  have hyear := @printNumber_cmp 4 d.val.year e.val.year (by have := d.2.2.2; omega)
    (by have := e.2.2.2; omega)
  have hmonth := @printNumber_cmp 2 d.val.month e.val.month hdm hem
  have hday := @printNumber_cmp 2 d.val.day e.val.day hdd hed
  rw [String.lt_iff, toList_label, toList_label,
    append_lt_append_iff (by rw [length_printNumber, length_printNumber]), hyear.1, hyear.2,
    List.cons_lt_cons_iff, append_lt_append_iff (by rw [length_printNumber, length_printNumber]),
    hmonth.1, hmonth.2, List.cons_lt_cons_iff, hday.1, ← Date.before_iff d.2.1 e.2.1, Date.Before]
  simp only [lt_irrefl, false_or, true_and]

theorem label_injective {d e : Day} (h : label d.val = label e.val) : d = e :=
  Subtype.ext (label_inj d.2.1 e.2.1 h)

/-! ## Counting days -/

/-- A day number of the years of four digits. -/
def InYears (n : ℕ) : Prop := daysBeforeYear 1000 ≤ n ∧ n < daysBeforeYear 10000

/-- The day with a day number. -/
def dayAt (n : ℕ) (h : InYears n) : Day :=
  ⟨Date.ofDays n, Date.valid_ofDays n,
    (daysBeforeYear_le_iff (Date.valid_ofDays n) 1000).mp (by rw [Date.toDays_ofDays]; exact h.1),
    Nat.le_of_lt_succ (yearOf_lt h.2)⟩

theorem Day.inYears (d : Day) : InYears d.val.toDays := by
  refine ⟨(daysBeforeYear_le_iff d.2.1 1000).mpr d.2.2.1, ?_⟩
  by_contra hle
  have := (daysBeforeYear_le_iff d.2.1 10000).mp (not_lt.mp hle)
  have := d.2.2.2
  omega

theorem dateUTC_eq (d : Date) : dateUTC d = ((d.toDays : ℤ) - epochDays) * millisPerDay := by
  rw [dateUTC, toInstant]
  simp only [Time.toMillis, millisPerDay]
  omega

theorem utcDate_eq (n : ℕ) : utcDate (((n : ℤ) - epochDays) * millisPerDay) = Date.ofDays n := by
  have hdiv : ((n : ℤ) - epochDays) * millisPerDay / millisPerDay = (n : ℤ) - epochDays :=
    Int.mul_ediv_cancel _ (by decide)
  rw [utcDate, hdiv]
  congr 1
  omega

/-- The subtraction counts days. -/
theorem minusDays_valid {d : Date} (hd : d.Valid) {n : ℕ} (h : n ≤ d.toDays) :
    minusDays (label d) n = label (Date.ofDays (d.toDays - n)) := by
  have hshift : dateUTC d - n * millisPerDay =
      (((d.toDays - n : ℕ) : ℤ) - epochDays) * millisPerDay := by
    rw [dateUTC_eq, Nat.cast_sub h]
    ring
  rw [minusDays, dateParts_valid hd]
  dsimp only
  rw [hshift, utcDate_eq]

theorem minusDays_label (d : Day) {n : ℕ} (h : n ≤ d.val.toDays) :
    minusDays (label d.val) n = label (Date.ofDays (d.val.toDays - n)) := minusDays_valid d.2.1 h

/-- The loop counts the days. -/
theorem daysFrom_eq (a b : ℕ) :
    daysFrom (((a : ℤ) - epochDays) * millisPerDay) (((b : ℤ) - epochDays) * millisPerDay) =
      (List.range' a (b + 1 - a)).map fun n => label (Date.ofDays n) := by
  obtain ⟨k, hk⟩ : ∃ k, b + 1 - a = k := ⟨_, rfl⟩
  induction k generalizing a with
  | zero =>
    have hlt : ¬ ((a : ℤ) - epochDays) * millisPerDay ≤ ((b : ℤ) - epochDays) * millisPerDay := by
      simp only [millisPerDay]
      omega
    rw [hk, daysFrom, if_neg hlt]
    rfl
  | succ k ih =>
    have hle : ((a : ℤ) - epochDays) * millisPerDay ≤ ((b : ℤ) - epochDays) * millisPerDay := by
      simp only [millisPerDay]
      omega
    have hnext : ((a : ℤ) - epochDays) * millisPerDay + millisPerDay =
        (((a + 1 : ℕ) : ℤ) - epochDays) * millisPerDay := by
      push_cast
      ring
    have hrest : b + 1 - (a + 1) = k := by omega
    rw [hk, List.range'_succ, List.map_cons, daysFrom, if_pos hle, utcDate_eq, hnext,
      ih (a + 1) hrest, hrest]

theorem eachBusinessDay_label (f t : Day) : eachBusinessDay (label f.val) (label t.val) =
    (List.range' f.val.toDays (t.val.toDays + 1 - f.val.toDays)).map
      fun n => label (Date.ofDays n) := by
  rw [eachBusinessDay, dateParts_label, dateParts_label]
  dsimp only
  rw [dateUTC_eq, dateUTC_eq, daysFrom_eq]

/-- The days between two days. -/
theorem inYears_between {f t : Day} {n : ℕ} (hf : f.val.toDays ≤ n) (ht : n ≤ t.val.toDays) :
    InYears n :=
  ⟨f.inYears.1.trans hf, lt_of_le_of_lt ht t.inYears.2⟩

theorem mem_eachBusinessDay {f t : Day} {s : String} :
    s ∈ eachBusinessDay (label f.val) (label t.val) ↔
      ∃ d : Day, f.val.toDays ≤ d.val.toDays ∧ d.val.toDays ≤ t.val.toDays ∧ s = label d.val := by
  rw [eachBusinessDay_label, List.mem_map]
  constructor
  · rintro ⟨n, hn, rfl⟩
    obtain ⟨hf, ht⟩ := List.mem_range'_1.mp hn
    have hle : n ≤ t.val.toDays := by omega
    refine ⟨dayAt n (inYears_between hf hle), ?_⟩
    rw [dayAt, Date.toDays_ofDays]
    exact ⟨hf, hle, rfl⟩
  · rintro ⟨d, hf, ht, rfl⟩
    exact ⟨d.val.toDays, List.mem_range'_1.mpr (by omega), by rw [Date.ofDays_toDays d.2.1]⟩

theorem pairwise_eachBusinessDay (f t : Day) :
    (eachBusinessDay (label f.val) (label t.val)).Pairwise (· < ·) := by
  rw [eachBusinessDay_label, List.pairwise_map]
  refine List.Pairwise.imp_of_mem (fun hn hm hlt => ?_) List.pairwise_lt_range'
  obtain ⟨hfn, htn⟩ := List.mem_range'_1.mp hn
  obtain ⟨hfm, htm⟩ := List.mem_range'_1.mp hm
  have h := label_lt_iff (dayAt _ (inYears_between hfn (t := t) (by omega)))
    (dayAt _ (inYears_between hfm (t := t) (by omega)))
  rw [dayAt, dayAt, Date.toDays_ofDays, Date.toDays_ofDays] at h
  exact h.mpr hlt

theorem length_eachBusinessDay (f t : Day) : (eachBusinessDay (label f.val) (label t.val)).length =
    t.val.toDays + 1 - f.val.toDays := by
  rw [eachBusinessDay_label, List.length_map, List.length_range']

/-- The span of a range is the number of its days. -/
theorem spanInDays_label {f t : Day} (h : f.val.toDays ≤ t.val.toDays) :
    spanInDays (label f.val) (label t.val) =
      some ((eachBusinessDay (label f.val) (label t.val)).length : ℤ) := by
  have hdiff : dateUTC t.val - dateUTC f.val =
      ((t.val.toDays : ℤ) - f.val.toDays) * millisPerDay := by
    rw [dateUTC_eq, dateUTC_eq]
    ring
  have hdiv : (dateUTC t.val - dateUTC f.val) / millisPerDay =
      (t.val.toDays : ℤ) - f.val.toDays := by
    rw [hdiff]
    exact Int.mul_ediv_cancel _ (by decide)
  rw [spanInDays, dateParts_label, dateParts_label, length_eachBusinessDay]
  dsimp only
  rw [hdiv, Option.some.injEq]
  omega

/-- One subtraction after the other. -/
theorem minusDays_add {d : Day} {a b : ℕ} (h : daysBeforeYear 1000 + (a + b) ≤ d.val.toDays) :
    minusDays (minusDays (label d.val) a) b = minusDays (label d.val) (a + b) := by
  have hyears : InYears (d.val.toDays - a) := ⟨by omega, by have := d.inYears.2; omega⟩
  have hagain := minusDays_label (dayAt _ hyears) (n := b)
  rw [dayAt, Date.toDays_ofDays] at hagain
  rw [minusDays_label d (by omega), minusDays_label d (by omega), hagain (by omega), Nat.sub_sub]

/-- Yesterday stands before today in every range. -/
theorem minusDays_pred {f t : Day} {i : ℕ} {s s' : String}
    (h : (eachBusinessDay (label f.val) (label t.val))[i]? = some s)
    (h' : (eachBusinessDay (label f.val) (label t.val))[i + 1]? = some s') :
    minusDays s' 1 = s := by
  rw [eachBusinessDay_label, List.getElem?_map, Option.map_eq_some_iff] at h h'
  obtain ⟨n, hn, rfl⟩ := h
  obtain ⟨m, hm, rfl⟩ := h'
  have hlength := (List.getElem?_eq_some_iff.mp hm).1
  rw [List.length_range'] at hlength
  rw [List.getElem?_range' (by omega), Option.some.injEq] at hn
  rw [List.getElem?_range' hlength, Option.some.injEq] at hm
  have hyears : InYears m := inYears_between (f := f) (t := t) (by omega) (by omega)
  have hpred := minusDays_label (dayAt m hyears) (n := 1)
  rw [dayAt, Date.toDays_ofDays] at hpred
  rw [hpred (by omega)]
  congr 2
  omega

/-! ## Following the clock -/

/-- The hours that the clock has counted. -/
def WallClock.hours (w : WallClock) : ℕ := w.date.toDays * 24 + w.hour

/-- A local wall clock that never runs backwards. -/
structure LocalClock where
  read : Instant → WallClock
  valid : ∀ i, (read i).date.Valid
  hour_lt : ∀ i, (read i).hour < 24
  forward : ∀ i j, i ≤ j → (read i).hours ≤ (read j).hours

/-- The label that is written at this instant has a year of four digits. -/
def LocalClock.Writes (clock : LocalClock) (startHour : Fin 24) (i : Instant) : Prop :=
  1000 ≤ (businessDate (clock.read i) startHour).year ∧
    (businessDate (clock.read i) startHour).year ≤ 9999

/-- The business day of a reading: the clock stands between two openings. -/
theorem businessDate_spec (clock : LocalClock) {startHour : Fin 24} {i : Instant}
    (h : clock.Writes startHour i) :
    ∃ d : Day, businessDate (clock.read i) startHour = d.val ∧
      d.val.toDays * 24 + startHour ≤ (clock.read i).hours ∧
      (clock.read i).hours < (d.val.toDays + 1) * 24 + startHour := by
  have hhour := clock.hour_lt i
  have hstart := startHour.isLt
  rw [LocalClock.Writes] at h
  rw [WallClock.hours]
  by_cases hopen : (startHour : ℕ) ≤ (clock.read i).hour
  · have hdate : businessDate (clock.read i) startHour = (clock.read i).date := if_pos hopen
    rw [hdate] at h ⊢
    refine ⟨⟨(clock.read i).date, clock.valid i, h⟩, rfl, ?_⟩
    dsimp only
    omega
  · have hdate : businessDate (clock.read i) startHour =
        utcDate (dateUTC (clock.read i).date - millisPerDay) := if_neg hopen
    by_cases hzero : (clock.read i).date.toDays = 0
    · -- there is no day before the first one
      have hfirst : utcDate (dateUTC (clock.read i).date - millisPerDay) = Date.ofDays 0 := by
        rw [dateUTC_eq, hzero]
        rfl
      have hyear : (Date.ofDays 0).year = 0 := by decide
      rw [hdate, hfirst, hyear] at h
      omega
    · have hshift : dateUTC (clock.read i).date - millisPerDay =
          ((((clock.read i).date.toDays - 1 : ℕ) : ℤ) - epochDays) * millisPerDay := by
        rw [dateUTC_eq, Nat.cast_sub (by omega)]
        push_cast
        ring
      rw [hdate, hshift, utcDate_eq] at h ⊢
      refine ⟨⟨Date.ofDays ((clock.read i).date.toDays - 1), Date.valid_ofDays _, h⟩, rfl, ?_⟩
      rw [Date.toDays_ofDays]
      omega

/-- The label covers what lies between two openings. -/
theorem businessDayOf_eq_iff (clock : LocalClock) {startHour : Fin 24} {i : Instant}
    (h : clock.Writes startHour i) (d : Day) :
    businessDayOf clock.read startHour i = label d.val ↔
      d.val.toDays * 24 + startHour ≤ (clock.read i).hours ∧
        (clock.read i).hours < (d.val.toDays + 1) * 24 + startHour := by
  obtain ⟨e, he, hlow, hhigh⟩ := businessDate_spec clock h
  rw [businessDayOf, he]
  constructor
  · intro heq
    rw [← label_injective heq]
    exact ⟨hlow, hhigh⟩
  · intro hd
    have hdays : e.val.toDays = d.val.toDays := by omega
    rw [Date.eq_of_toDays e.2.1 d.2.1 hdays]

theorem businessDayOf_mono (clock : LocalClock) {startHour : Fin 24} {i j : Instant}
    (hij : i ≤ j) (hi : clock.Writes startHour i) (hj : clock.Writes startHour j) :
    businessDayOf clock.read startHour i ≤ businessDayOf clock.read startHour j := by
  obtain ⟨d, hd, hlow, -⟩ := businessDate_spec clock hi
  obtain ⟨e, he, -, hhigh⟩ := businessDate_spec clock hj
  have hforward := clock.forward i j hij
  rw [businessDayOf, businessDayOf, hd, he]
  refine not_lt.mp fun hlt => ?_
  have := (label_lt_iff e d).mp hlt
  omega

/-- **The calendar of business days.** A range is the increasing list of its dates, as many as it
spans, and empty if it is inverted; alphabetical order is calendar order; subtractions of days
add up, and one day is subtracted by going to what stands before in any range; and business days
follow a clock that never runs backwards, each from one opening to the next. -/
theorem business_day_calendar :
    (∀ f t : Day,
      (eachBusinessDay (label f.val) (label t.val)).Pairwise (· < ·) ∧
      (∀ s, s ∈ eachBusinessDay (label f.val) (label t.val) ↔ ∃ d : Day,
        f.val.toDays ≤ d.val.toDays ∧ d.val.toDays ≤ t.val.toDays ∧ s = label d.val) ∧
      (eachBusinessDay (label f.val) (label t.val) = [] ↔ t.val.toDays < f.val.toDays) ∧
      (f.val.toDays ≤ t.val.toDays → spanInDays (label f.val) (label t.val) =
        some ((eachBusinessDay (label f.val) (label t.val)).length : ℤ)) ∧
      ∀ i s s', (eachBusinessDay (label f.val) (label t.val))[i]? = some s →
        (eachBusinessDay (label f.val) (label t.val))[i + 1]? = some s' → minusDays s' 1 = s) ∧
    (∀ d e : Day, (label d.val < label e.val ↔ d.val.toDays < e.val.toDays) ∧
      (label d.val < label e.val ↔ d.val.Before e.val)) ∧
    (∀ (d : Day) (a b : ℕ), daysBeforeYear 1000 + (a + b) ≤ d.val.toDays →
      minusDays (minusDays (label d.val) a) b = minusDays (label d.val) (a + b)) ∧
    ∀ (clock : LocalClock) (startHour : Fin 24),
      (∀ i j, i ≤ j → clock.Writes startHour i → clock.Writes startHour j →
        businessDayOf clock.read startHour i ≤ businessDayOf clock.read startHour j) ∧
      ∀ i, clock.Writes startHour i → ∀ d : Day,
        (businessDayOf clock.read startHour i = label d.val ↔
          d.val.toDays * 24 + startHour ≤ (clock.read i).hours ∧
            (clock.read i).hours < (d.val.toDays + 1) * 24 + startHour) := by
  refine ⟨fun f t => ⟨pairwise_eachBusinessDay f t, fun s => mem_eachBusinessDay, ?_,
    spanInDays_label, fun i s s' => minusDays_pred⟩, fun d e => ⟨label_lt_iff d e, ?_⟩,
    fun d a b => minusDays_add, fun clock startHour => ⟨fun i j => businessDayOf_mono clock,
      fun i hi => businessDayOf_eq_iff clock hi⟩⟩
  · rw [← List.length_eq_zero_iff, length_eachBusinessDay]
    omega
  · rw [label_lt_iff, Date.before_iff d.2.1 e.2.1]

end CafePos
