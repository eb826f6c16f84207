import CafePos.Text.Calendar

/-!
# The order of dates

Dates of the calendar in the order of year, month and day are in the order of their day numbers,
and so are their texts, as long as every field has its full width. So a date is found again from
its day number, and a list of texts in alphabetical order is one in calendar order.
-/

namespace Text

/-! ## Day numbers -/

theorem daysBeforeYear_mono : Monotone daysBeforeYear := by
  refine monotone_nat_of_le_succ fun y => ?_
  rw [daysBeforeYear_succ]
  exact Nat.le_add_right ..

theorem daysBeforeMonth_succ {y m : ℕ} (hm : 1 ≤ m) :
    daysBeforeMonth y (m + 1) = daysBeforeMonth y m + daysInMonth y m := by
  obtain ⟨m, rfl⟩ := Nat.exists_eq_add_of_le' hm
  rfl

theorem daysBeforeMonth_mono (y : ℕ) : Monotone (daysBeforeMonth y) := by
  refine monotone_nat_of_le_succ fun m => ?_
  cases m with
  | zero => exact le_refl _
  | succ m =>
    rw [daysBeforeMonth_succ (Nat.le_add_left ..)]
    exact Nat.le_add_right ..

/-- The day of its year, counted from 0. -/
def Date.dayOfYear (d : Date) : ℕ := daysBeforeMonth d.year d.month + (d.day - 1)

theorem Date.toDays_eq (d : Date) : d.toDays = daysBeforeYear d.year + d.dayOfYear := by
  rw [toDays, dayOfYear, Nat.add_assoc]

theorem Date.dayOfYear_lt {d : Date} (h : d.Valid) :
    d.dayOfYear < daysBeforeMonth d.year (d.month + 1) := by
  obtain ⟨hmonth, -, hday, hday'⟩ := h
  rw [daysBeforeMonth_succ hmonth, dayOfYear]
  omega

theorem Date.toDays_lt {d : Date} (h : d.Valid) : d.toDays < daysBeforeYear (d.year + 1) := by
  have hday := dayOfYear_lt h
  have hmonth := daysBeforeMonth_mono d.year (show d.month + 1 ≤ 13 by have := h.2.1; omega)
  rw [daysBeforeMonth_thirteen] at hmonth
  rw [daysBeforeYear_succ, toDays_eq]
  omega

/-- The order of year, month and day. -/
def Date.Before (d e : Date) : Prop :=
  d.year < e.year ∨ d.year = e.year ∧ (d.month < e.month ∨ d.month = e.month ∧ d.day < e.day)

theorem Date.toDays_lt_of_before {d e : Date} (hd : d.Valid) (h : d.Before e) :
    d.toDays < e.toDays := by
  rcases h with hyear | ⟨hyear, hmonth | ⟨hmonth, hday⟩⟩
  · have hmono := daysBeforeYear_mono (show d.year + 1 ≤ e.year from hyear)
    have hlt := toDays_lt hd
    rw [e.toDays_eq]
    omega
  · have hlt := dayOfYear_lt hd
    have hmono := daysBeforeMonth_mono d.year (show d.month + 1 ≤ e.month from hmonth)
    have he : e.dayOfYear = daysBeforeMonth d.year e.month + (e.day - 1) := by
      rw [dayOfYear, hyear]
    rw [toDays_eq, toDays_eq, ← hyear, he]
    omega
  · have := hd.2.2.1
    rw [toDays, toDays, ← hyear, ← hmonth]
    omega

theorem Date.before_trichotomy (d e : Date) : d.Before e ∨ d = e ∨ e.Before d := by
  obtain ⟨y, m, n⟩ := d
  obtain ⟨y', m', n'⟩ := e
  simp only [Before, mk.injEq]
  omega

/-- Dates of the calendar come in the order of their day numbers. -/
theorem Date.before_iff {d e : Date} (hd : d.Valid) (he : e.Valid) :
    d.Before e ↔ d.toDays < e.toDays := by
  refine ⟨toDays_lt_of_before hd, fun hlt => ?_⟩
  rcases before_trichotomy d e with h | rfl | h
  · exact h
  · exact absurd hlt (lt_irrefl _)
  · exact absurd (toDays_lt_of_before he h) (not_lt.mpr hlt.le)

theorem Date.eq_of_toDays {d e : Date} (hd : d.Valid) (he : e.Valid) (h : d.toDays = e.toDays) :
    d = e := by
  rcases before_trichotomy d e with hlt | rfl | hlt
  · exact absurd (toDays_lt_of_before hd hlt) (by omega)
  · rfl
  · exact absurd (toDays_lt_of_before he hlt) (by omega)

/-- A date is found again from its day number. -/
theorem Date.ofDays_toDays {d : Date} (h : d.Valid) : Date.ofDays d.toDays = d :=
  eq_of_toDays (valid_ofDays _) h (toDays_ofDays _)

/-- The first day of a year. -/
theorem daysBeforeYear_le_iff {d : Date} (h : d.Valid) (y : ℕ) :
    daysBeforeYear y ≤ d.toDays ↔ y ≤ d.year := by
  constructor
  · intro hle
    by_contra hlt
    have hmono := daysBeforeYear_mono (show d.year + 1 ≤ y by omega)
    have := Date.toDays_lt h
    omega
  · intro hle
    have hmono := daysBeforeYear_mono hle
    rw [d.toDays_eq]
    omega

/-! ## Texts in order -/

theorem append_lt_append_iff {xs ys as bs : List Char} (h : xs.length = ys.length) :
    xs ++ as < ys ++ bs ↔ xs < ys ∨ xs = ys ∧ as < bs := by
  induction xs generalizing ys with
  | nil =>
    obtain rfl := List.eq_nil_of_length_eq_zero h.symm
    simp
  | cons x xs ih =>
    cases ys with
    | nil => cases h
    | cons y ys =>
      rw [List.cons_append, List.cons_append, List.cons_lt_cons_iff, List.cons_lt_cons_iff,
        ih (Nat.succ.inj h), List.cons.injEq]
      constructor
      · rintro (hlt | ⟨rfl, hlt | ⟨rfl, hlt⟩⟩)
        · exact Or.inl (Or.inl hlt)
        · exact Or.inl (Or.inr ⟨rfl, hlt⟩)
        · exact Or.inr ⟨⟨rfl, rfl⟩, hlt⟩
      · rintro ((hlt | ⟨rfl, hlt⟩) | ⟨⟨rfl, rfl⟩, hlt⟩)
        · exact Or.inl hlt
        · exact Or.inr ⟨rfl, Or.inl hlt⟩
        · exact Or.inr ⟨rfl, Or.inr ⟨rfl, hlt⟩⟩

theorem length_printNumber (base width n : ℕ) : (printNumber base width n).length = width := by
  induction width generalizing n with
  | zero => rfl
  | succ width ih => rw [printNumber, List.length_append, ih, List.length_singleton]

theorem digitChar_lt_iff {a b : ℕ} (ha : a < 10) (hb : b < 10) :
    Nat.digitChar a < Nat.digitChar b ↔ a < b := by
  have h : ∀ a < 10, ∀ b < 10, (Nat.digitChar a < Nat.digitChar b ↔ a < b) := by decide
  exact h a ha b hb

theorem digitChar_inj {a b : ℕ} (ha : a < 10) (hb : b < 10) :
    Nat.digitChar a = Nat.digitChar b ↔ a = b := by
  have h : ∀ a < 10, ∀ b < 10, (Nat.digitChar a = Nat.digitChar b ↔ a = b) := by decide
  exact h a ha b hb

/-- Numbers of one width are in the order of their texts. -/
theorem printNumber_cmp {width n m : ℕ} (hn : n < 10 ^ width) (hm : m < 10 ^ width) :
    (printNumber 10 width n < printNumber 10 width m ↔ n < m) ∧
      (printNumber 10 width n = printNumber 10 width m ↔ n = m) := by
  induction width generalizing n m with
  | zero =>
    have hn0 : n = 0 := by omega
    have hm0 : m = 0 := by omega
    subst hn0 hm0
    simp
  | succ width ih =>
    have hpow : 10 ^ (width + 1) = 10 * 10 ^ width := Nat.pow_succ'
    obtain ⟨hlt, heq⟩ := ih (n := n / 10) (m := m / 10) (by omega) (by omega)
    have hdn : n % 10 < 10 := Nat.mod_lt _ (by decide)
    have hdm : m % 10 < 10 := Nat.mod_lt _ (by decide)
    rw [printNumber, printNumber]
    constructor
    · rw [append_lt_append_iff (by rw [length_printNumber, length_printNumber]), hlt, heq,
        List.cons_lt_cons_iff, digitChar_lt_iff hdn hdm]
      simp only [List.lt_irrefl, and_false, or_false]
      omega
    · constructor
      · intro h
        obtain ⟨hinit, hlast⟩ := List.append_inj' h rfl
        have hmod := (digitChar_inj hdn hdm).mp (List.cons.inj hlast).1
        have hdiv := heq.mp hinit
        omega
      · rintro rfl
        rfl

end Text
