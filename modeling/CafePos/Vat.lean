import CafePos.Reporting

/-!
# VAT

`extractVat` (`orders/pricing/order-pricing.ts`) over every rate that `VAT_BASIS_POINTS` admits:
which integer it is, how it moves with the total and with the rate, and how far the VAT that a
daily roll-up adds up may be from the VAT of the day's total.
-/

namespace CafePos

/-- The rates that `VAT_BASIS_POINTS` admits. -/
def isVatRate (vatBasisPoints : ℤ) : Prop := 0 ≤ vatBasisPoints ∧ vatBasisPoints ≤ 10000

instance (vatBasisPoints : ℤ) : Decidable (isVatRate vatBasisPoints) :=
  inferInstanceAs (Decidable (_ ∧ _))

/-- The VAT in a total, before it is rounded. -/
def exactVat (totalMinor vatBasisPoints : ℤ) : ℚ :=
  (totalMinor * vatBasisPoints : ℚ) / (10000 + vatBasisPoints)

/-- The integer nearest to a rational, the upper one of two. -/
structure IsNearestUp (q : ℚ) (n : ℤ) : Prop where
  nearest : ∀ k : ℤ, |q - n| ≤ |q - k|
  up : ∀ k : ℤ, |q - k| = |q - n| → k ≤ n

/-! ## Rounding -/

/-- `Math.round` of a quotient is the rounding of rationals. -/
theorem roundDiv_eq_round {n d : ℤ} (hd : 0 < d) : roundDiv n d = round ((n : ℚ) / d) := by
  have hdq : (d : ℚ) ≠ 0 := by exact_mod_cast hd.ne'
  have hnat : (((2 * d).toNat : ℕ) : ℤ) = 2 * d := Int.toNat_of_nonneg (by omega)
  have hcast : (((2 * d).toNat : ℕ) : ℚ) = 2 * d := by exact_mod_cast hnat
  have hsum : (n : ℚ) / d + 1 / 2 = ((2 * n + d : ℤ) : ℚ) / ((2 * d).toNat : ℕ) := by
    rw [hcast]
    push_cast
    field_simp
  rw [roundDiv, round_eq, hsum, Rat.floor_intCast_div_natCast, hnat]

theorem isNearestUp_round (q : ℚ) : IsNearestUp q (round q) := by
  refine ⟨round_le q, fun k hk => ?_⟩
  by_contra hlt
  obtain ⟨-, hq⟩ := round_eq_iff.mp (rfl : round q = round q)
  have hnext : ((round q : ℤ) : ℚ) + 1 ≤ k := by
    exact_mod_cast Int.lt_iff_add_one_le.mp (not_le.mp hlt)
  have hhalf := abs_sub_round q
  have hneg : q - k < 0 := by linarith
  rw [abs_of_neg hneg] at hk
  linarith

/-! ## One total -/

section rate

variable {t t' bp bp' : ℤ}

/-- What is added to 1 in the denominator. -/
theorem denominator_pos (hbp : 0 ≤ bp) : (0 : ℚ) < 10000 + bp := by
  have : (0 : ℚ) ≤ bp := by exact_mod_cast hbp
  linarith

theorem extractVat_eq_round (hbp : 0 ≤ bp) : extractVat t bp = round (exactVat t bp) := by
  rw [extractVat, roundDiv_eq_round (by omega), exactVat]
  push_cast
  rfl

theorem exactVat_mono (hbp : 0 ≤ bp) (ht : t ≤ t') : exactVat t bp ≤ exactVat t' bp := by
  have hq : (t : ℚ) ≤ t' := by exact_mod_cast ht
  have hrate : (0 : ℚ) ≤ bp := by exact_mod_cast hbp
  exact div_le_div_of_nonneg_right (mul_le_mul_of_nonneg_right hq hrate) (denominator_pos hbp).le

/-- A higher rate carves out more: it is in the numerator and in the denominator. -/
theorem exactVat_rate_mono (ht : 0 ≤ t) (hbp : 0 ≤ bp) (hle : bp ≤ bp') :
    exactVat t bp ≤ exactVat t bp' := by
  have htq : (0 : ℚ) ≤ t := by exact_mod_cast ht
  have hq : (bp : ℚ) ≤ bp' := by exact_mod_cast hle
  rw [exactVat, exactVat, div_le_div_iff₀ (denominator_pos hbp) (denominator_pos (hbp.trans hle))]
  calc (t : ℚ) * bp * (10000 + bp') = t * (10000 * bp) + t * bp * bp' := by ring
    _ ≤ t * (10000 * bp') + t * bp * bp' := by gcongr
    _ = t * bp' * (10000 + bp) := by ring

theorem exactVat_nonneg (ht : 0 ≤ t) (hbp : 0 ≤ bp) : 0 ≤ exactVat t bp := by
  have htq : (0 : ℚ) ≤ t := by exact_mod_cast ht
  have hrate : (0 : ℚ) ≤ bp := by exact_mod_cast hbp
  exact div_nonneg (mul_nonneg htq hrate) (denominator_pos hbp).le

theorem exactVat_le (ht : 0 ≤ t) (hbp : 0 ≤ bp) : exactVat t bp ≤ t := by
  have htq : (0 : ℚ) ≤ t := by exact_mod_cast ht
  rw [exactVat, div_le_iff₀ (denominator_pos hbp)]
  linarith

/-- Rounding keeps the order. -/
theorem round_mono_rat {p q : ℚ} (h : p ≤ q) : round p ≤ round q := by
  rw [round_eq, round_eq]
  exact Int.floor_mono (by linarith)

theorem extractVat_nonneg (ht : 0 ≤ t) (hbp : 0 ≤ bp) : 0 ≤ extractVat t bp := by
  rw [extractVat_eq_round hbp]
  simpa using round_mono_rat (exactVat_nonneg ht hbp)

theorem extractVat_le (ht : 0 ≤ t) (hbp : 0 ≤ bp) : extractVat t bp ≤ t := by
  rw [extractVat_eq_round hbp]
  simpa using round_mono_rat (exactVat_le ht hbp)

/-! ## Many totals -/

theorem exactVat_sum (ts : List ℤ) :
    (ts.map fun t => exactVat t bp).sum = exactVat ts.sum bp := by
  induction ts with
  | nil => simp [exactVat]
  | cons t ts ih =>
    rw [List.map_cons, List.sum_cons, ih, List.sum_cons, exactVat, exactVat, exactVat]
    push_cast
    ring

/-- Each total contributes half a unit of error at most. -/
theorem abs_sum_sub_exactVat_le (hbp : 0 ≤ bp) (ts : List ℤ) :
    |exactVat ts.sum bp - ((ts.map fun t => extractVat t bp).sum : ℤ)| ≤ ts.length / 2 := by
  rw [← exactVat_sum]
  induction ts with
  | nil => simp
  | cons t ts ih =>
    simp only [List.map_cons, List.sum_cons, List.length_cons]
    have hone : |exactVat t bp - extractVat t bp| ≤ 1 / 2 := by
      rw [extractVat_eq_round hbp]
      exact abs_sub_round _
    push_cast at ih ⊢
    calc |exactVat t bp + (ts.map fun t => exactVat t bp).sum -
          (extractVat t bp + ((ts.map fun t => extractVat t bp).map (Int.cast : ℤ → ℚ)).sum)|
        = |(exactVat t bp - extractVat t bp) + ((ts.map fun t => exactVat t bp).sum -
          ((ts.map fun t => extractVat t bp).map (Int.cast : ℤ → ℚ)).sum)| := by ring_nf
      _ ≤ 1 / 2 + ts.length / 2 := (abs_add_le _ _).trans (add_le_add hone ih)
      _ = (ts.length + 1) / 2 := by ring

/-- The VAT that was stored, total by total, and the VAT of the sum. -/
theorem abs_sum_sub_extractVat_le (hbp : 0 ≤ bp) (ts : List ℤ) :
    2 * |(ts.map fun t => extractVat t bp).sum - extractVat ts.sum bp| ≤ ts.length + 1 := by
  have hsum := abs_sum_sub_exactVat_le hbp ts
  have hone : |exactVat ts.sum bp - extractVat ts.sum bp| ≤ 1 / 2 := by
    rw [extractVat_eq_round hbp]
    exact abs_sub_round _
  rw [abs_le] at hsum hone
  have hq : 2 * |(((ts.map fun t => extractVat t bp).sum - extractVat ts.sum bp : ℤ) : ℚ)| ≤
      ts.length + 1 := by
    have habs : |(((ts.map fun t => extractVat t bp).sum - extractVat ts.sum bp : ℤ) : ℚ)| ≤
        (ts.length + 1) / 2 := by
      rw [abs_le]
      push_cast at hsum ⊢
      constructor
      · linarith [hsum.1, hone.2]
      · linarith [hsum.2, hone.1]
    linarith
  exact_mod_cast hq

end rate

/-- At every rate that is admitted: the VAT of a total is the integer nearest to
`t * bp / (10000 + bp)`, the upper one of two; it lies between 0 and the total, and does not fall
when the total or the rate rises. Over any totals, what their VATs add up to is within
`(n + 1) / 2` of the VAT of their sum; and so is what a day's roll-up reports, if its orders were
priced at this rate. -/
theorem extractVat_exact {bp : ℤ} (hbp : isVatRate bp) :
    (∀ t, 0 ≤ t → IsNearestUp (exactVat t bp) (extractVat t bp) ∧
      0 ≤ extractVat t bp ∧ extractVat t bp ≤ t) ∧
    (∀ t t', 0 ≤ t → t ≤ t' → extractVat t bp ≤ extractVat t' bp) ∧
    (∀ t bp', 0 ≤ t → isVatRate bp' → bp ≤ bp' → extractVat t bp ≤ extractVat t bp') ∧
    (∀ ts : List ℤ, (∀ t ∈ ts, 0 ≤ t) →
      2 * |(ts.map fun t => extractVat t bp).sum - extractVat ts.sum bp| ≤ ts.length + 1) ∧
    ∀ (db : Db) (localeCompare : String → String → Ordering) (day : String),
      (∀ e ∈ db.settledOn day, e.2.vatMinor = extractVat e.2.totalMinor bp) →
      2 * |(buildRollupRow localeCompare day (aggregateDay db day)).vatMinor -
          extractVat ((db.settledOn day).map fun e => e.2.totalMinor).sum bp| ≤
        (aggregateDay db day).ordersSettled + 1 := by
  have hpos := hbp.1
  refine ⟨fun t ht => ⟨?_, extractVat_nonneg ht hpos, extractVat_le ht hpos⟩, fun t t' _ hle => ?_,
    fun t bp' ht hbp' hle => ?_, fun ts _ => abs_sum_sub_extractVat_le hpos ts,
    fun db localeCompare day hstored => ?_⟩
  · rw [extractVat_eq_round hpos]
    exact isNearestUp_round _
  · rw [extractVat_eq_round hpos, extractVat_eq_round hpos]
    exact round_mono_rat (exactVat_mono hpos hle)
  · rw [extractVat_eq_round hpos, extractVat_eq_round hbp'.1]
    exact round_mono_rat (exactVat_rate_mono ht hpos hle)
  · have hbound := abs_sum_sub_extractVat_le hpos ((db.settledOn day).map fun e => e.2.totalMinor)
    rw [List.map_map, List.length_map] at hbound
    have hmap : (db.settledOn day).map (fun e => e.2.vatMinor) =
        (db.settledOn day).map ((fun t => extractVat t bp) ∘ fun e => e.2.totalMinor) :=
      List.map_congr_left hstored
    rw [← hmap] at hbound
    exact hbound

/-- At 7%, three coffees at 90 baht carry 589 satang of VAT each, and 1766 together. -/
theorem extractVat_exact_coffees : isVatRate 700 ∧
    [9000, 9000, 9000].map (extractVat · 700) = [589, 589, 589] ∧ extractVat 27000 700 = 1766 ∧
    2 * |([9000, 9000, 9000].map (extractVat · 700)).sum -
      extractVat [9000, 9000, 9000].sum 700| ≤ 4 := by
  refine ⟨by decide, by decide, by decide, ?_⟩
  exact (extractVat_exact (show isVatRate 700 by decide)).2.2.2.1 [9000, 9000, 9000] (by decide)

end CafePos
