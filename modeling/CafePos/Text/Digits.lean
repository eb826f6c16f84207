import Mathlib

/-!
# Numbers in text

Two ways to write a number: in decimal, as long as it takes (`printInt`), and with a fixed number
of digits of some base up to 16, as the parts of a date or of a UUID are written. A text of
the second kind is described by a list of fields, numbers and literal characters; `print`
writes one and `scan` reads it, and a text that was written reads back (`scan_print`).
-/

namespace Text

/-! ## Digits -/

/-- The value of a digit of a base up to 16; letters in either case. -/
def digitValue (base : ℕ) (c : Char) : Option ℕ :=
  let v := if c.isDigit then c.toNat - 48
    else if 'a' ≤ c ∧ c ≤ 'f' then c.toNat - 87
    else if 'A' ≤ c ∧ c ≤ 'F' then c.toNat - 55
    else base
  if v < base then some v else none

/-- Every digit has its value. -/
theorem digitValue_digitChar {base d : ℕ} (hbase : base ≤ 16) (hd : d < base) :
    digitValue base (Nat.digitChar d) = some d := by
  have hd16 : d < 16 := Nat.lt_of_lt_of_le hd hbase
  have hv : ∀ d < 16, (if (Nat.digitChar d).isDigit then (Nat.digitChar d).toNat - 48
      else if 'a' ≤ Nat.digitChar d ∧ Nat.digitChar d ≤ 'f' then (Nat.digitChar d).toNat - 87
      else if 'A' ≤ Nat.digitChar d ∧ Nat.digitChar d ≤ 'F' then (Nat.digitChar d).toNat - 55
      else base) = d := by
    intro d hd
    interval_cases d <;> rfl
  simp only [digitValue, hv d hd16, hd, if_true]

/-! ## Numbers of a fixed width -/

/-- `n`, with `width` digits. -/
def printNumber (base : ℕ) : ℕ → ℕ → List Char
  | 0, _ => []
  | width + 1, n => printNumber base width (n / base) ++ [Nat.digitChar (n % base)]

/-- The number that `width` digits stand for after `acc`, and the rest of the text. -/
def scanNumber (base : ℕ) : ℕ → ℕ → List Char → Option (ℕ × List Char)
  | 0, acc, cs => some (acc, cs)
  | _ + 1, _, [] => none
  | width + 1, acc, c :: cs =>
    (digitValue base c).bind fun d => scanNumber base width (acc * base + d) cs

theorem scanNumber_append {base : ℕ} (hbase : base ≤ 16) (width d acc : ℕ) (hd : d < base)
    {n : ℕ} {xs rest : List Char}
    (h : ∀ rest, scanNumber base width acc (xs ++ rest) = some (n, rest)) :
    scanNumber base (width + 1) acc (xs ++ [Nat.digitChar d] ++ rest) =
      some (n * base + d, rest) := by
  induction width generalizing acc xs with
  | zero =>
    have hnil := h []
    simp only [scanNumber, Option.some.injEq, Prod.mk.injEq, List.append_nil] at hnil
    obtain ⟨rfl, rfl⟩ := hnil
    simp [scanNumber, digitValue_digitChar hbase hd]
  | succ width ih =>
    cases xs with
    | nil =>
      have hnil := h []
      simp [scanNumber] at hnil
    | cons c xs =>
      have hhead := h []
      simp only [List.append_nil, scanNumber, Option.bind_eq_some_iff] at hhead
      obtain ⟨v, hv, -⟩ := hhead
      have htail : ∀ rest, scanNumber base width (acc * base + v) (xs ++ rest) =
          some (n, rest) := by
        intro rest
        have := h rest
        simpa [scanNumber, hv] using this
      have := ih (acc * base + v) htail
      rw [scanNumber.eq_def]
      simpa [hv] using this

/-- A number that was written with enough digits reads back. -/
theorem scanNumber_printNumber {base : ℕ} (hbase : base ≤ 16) {width n : ℕ}
    (hn : n < base ^ width) (rest : List Char) :
    scanNumber base width 0 (printNumber base width n ++ rest) = some (n, rest) := by
  induction width generalizing n rest with
  | zero =>
    obtain rfl : n = 0 := by simpa using hn
    rfl
  | succ width ih =>
    have hpos : 0 < base := by
      rcases Nat.eq_zero_or_pos base with rfl | h
      · simp at hn
      · exact h
    have hdiv : n / base < base ^ width := by
      rw [Nat.div_lt_iff_lt_mul hpos, ← pow_succ]
      exact hn
    rw [printNumber, scanNumber_append hbase width (n % base) 0 (Nat.mod_lt _ hpos) (ih hdiv),
      Nat.div_add_mod']

/-! ## Texts with a fixed layout -/

/-- A part of a text. -/
inductive Field where
  /-- a number with this many digits -/
  | number (base width : ℕ)
  /-- one character -/
  | literal (c : Char)

/-- The text with these numbers. -/
def print : List Field → List ℕ → List Char
  | [], _ => []
  | .literal c :: fields, ns => c :: print fields ns
  | .number base width :: fields, n :: ns => printNumber base width n ++ print fields ns
  | .number base width :: fields, [] => printNumber base width 0 ++ print fields []

/-- The numbers of a text that has exactly these fields. -/
def scan : List Field → List Char → Option (List ℕ)
  | [], [] => some []
  | [], _ :: _ => none
  | .literal _ :: _, [] => none
  | .literal c :: fields, c' :: cs => if c' = c then scan fields cs else none
  | .number base width :: fields, cs =>
    (scanNumber base width 0 cs).bind fun r => (scan fields r.2).map (r.1 :: ·)

/-- There is a number for every field, with no more digits than the field has. -/
def Fits : List Field → List ℕ → Prop
  | [], [] => True
  | [], _ :: _ => False
  | .literal _ :: fields, ns => Fits fields ns
  | .number _ _ :: _, [] => False
  | .number base width :: fields, n :: ns => base ≤ 16 ∧ n < base ^ width ∧ Fits fields ns

/-- What was written reads back. -/
theorem scan_print {fields : List Field} {ns : List ℕ} (h : Fits fields ns) :
    scan fields (print fields ns) = some ns := by
  induction fields generalizing ns with
  | nil =>
    cases ns with
    | nil => rfl
    | cons => exact h.elim
  | cons field fields ih =>
    cases field with
    | literal c => simpa [print, scan] using ih h
    | number base width =>
      cases ns with
      | nil => exact h.elim
      | cons n ns =>
        obtain ⟨hbase, hn, h⟩ := h
        simp [print, scan, scanNumber_printNumber hbase hn, ih h]

/-! ## Integers in decimal -/

/-- An integer in decimal. -/
def printInt (n : ℤ) : List Char :=
  if n < 0 then '-' :: Nat.toDigits 10 n.natAbs else Nat.toDigits 10 n.natAbs

/-- `^\d+$`, and the number. -/
def scanNat (cs : List Char) : Option ℕ :=
  if cs ≠ [] ∧ cs.all Char.isDigit then some (Nat.ofDigitChars 10 cs 0) else none

/-- `^-?\d+$`, and the number. -/
def scanInt : List Char → Option ℤ
  | '-' :: cs => (scanNat cs).map fun n : ℕ => -(n : ℤ)
  | cs => (scanNat cs).map fun n : ℕ => (n : ℤ)

theorem isDigit_toDigits {n : ℕ} {c : Char} (h : c ∈ Nat.toDigits 10 n) : c.isDigit :=
  Nat.isDigit_of_mem_toDigits (by decide) (by decide) h

theorem scanNat_toDigits (n : ℕ) : scanNat (Nat.toDigits 10 n) = some n := by
  have hne : Nat.toDigits 10 n ≠ [] := Nat.toDigits_ne_nil
  have hall : (Nat.toDigits 10 n).all Char.isDigit = true :=
    List.all_eq_true.mpr fun c hc => isDigit_toDigits hc
  simp [scanNat, hne, hall, Nat.ofDigitChars_ten_toDigits]

/-- An integer that was written reads back. -/
theorem scanInt_printInt (n : ℤ) : scanInt (printInt n) = some n := by
  by_cases hn : n < 0
  · have habs : -(n.natAbs : ℤ) = n := by omega
    rw [printInt, if_pos hn, scanInt, scanNat_toDigits, Option.map_some, habs]
  · have habs : (n.natAbs : ℤ) = n := by omega
    have hminus : ∀ cs, Nat.toDigits 10 n.natAbs ≠ '-' :: cs := by
      intro cs h
      have hdigit : Char.isDigit '-' = true :=
        isDigit_toDigits (n := n.natAbs) (by rw [h]; exact List.mem_cons_self ..)
      exact absurd hdigit (by decide)
    rw [printInt, if_neg hn, scanInt.eq_2 _ hminus, scanNat_toDigits, Option.map_some, habs]

end Text
