import CafePos.Text.Digits

/-!
# The shortest text of a number

A number other than zero is written with its shortest decimal: a sign, digits that neither begin
nor end with a zero, and where the point stands before, among or after them. `Decimal.text` writes
it as ECMAScript's `Number::toString` does, with the point in place or with an exponent. From a
text one can read the digits and the point again, so no two numbers share one
(`Number.text_injective`).
-/

namespace Text

/-! ## Splitting a text in one way -/

/-- What passes a test, and then something that does not, can be told apart. -/
theorem span_unique {α : Type} {p : α → Prop} {xs ys r r' : List α} (hx : ∀ a ∈ xs, p a)
    (hy : ∀ a ∈ ys, p a) (hr : ∀ a ∈ r.head?, ¬ p a) (hr' : ∀ a ∈ r'.head?, ¬ p a)
    (h : xs ++ r = ys ++ r') : xs = ys ∧ r = r' := by
  induction xs generalizing ys with
  | nil =>
    cases ys with
    | nil => exact ⟨rfl, h⟩
    | cons y ys =>
      rw [List.nil_append, List.cons_append] at h
      exact absurd (hy y (List.mem_cons_self ..)) (hr y (by rw [h]; rfl))
  | cons x xs ih =>
    cases ys with
    | nil =>
      rw [List.nil_append, List.cons_append] at h
      exact absurd (hx x (List.mem_cons_self ..)) (hr' x (by rw [← h]; rfl))
    | cons y ys =>
      obtain ⟨rfl, htail⟩ := List.cons.inj h
      obtain ⟨rfl, hrest⟩ := ih (fun a ha => hx a (List.mem_cons_of_mem _ ha))
        (fun a ha => hy a (List.mem_cons_of_mem _ ha)) htail
      exact ⟨rfl, hrest⟩

theorem toDigits_injective {n m : ℕ} (h : Nat.toDigits 10 n = Nat.toDigits 10 m) : n = m := by
  rw [← @Nat.ofDigitChars_ten_toDigits n, h, Nat.ofDigitChars_ten_toDigits]

/-! ## Layouts -/

/-- The parts of a text: the digits before and after the point, and the exponent. -/
structure Layout where
  whole : List Char
  fraction : List Char
  exponent : Option ℤ

/-- An exponent, always with its sign. -/
def exponentText (e : ℤ) : List Char :=
  'e' :: (if e < 0 then '-' else '+') :: Nat.toDigits 10 e.natAbs

/-- The point is left out where nothing follows it. -/
def Layout.text (l : Layout) : List Char :=
  l.whole ++ ((if l.fraction = [] then [] else '.' :: l.fraction) ++ l.exponent.elim [] exponentText)

/-- The parts are digits. -/
structure Layout.Ok (l : Layout) : Prop where
  whole : ∀ c ∈ l.whole, c.isDigit = true
  fraction : ∀ c ∈ l.fraction, c.isDigit = true

theorem exponentText_injective {e e' : ℤ} (h : exponentText e = exponentText e') : e = e' := by
  obtain ⟨hsign, hdigits⟩ := List.cons.inj (List.cons.inj h).2
  have habs := toDigits_injective hdigits
  by_cases he : e < 0
  · by_cases he' : e' < 0
    · omega
    · rw [if_pos he, if_neg he'] at hsign
      exact absurd hsign (by decide)
  · by_cases he' : e' < 0
    · rw [if_neg he, if_pos he'] at hsign
      exact absurd hsign (by decide)
    · omega

theorem not_digit_exponent (o : Option ℤ) :
    ∀ c ∈ (o.elim [] exponentText).head?, ¬ c.isDigit = true := by
  cases o with
  | none => simp
  | some e =>
    intro c hc
    obtain rfl : c = 'e' := by simpa [exponentText, eq_comm] using hc
    decide

theorem Layout.text_injective {l l' : Layout} (hl : l.Ok) (hl' : l'.Ok) (h : l.text = l'.text) :
    l = l' := by
  obtain ⟨whole, fraction, exponent⟩ := l
  obtain ⟨whole', fraction', exponent'⟩ := l'
  have hrest : ∀ (f : List Char) (o : Option ℤ),
      ∀ c ∈ ((if f = [] then [] else '.' :: f) ++ o.elim [] exponentText).head?,
        ¬ c.isDigit = true := by
    intro f o
    split
    · exact not_digit_exponent o
    · intro c hc
      obtain rfl : c = '.' := by simpa [eq_comm] using hc
      decide
  obtain ⟨rfl, htail⟩ := span_unique hl.whole hl'.whole (hrest _ _) (hrest _ _) h
  have hexponent : ∀ {o o' : Option ℤ},
      o.elim [] exponentText = o'.elim [] exponentText → o = o' := by
    intro o o' h
    cases o with
    | none =>
      cases o' with
      | none => rfl
      | some e' => cases h
    | some e =>
      cases o' with
      | none => cases h
      | some e' => rw [exponentText_injective h]
  have hpoint : ∀ {f : List Char} {o o' : Option ℤ},
      '.' :: f ++ o.elim [] exponentText ≠ o'.elim [] exponentText := by
    intro f o o' h
    cases o' with
    | none => cases h
    | some e => exact absurd (List.cons.inj h).1 (by decide)
  dsimp only at htail
  by_cases hf : fraction = []
  · by_cases hf' : fraction' = []
    · rw [if_pos hf, if_pos hf'] at htail
      rw [hf, hf', hexponent htail]
    · rw [if_pos hf, if_neg hf'] at htail
      exact absurd htail.symm hpoint
  · by_cases hf' : fraction' = []
    · rw [if_neg hf, if_pos hf'] at htail
      exact absurd htail hpoint
    · rw [if_neg hf, if_neg hf', List.cons_append, List.cons_append] at htail
      obtain ⟨rfl, hend⟩ := span_unique hl.fraction hl'.fraction (not_digit_exponent _)
        (not_digit_exponent _) (List.cons.inj htail).2
      rw [hexponent hend]

/-! ## Decimals -/

/-- A number other than zero: `±0.digits × 10 ^ point`, with as few digits as it takes. -/
structure Decimal where
  negative : Bool
  digits : List Char
  point : ℤ
  isDigit : ∀ c ∈ digits, c.isDigit = true
  ne_nil : digits ≠ []
  head_ne : digits.head? ≠ some '0'
  getLast_ne : digits.getLast? ≠ some '0'

/-- Where the digits go: in place up to 21 places before the point and six zeros after it, else
with an exponent. -/
def Decimal.layout (d : Decimal) : Layout :=
  let k : ℤ := d.digits.length
  if k ≤ d.point ∧ d.point ≤ 21 then
    ⟨d.digits ++ List.replicate (d.point - k).toNat '0', [], none⟩
  else if 0 < d.point ∧ d.point ≤ 21 then
    ⟨d.digits.take d.point.toNat, d.digits.drop d.point.toNat, none⟩
  else if -6 < d.point ∧ d.point ≤ 0 then
    ⟨['0'], List.replicate (-d.point).toNat '0' ++ d.digits, none⟩
  else ⟨d.digits.take 1, d.digits.drop 1, some (d.point - 1)⟩

/-- The text of a decimal. -/
def Decimal.text (d : Decimal) : List Char :=
  (if d.negative then ['-'] else []) ++ d.layout.text

/-- The zeros at the front. -/
def zeros (cs : List Char) : ℕ := (cs.takeWhile (· == '0')).length

/-- Without the zeros at both ends. -/
def strip (cs : List Char) : List Char := (cs.dropWhile (· == '0')).rdropWhile (· == '0')

theorem dropWhile_zeros {cs : List Char} (h : cs.head? ≠ some '0') (n : ℕ) :
    (List.replicate n '0' ++ cs).dropWhile (· == '0') = cs ∧
      (List.replicate n '0' ++ cs).takeWhile (· == '0') = List.replicate n '0' := by
  induction n with
  | zero =>
    cases cs with
    | nil => exact ⟨rfl, rfl⟩
    | cons c cs =>
      have hc : (c == '0') = false := by simpa using h
      exact ⟨List.dropWhile_cons_of_neg (by simp [hc]), List.takeWhile_cons_of_neg (by simp [hc])⟩
  | succ n ih =>
    rw [List.replicate_succ, List.cons_append, List.dropWhile_cons_of_pos (by rfl),
      List.takeWhile_cons_of_pos (by rfl)]
    exact ⟨ih.1, congrArg _ ih.2⟩

/-- Digits with zeros around them. -/
theorem strip_zeros (d : Decimal) (n m : ℕ) :
    strip (List.replicate n '0' ++ (d.digits ++ List.replicate m '0')) = d.digits ∧
      zeros (List.replicate n '0' ++ (d.digits ++ List.replicate m '0')) = n := by
  have hhead : (d.digits ++ List.replicate m '0').head? ≠ some '0' := by
    rw [List.head?_append_of_ne_nil _ d.ne_nil]
    exact d.head_ne
  have hlast : d.digits.reverse.head? ≠ some '0' := by
    rw [List.head?_reverse]
    exact d.getLast_ne
  rw [strip, zeros, (dropWhile_zeros hhead n).1, (dropWhile_zeros hhead n).2,
    List.length_replicate, List.rdropWhile, List.reverse_append, List.reverse_replicate,
    (dropWhile_zeros hlast m).1, List.reverse_reverse]
  exact ⟨rfl, rfl⟩

/-- A layout gives back the digits and the point. -/
theorem Decimal.read_layout (d : Decimal) :
    strip (d.layout.whole ++ d.layout.fraction) = d.digits ∧
      (d.layout.whole.length : ℤ) - zeros (d.layout.whole ++ d.layout.fraction) +
        d.layout.exponent.getD 0 = d.point := by
  have hlength : 0 < d.digits.length := List.length_pos_iff.mpr d.ne_nil
  rw [layout]
  split
  · have h := strip_zeros d 0 (d.point - d.digits.length).toNat
    simp only [List.replicate_zero, List.nil_append] at h
    simp only [List.append_nil, h.1, h.2, List.length_append, List.length_replicate, true_and,
      Option.getD_none]
    omega
  split
  · have h := strip_zeros d 0 0
    simp only [List.replicate_zero, List.nil_append, List.append_nil] at h
    simp only [List.take_append_drop, h.1, h.2, List.length_take, true_and, Option.getD_none]
    omega
  split
  · have h := strip_zeros d ((-d.point).toNat + 1) 0
    simp only [List.replicate_zero, List.append_nil, List.replicate_succ, List.cons_append] at h
    simp only [List.singleton_append, h.1, h.2, List.length_singleton, true_and, Option.getD_none]
    omega
  · have h := strip_zeros d 0 0
    simp only [List.replicate_zero, List.nil_append, List.append_nil] at h
    simp only [List.take_append_drop, h.1, h.2, List.length_take, true_and, Option.getD_some]
    omega

theorem Decimal.layout_ok (d : Decimal) : d.layout.Ok := by
  have hzero : ∀ n, ∀ c ∈ List.replicate n '0', c.isDigit = true := by
    intro n c hc
    rw [List.eq_of_mem_replicate hc]
    rfl
  rw [layout]
  split
  · refine ⟨fun c hc => ?_, fun _ h => absurd h List.not_mem_nil⟩
    rcases List.mem_append.mp hc with hc | hc
    · exact d.isDigit c hc
    · exact hzero _ c hc
  split
  · exact ⟨fun c hc => d.isDigit c (List.mem_of_mem_take hc),
      fun c hc => d.isDigit c (List.mem_of_mem_drop hc)⟩
  split
  · refine ⟨fun c hc => ?_, fun c hc => ?_⟩
    · rw [List.mem_singleton.mp hc]
      rfl
    · rcases List.mem_append.mp hc with hc | hc
      · exact hzero _ c hc
      · exact d.isDigit c hc
  · exact ⟨fun c hc => d.isDigit c (List.mem_of_mem_take hc),
      fun c hc => d.isDigit c (List.mem_of_mem_drop hc)⟩

theorem Decimal.layout_injective {d d' : Decimal} (hsign : d.negative = d'.negative)
    (h : d.layout = d'.layout) : d = d' := by
  have hread := d.read_layout
  have hread' := d'.read_layout
  rw [h] at hread
  have hdigits : d.digits = d'.digits := hread.1.symm.trans hread'.1
  have hpoint : d.point = d'.point := hread.2.symm.trans hread'.2
  obtain ⟨negative, digits, point⟩ := d
  obtain ⟨negative', digits', point'⟩ := d'
  subst hsign hdigits hpoint
  rfl

/-- Before the point there is a digit. -/
theorem Decimal.head_layout (d : Decimal) : ∃ c rest, d.layout.text = c :: rest ∧ c.isDigit := by
  have hne : d.layout.whole ≠ [] := by
    rw [layout]
    split
    · simp [d.ne_nil]
    split
    · simp [d.ne_nil]
      omega
    split
    · simp
    · simp [d.ne_nil]
  obtain ⟨c, cs, hcs⟩ := List.exists_cons_of_ne_nil hne
  refine ⟨c, _, by rw [Layout.text, hcs, List.cons_append], d.layout_ok.whole c ?_⟩
  rw [hcs]
  exact List.mem_cons_self ..

theorem Decimal.text_injective {d d' : Decimal} (h : d.text = d'.text) : d = d' := by
  obtain ⟨c, rest, hc, hdigit⟩ := d.head_layout
  obtain ⟨c', rest', hc', hdigit'⟩ := d'.head_layout
  rw [text, text] at h
  cases hneg : d.negative with
  | true =>
    cases hneg' : d'.negative with
    | true =>
      rw [hneg, hneg'] at h
      exact layout_injective (hneg.trans hneg'.symm)
        (Layout.text_injective d.layout_ok d'.layout_ok (List.cons.inj h).2)
    | false =>
      rw [hneg, hneg', hc'] at h
      rw [← (List.cons.inj h).1] at hdigit'
      exact absurd hdigit' (by decide)
  | false =>
    cases hneg' : d'.negative with
    | true =>
      rw [hneg, hneg', hc] at h
      rw [(List.cons.inj h).1] at hdigit
      exact absurd hdigit (by decide)
    | false =>
      rw [hneg, hneg'] at h
      exact layout_injective (hneg.trans hneg'.symm)
        (Layout.text_injective d.layout_ok d'.layout_ok h)

/-! ## Numbers -/

/-- A finite number: zero of either sign, or a decimal. -/
inductive Number where
  | zero
  | decimal (d : Decimal)

/-- `Number::toString`. -/
def Number.text : Number → List Char
  | zero => ['0']
  | decimal d => d.text

/-- The characters of numbers. -/
def InNumber (c : Char) : Prop := c.isDigit = true ∨ c = '-' ∨ c = '+' ∨ c = '.' ∨ c = 'e'

instance (c : Char) : Decidable (InNumber c) := inferInstanceAs (Decidable (_ ∨ _))

theorem Layout.inNumber {l : Layout} (hl : l.Ok) : ∀ c ∈ l.text, InNumber c := by
  have hexponent : ∀ c ∈ l.exponent.elim [] exponentText, InNumber c := by
    cases l.exponent with
    | none => exact fun _ h => absurd h List.not_mem_nil
    | some e =>
      intro c hc
      rcases List.mem_cons.mp hc with rfl | hc
      · decide
      rcases List.mem_cons.mp hc with rfl | hc
      · split <;> decide
      · exact Or.inl (isDigit_toDigits hc)
  intro c hc
  rw [text] at hc
  rcases List.mem_append.mp hc with hc | hc
  · exact Or.inl (hl.whole c hc)
  rcases List.mem_append.mp hc with hc | hc
  · split at hc
    · cases hc
    · rcases List.mem_cons.mp hc with rfl | hc
      · decide
      · exact Or.inl (hl.fraction c hc)
  · exact hexponent c hc

theorem Number.inNumber (n : Number) : ∀ c ∈ n.text, InNumber c := by
  cases n with
  | zero =>
    intro c hc
    rw [List.mem_singleton.mp hc]
    decide
  | decimal d =>
    intro c hc
    rcases List.mem_append.mp hc with hc | hc
    · split at hc
      · rw [List.mem_singleton.mp hc]
        decide
      · cases hc
    · exact Layout.inNumber d.layout_ok c hc

/-- A text begins with a sign or a digit. -/
theorem Number.head_text (n : Number) : ∃ c rest, n.text = c :: rest ∧
    (c = '-' ∨ c.isDigit = true) := by
  cases n with
  | zero => exact ⟨'0', [], rfl, Or.inr rfl⟩
  | decimal d =>
    obtain ⟨c, rest, hc, hdigit⟩ := d.head_layout
    rw [text, Decimal.text]
    split
    · exact ⟨'-', _, rfl, Or.inl rfl⟩
    · exact ⟨c, rest, hc, Or.inr hdigit⟩

/-- Zero has a text of its own. -/
theorem Decimal.text_ne_zero (d : Decimal) : d.text ≠ ['0'] := by
  intro h
  rw [text] at h
  split at h
  · exact absurd (List.cons.inj h).1 (by decide)
  · have hok : Layout.Ok ⟨['0'], [], none⟩ := by
      refine ⟨fun c hc => ?_, fun _ h => absurd h List.not_mem_nil⟩
      rw [List.mem_singleton.mp hc]
      rfl
    have hlayout : d.layout = ⟨['0'], [], none⟩ := Layout.text_injective d.layout_ok hok h
    have hdigits := d.read_layout.1
    rw [hlayout] at hdigits
    exact d.ne_nil hdigits.symm

/-- No two numbers share a text. -/
theorem Number.text_injective {n n' : Number} (h : n.text = n'.text) : n = n' := by
  cases n with
  | zero =>
    cases n' with
    | zero => rfl
    | decimal d => exact absurd h.symm d.text_ne_zero
  | decimal d =>
    cases n' with
    | zero => exact absurd h d.text_ne_zero
    | decimal d' => rw [Decimal.text_injective h]

end Text
