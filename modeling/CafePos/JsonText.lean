import CafePos.Gateway
import CafePos.Text.Digits

/-!
# JSON as text

`JSON.parse`, and `JSON.stringify` of an object whose members are strings. The parser reads the
grammar of JSON from left to right; its first argument bounds the nesting and is never used up.
A string is read as UTF-16 code units, because an escape stands for one of them. An object of
strings that was written reads back (`parse_stringify`).
-/

namespace CafePos

open Text

namespace Json

/-! ## Code units -/

/-- The code units of a character. -/
def units (c : Char) : List ℕ :=
  if c.toNat < 0x10000 then [c.toNat]
  else [0xD800 + (c.toNat - 0x10000) / 0x400, 0xDC00 + (c.toNat - 0x10000) % 0x400]

/-- The character of one code unit; half of a surrogate pair is none. -/
def ofUnit (n : ℕ) : Char := if 0xD800 ≤ n ∧ n ≤ 0xDFFF then Char.ofNat 0xFFFD else Char.ofNat n

/-- The units are the two halves of a pair. -/
def isPair (high low : ℕ) : Bool :=
  0xD800 ≤ high && high ≤ 0xDBFF && 0xDC00 ≤ low && low ≤ 0xDFFF

/-- The characters of a sequence of code units. -/
def ofUnits : List ℕ → List Char
  | [] => []
  | [n] => [ofUnit n]
  | high :: low :: ns =>
    if isPair high low then
      Char.ofNat (0x10000 + (high - 0xD800) * 0x400 + (low - 0xDC00)) :: ofUnits ns
    else ofUnit high :: ofUnits (low :: ns)

/-- Characters are no halves of pairs. -/
theorem not_surrogate (c : Char) : ¬ (0xD800 ≤ c.toNat ∧ c.toNat ≤ 0xDFFF) := by
  have hvalid : c.toNat.isValidChar := c.valid
  rcases hvalid with h | h <;> omega

theorem ofUnits_units (c : Char) (ns : List ℕ) : ofUnits (units c ++ ns) = c :: ofUnits ns := by
  have hc := not_surrogate c
  unfold units
  split
  · -- one unit, which is not the first half of a pair
    have hunit : ofUnit c.toNat = c := by simp [ofUnit, hc]
    cases ns with
    | nil => simp [ofUnits, hunit]
    | cons n ns =>
      have hpair : isPair c.toNat n = false := by
        simp only [isPair, Bool.and_eq_false_iff, decide_eq_false_iff_not]
        omega
      simp [ofUnits, hpair, hunit]
  · have hmax : c.toNat < 0x110000 := by
      rcases c.valid with h | h
      · have : c.toNat < 0xD800 := h
        omega
      · exact h.2
    have hpair : isPair (0xD800 + (c.toNat - 0x10000) / 0x400)
        (0xDC00 + (c.toNat - 0x10000) % 0x400) = true := by
      simp only [isPair, Bool.and_eq_true, decide_eq_true_eq]
      omega
    have hjoin : 0x10000 + (0xD800 + (c.toNat - 0x10000) / 0x400 - 0xD800) * 0x400 +
        (0xDC00 + (c.toNat - 0x10000) % 0x400 - 0xDC00) = c.toNat := by omega
    simp only [List.cons_append, List.nil_append, ofUnits, hpair, if_true, hjoin, Char.ofNat_toNat]

/-! ## Strings -/

/-- The characters that have an escape of their own. -/
def escapes : List (Char × Char) :=
  [('"', '"'), ('\\', '\\'), ('\x08', 'b'), ('\x0c', 'f'), ('\n', 'n'), ('\r', 'r'), ('\t', 't')]

/-- A character inside of a string. -/
def escapeChar (c : Char) : List Char :=
  match escapes.find? fun e => e.1 == c with
  | some e => ['\\', e.2]
  | none => if c.toNat < 0x20 then '\\' :: 'u' :: printNumber 16 4 c.toNat else [c]

/-- A string, in quotes. -/
def quote (s : String) : List Char := '"' :: (s.toList.flatMap escapeChar ++ ['"'])

/-- What an escape of one character stands for. -/
def unescape (c : Char) : Option Char :=
  if c = '/' then some '/' else (escapes.find? fun e => e.2 == c).map Prod.fst

/-- The code units of a string, after its opening quote, and the text that follows it. -/
def scanString : List Char → Option (List ℕ × List Char)
  | [] => none
  | c :: cs =>
    if c = '"' then some ([], cs)
    else if c = '\\' then
      match cs with
      | [] => none
      | e :: cs =>
        if e = 'u' then
          match cs with
          | a :: b :: c :: d :: cs => (scanNumber 16 4 0 [a, b, c, d]).bind fun n =>
              (scanString cs).map fun r => (n.1 :: r.1, r.2)
          | _ => none
        else (unescape e).bind fun x => (scanString cs).map fun r => (units x ++ r.1, r.2)
    else if c.toNat < 0x20 then none
    else (scanString cs).map fun r => (units c ++ r.1, r.2)

/-- A character that was escaped is read as its code units. -/
theorem scanString_escapeChar (c : Char) (cs : List Char) :
    scanString (escapeChar c ++ cs) = (scanString cs).map fun r => (units c ++ r.1, r.2) := by
  unfold escapeChar
  split
  · rename_i e he
    have hmem := List.mem_of_find?_eq_some he
    have heq : e.1 = c := by simpa using List.find?_some he
    subst heq
    simp only [escapes, List.mem_cons, List.not_mem_nil, or_false] at hmem
    rcases hmem with rfl | rfl | rfl | rfl | rfl | rfl | rfl <;>
    · rw [scanString.eq_def]
      simp [unescape, escapes]
  · rename_i hnone
    have hplain : c ≠ '"' ∧ c ≠ '\\' := by
      simp only [escapes, List.find?_eq_none, List.mem_cons, List.not_mem_nil, or_false,
        forall_eq_or_imp, forall_eq, beq_iff_eq] at hnone
      exact ⟨fun h => hnone.1 h.symm, fun h => hnone.2.1 h.symm⟩
    split
    · -- four digits for one code unit
      rename_i hlt
      have hunits : units c = [c.toNat] := by
        have hsmall : c.toNat < 0x10000 := by omega
        simp [units, hsmall]
      have hread := scanNumber_printNumber (show 16 ≤ 16 by decide)
        (show c.toNat < 16 ^ 4 by omega) []
      obtain ⟨a, b, d, e, hprint⟩ : ∃ a b d e, printNumber 16 4 c.toNat = [a, b, d, e] :=
        ⟨_, _, _, _, rfl⟩
      rw [hprint] at hread ⊢
      rw [scanString.eq_def]
      simp only [List.append_nil] at hread
      simp [hread, hunits]
    · rename_i hge
      rw [List.singleton_append, scanString.eq_def]
      simp [hplain.1, hplain.2, hge]

/-- A string that was quoted reads back. -/
theorem scanString_quote (s : String) (rest : List Char) :
    (scanString ((quote s).tail ++ rest)).map (fun r => (ofUnits r.1, r.2)) =
      some (s.toList, rest) := by
  have hread : ∀ cs : List Char, ∃ ns, scanString (cs.flatMap escapeChar ++ '"' :: rest) =
      some (ns, rest) ∧ ofUnits ns = cs := by
    intro cs
    induction cs with
    | nil => exact ⟨[], by rw [List.flatMap_nil, List.nil_append, scanString.eq_def]; simp, rfl⟩
    | cons c cs ih =>
      obtain ⟨ns, hns, hcs⟩ := ih
      refine ⟨units c ++ ns, ?_, by rw [ofUnits_units, hcs]⟩
      rw [List.flatMap_cons, List.append_assoc, scanString_escapeChar, hns, Option.map_some]
  obtain ⟨ns, hns, hcs⟩ := hread s.toList
  rw [quote, List.tail_cons, List.append_assoc, List.singleton_append, hns, Option.map_some, hcs]

/-! ## Numbers -/

/-- The digits at the beginning of a text, and the rest. -/
def scanDigits (cs : List Char) : List Char × List Char := cs.span Char.isDigit

/-- The digits after a point, if there is one; `none` if it has no digit. -/
def scanFraction : List Char → Option (List Char × List Char)
  | '.' :: cs =>
    let (ds, rest) := scanDigits cs
    if ds = [] then none else some (ds, rest)
  | cs => some ([], cs)

/-- The exponent, if there is one; `none` if it has no digit. -/
def scanExponent : List Char → Option (ℤ × List Char)
  | [] => some (0, [])
  | c :: cs =>
    if c = 'e' ∨ c = 'E' then
      let negative := cs.head? == some '-'
      let (ds, rest) := scanDigits (if negative || cs.head? == some '+' then cs.tail else cs)
      let n : ℤ := Nat.ofDigitChars 10 ds 0
      if ds = [] then none else some (if negative then -n else n, rest)
    else some (0, c :: cs)

/-- A number without its sign: no digit after a leading zero. The value is exact; no reader of
these texts looks at it. -/
def scanNumeral (cs : List Char) : Option (ℚ × List Char) :=
  let (whole, rest) := scanDigits cs
  if whole = [] ∨ (whole.length ≠ 1 ∧ whole.head? = some '0') then none
  else (scanFraction rest).bind fun f => (scanExponent f.2).map fun e =>
    ((Nat.ofDigitChars 10 (whole ++ f.1) 0 : ℚ) * 10 ^ (e.1 - (f.1.length : ℤ)), e.2)

/-! ## Values -/

/-- Blanks, tabs and line breaks. -/
def isSpace (c : Char) : Bool := c == ' ' || c == '\t' || c == '\n' || c == '\r'

/-- The text without the spaces at its beginning. -/
def skip (cs : List Char) : List Char := cs.dropWhile isSpace

/-- A word, and what follows it. -/
def word (w : String) (v : Json) (cs : List Char) : Option (Json × List Char) :=
  if w.toList.isPrefixOf cs then some (v, cs.drop w.length) else none

/-- A string as a value. -/
def scanText (cs : List Char) : Option (String × List Char) :=
  (scanString cs).map fun r => (String.ofList (ofUnits r.1), r.2)

mutual

/-- One value, and what follows it. -/
def parseValue : ℕ → List Char → Option (Json × List Char)
  | 0, _ => none
  | depth + 1, cs =>
    match skip cs with
    | [] => none
    | c :: cs =>
      if c = '"' then (scanText cs).map fun r => (.str r.1, r.2)
      else if c = '\x7b' then
        if (skip cs).head? = some '\x7d' then some (.obj [], (skip cs).tail)
        else (parseMembers depth cs).map fun r => (.obj r.1, r.2)
      else if c = '[' then
        if (skip cs).head? = some ']' then some (.arr [], (skip cs).tail)
        else (parseElements depth cs).map fun r => (.arr r.1, r.2)
      else if c = '-' then (scanNumeral cs).map fun r => (.num (-r.1), r.2)
      else if c.isDigit then (scanNumeral (c :: cs)).map fun r => (.num r.1, r.2)
      else if c = 't' then word "true" (.bool true) (c :: cs)
      else if c = 'f' then word "false" (.bool false) (c :: cs)
      else word "null" .null (c :: cs)

/-- The members of an object, up to its closing brace. -/
def parseMembers : ℕ → List Char → Option (List (String × Json) × List Char)
  | 0, _ => none
  | depth + 1, cs =>
    if (skip cs).head? = some '"' then
      (scanText (skip cs).tail).bind fun name =>
        if (skip name.2).head? = some ':' then
          (parseValue depth (skip name.2).tail).bind fun value =>
            if (skip value.2).head? = some ',' then
              (parseMembers depth (skip value.2).tail).map fun r => ((name.1, value.1) :: r.1, r.2)
            else if (skip value.2).head? = some '\x7d' then
              some ([(name.1, value.1)], (skip value.2).tail)
            else none
        else none
    else none

/-- The elements of an array, up to its closing bracket. -/
def parseElements : ℕ → List Char → Option (List Json × List Char)
  | 0, _ => none
  | depth + 1, cs =>
    (parseValue depth cs).bind fun value =>
      if (skip value.2).head? = some ',' then
        (parseElements depth (skip value.2).tail).map fun r => (value.1 :: r.1, r.2)
      else if (skip value.2).head? = some ']' then some ([value.1], (skip value.2).tail)
      else none

end

/-- `JSON.parse`: one value and nothing after it. Every step down or to the right reads a
character, so the length of the text is depth enough. -/
def parse (cs : List Char) : Option Json :=
  (parseValue (cs.length + 1) cs).bind fun r => if skip r.2 = [] then some r.1 else none

/-- The members of an object of strings. -/
def members : List (String × String) → List Char
  | [] => []
  | [m] => quote m.1 ++ ':' :: quote m.2
  | m :: m' :: ms => quote m.1 ++ ':' :: quote m.2 ++ ',' :: members (m' :: ms)

/-- `JSON.stringify` of an object of strings. -/
def stringify (ms : List (String × String)) : List Char := '\x7b' :: (members ms ++ ['\x7d'])

/-! ## What was written reads back -/

theorem skip_cons {c : Char} (h : isSpace c = false) (cs : List Char) :
    skip (c :: cs) = c :: cs := by
  simp [skip, h]

theorem scanText_quote (s : String) (rest : List Char) :
    scanText ((quote s).tail ++ rest) = some (s, rest) := by
  obtain ⟨r, hr, heq⟩ := Option.map_eq_some_iff.mp (scanString_quote s rest)
  obtain ⟨hs, hrest⟩ := Prod.mk.inj heq
  rw [scanText, hr, Option.map_some, hs, hrest, String.ofList_toList]

theorem quote_append (s : String) (rest : List Char) :
    quote s ++ rest = '"' :: ((quote s).tail ++ rest) := rfl

theorem parseValue_quote (depth : ℕ) (s : String) (rest : List Char) :
    parseValue (depth + 1) (quote s ++ rest) = some (.str s, rest) := by
  rw [parseValue, quote_append, skip_cons rfl]
  simp [scanText_quote]

/-- A member that is a string, and what is done after it. -/
theorem parseMembers_quote (depth : ℕ) (name value : String) (cs : List Char) :
    parseMembers (depth + 2) (quote name ++ ':' :: (quote value ++ cs)) =
      if (skip cs).head? = some ',' then
        (parseMembers (depth + 1) (skip cs).tail).map fun r => ((name, .str value) :: r.1, r.2)
      else if (skip cs).head? = some '\x7d' then some ([(name, .str value)], (skip cs).tail)
      else none := by
  rw [parseMembers, quote_append, skip_cons rfl, List.head?_cons, List.tail_cons, if_pos rfl,
    scanText_quote, Option.bind_some, skip_cons rfl, List.head?_cons, List.tail_cons, if_pos rfl,
    parseValue_quote, Option.bind_some]

theorem parseMembers_members {ms : List (String × String)} (hms : ms ≠ []) {depth : ℕ}
    (hdepth : ms.length < depth) (rest : List Char) :
    parseMembers depth (members ms ++ '\x7d' :: rest) =
      some (ms.map fun m => (m.1, Json.str m.2), rest) := by
  induction ms generalizing depth with
  | nil => exact absurd rfl hms
  | cons m ms ih =>
    obtain ⟨depth, rfl⟩ : ∃ d, depth = d + 2 := ⟨depth - 2, by simp at hdepth; omega⟩
    cases ms with
    | nil =>
      rw [members, List.append_assoc, List.cons_append, parseMembers_quote, skip_cons rfl,
        List.head?_cons, List.tail_cons, if_neg (by decide), if_pos rfl]
      rfl
    | cons m' ms =>
      have hdepth' : (m' :: ms).length < depth + 1 := by simpa using hdepth
      rw [members, List.append_assoc, List.append_assoc, List.cons_append, List.cons_append,
        parseMembers_quote, skip_cons rfl, List.head?_cons, List.tail_cons, if_pos rfl,
        ih (List.cons_ne_nil m' ms) hdepth', Option.map_some]
      rfl

theorem length_le_members (ms : List (String × String)) : ms.length ≤ (members ms).length := by
  induction ms with
  | nil => exact Nat.zero_le _
  | cons m ms ih =>
    cases ms with
    | nil => simp [members, quote]
    | cons m' ms =>
      simp only [members, List.length_append, List.length_cons] at ih ⊢
      omega

/-- An object of strings that was written reads back. -/
theorem parse_stringify {ms : List (String × String)} (hms : ms ≠ []) :
    parse (stringify ms) = some (.obj (ms.map fun m => (m.1, Json.str m.2))) := by
  obtain ⟨m, ms, rfl⟩ := List.exists_cons_of_ne_nil hms
  have hdepth : (m :: ms).length < (stringify (m :: ms)).length := by
    have := length_le_members (m :: ms)
    simp only [stringify, List.length_cons, List.length_append] at this ⊢
    omega
  -- the first member opens with a quote, which is no closing brace
  have hhead : (skip (members (m :: ms) ++ ['\x7d'])).head? = some '"' := by
    cases ms with
    | nil => rw [members, List.append_assoc, quote_append, skip_cons rfl, List.head?_cons]
    | cons m' ms =>
      rw [members, List.append_assoc, List.append_assoc, quote_append, skip_cons rfl,
        List.head?_cons]
  have hvalue : parseValue ((stringify (m :: ms)).length + 1) (stringify (m :: ms)) =
      some (.obj ((m :: ms).map fun m => (m.1, Json.str m.2)), []) := by
    rw [parseValue, stringify, skip_cons rfl]
    simp only [Char.reduceEq, if_false, if_true, hhead, Option.some.injEq]
    rw [← stringify, parseMembers_members hms hdepth []]
    rfl
  rw [parse, hvalue]
  rfl

end Json

end CafePos
