import Mathlib

/-!
# UTF-8 and base64url

A text on its way through a URL: its UTF-8 bytes, six bits to a character. Decoding is as
lenient as `Buffer.from(text, 'base64url')`: characters of no value are skipped, both alphabets
are read, and bytes that are no UTF-8 become U+FFFD. What was encoded from ASCII decodes to itself
(`fromBase64url_toBase64url`).
-/

namespace Text

/-! ## UTF-8 -/

/-- The bytes of a text. -/
def encodeUtf8 (cs : List Char) : List UInt8 := cs.flatMap String.utf8EncodeChar

/-- `b` continues a sequence; `lo` and `hi` bound it where the first byte narrows the range. -/
def continues (lo hi : ℕ) (b : UInt8) : Bool := lo ≤ b.toNat && b.toNat ≤ hi

/-- U+FFFD. -/
def replacement : Char := Char.ofNat 0xFFFD

/-- The first byte of a sequence: how many more follow, its own bits, and the range of the
second byte. -/
def leading (b : UInt8) : Option (ℕ × ℕ × ℕ × ℕ) :=
  let n := b.toNat
  if 0xC2 ≤ n ∧ n ≤ 0xDF then some (1, n - 0xC0, 0x80, 0xBF)
  else if 0xE0 ≤ n ∧ n ≤ 0xEF then
    some (2, n - 0xE0, if n = 0xE0 then 0xA0 else 0x80, if n = 0xED then 0x9F else 0xBF)
  else if 0xF0 ≤ n ∧ n ≤ 0xF4 then
    some (3, n - 0xF0, if n = 0xF0 then 0x90 else 0x80, if n = 0xF4 then 0x8F else 0xBF)
  else none

/-- The state of the decoder: how many bytes are missing, the bits so far, and the range of the
next byte. -/
abbrev Pending : Type := Option (ℕ × ℕ × ℕ × ℕ)

/-- One byte at the beginning of a sequence. -/
def beginUtf8 (b : UInt8) : List Char × Pending :=
  if b.toNat < 0x80 then ([Char.ofNat b.toNat], none)
  else
    match leading b with
    | some p => ([], some p)
    | none => ([replacement], none)

/-- One byte, in any state; a sequence that breaks off is replaced, and its last byte begins
anew. -/
def stepUtf8 (p : Pending) (b : UInt8) : List Char × Pending :=
  match p with
  | none => beginUtf8 b
  | some (missing, bits, lo, hi) =>
    if continues lo hi b then
      let bits := bits * 64 + (b.toNat - 0x80)
      if missing ≤ 1 then ([Char.ofNat bits], none) else ([], some (missing - 1, bits, 0x80, 0xBF))
    else
      let (cs, p) := beginUtf8 b
      (replacement :: cs, p)

/-- The text of the bytes, from a state of the decoder. -/
def decodeUtf8From : Pending → List UInt8 → List Char
  | none, [] => []
  | some _, [] => [replacement]
  | p, b :: bs => (stepUtf8 p b).1 ++ decodeUtf8From (stepUtf8 p b).2 bs

/-- The text of the bytes. -/
def decodeUtf8 (bs : List UInt8) : List Char := decodeUtf8From none bs

theorem encodeUtf8_cons_ascii {c : Char} (hc : c.toNat < 128) (cs : List Char) :
    encodeUtf8 (c :: cs) = UInt8.ofNat c.toNat :: encodeUtf8 cs := by
  have hsingle : String.utf8EncodeChar c = [UInt8.ofNat c.toNat] := by
    have hle : c.toNat ≤ 127 := Nat.le_of_lt_succ hc
    simp [String.utf8EncodeChar, hle]
  simp [encodeUtf8, hsingle]

/-- ASCII text survives. -/
theorem decodeUtf8_encodeUtf8 {cs : List Char} (h : ∀ c ∈ cs, c.toNat < 128) :
    decodeUtf8 (encodeUtf8 cs) = cs := by
  induction cs with
  | nil => rfl
  | cons c cs ih =>
    have hc := h c (List.mem_cons_self ..)
    have hbyte : (UInt8.ofNat c.toNat).toNat = c.toNat := by
      simp [UInt8.toNat_ofNat']
      omega
    have hstep : stepUtf8 none (UInt8.ofNat c.toNat) = ([c], none) := by
      simp [stepUtf8, beginUtf8, hbyte, hc]
    rw [encodeUtf8_cons_ascii hc, decodeUtf8, decodeUtf8From.eq_3, hstep]
    exact congrArg (c :: ·) (ih fun c' hc' => h c' (List.mem_cons_of_mem _ hc'))

/-! ## Six bits to a character -/

/-- The character of six bits. -/
def sextetChar (v : ℕ) : Char :=
  if v < 26 then Char.ofNat (65 + v)
  else if v < 52 then Char.ofNat (71 + v)
  else if v < 62 then Char.ofNat (v - 4)
  else if v = 62 then '-'
  else '_'

/-- The six bits of a character, in either alphabet. -/
def sextetValue (c : Char) : Option ℕ :=
  let n := c.toNat
  if 65 ≤ n ∧ n ≤ 90 then some (n - 65)
  else if 97 ≤ n ∧ n ≤ 122 then some (n - 71)
  else if 48 ≤ n ∧ n ≤ 57 then some (n + 4)
  else if n = 45 ∨ n = 43 then some 62
  else if n = 95 ∨ n = 47 then some 63
  else none

theorem sextetValue_sextetChar {v : ℕ} (h : v < 64) : sextetValue (sextetChar v) = some v := by
  interval_cases v <;> rfl

/-- Three bytes are four sextets; there is no padding. -/
def sextets : List ℕ → List ℕ
  | a :: b :: c :: rest =>
    a / 4 :: (a % 4 * 16 + b / 16) :: (b % 16 * 4 + c / 64) :: c % 64 :: sextets rest
  | [a, b] => [a / 4, a % 4 * 16 + b / 16, b % 16 * 4]
  | [a] => [a / 4, a % 4 * 16]
  | [] => []

/-- Four sextets are three bytes; a single one at the end is dropped. -/
def bytes : List ℕ → List ℕ
  | a :: b :: c :: d :: rest =>
    (a * 4 + b / 16) :: (b % 16 * 16 + c / 4) :: (c % 4 * 64 + d) :: bytes rest
  | [a, b, c] => [a * 4 + b / 16, b % 16 * 16 + c / 4]
  | [a, b] => [a * 4 + b / 16]
  | _ => []

theorem sextets_lt {bs : List ℕ} (h : ∀ b ∈ bs, b < 256) : ∀ v ∈ sextets bs, v < 64 := by
  induction bs using sextets.induct with
  | case1 a b c rest ih =>
    have ha := h a (by simp)
    have hb := h b (by simp)
    have hc := h c (by simp)
    have hrest := ih fun x hx => h x (by simp [hx])
    intro v hv
    simp only [sextets, List.mem_cons] at hv
    rcases hv with rfl | rfl | rfl | rfl | hv
    · omega
    · omega
    · omega
    · omega
    · exact hrest v hv
  | case2 a b =>
    have ha := h a (by simp)
    have hb := h b (by simp)
    intro v hv
    simp only [sextets, List.mem_cons, List.not_mem_nil, or_false] at hv
    omega
  | case3 a =>
    have ha := h a (by simp)
    intro v hv
    simp only [sextets, List.mem_cons, List.not_mem_nil, or_false] at hv
    omega
  | case4 => exact fun v hv => absurd hv List.not_mem_nil

theorem bytes_sextets {bs : List ℕ} (h : ∀ b ∈ bs, b < 256) : bytes (sextets bs) = bs := by
  induction bs using sextets.induct with
  | case1 a b c rest ih =>
    have ha := h a (by simp)
    have hb := h b (by simp)
    have hc := h c (by simp)
    have hrest := ih fun x hx => h x (by simp [hx])
    rw [sextets, bytes, hrest]
    congr 1
    · omega
    congr 1
    · omega
    congr 1
    omega
  | case2 a b =>
    have ha := h a (by simp)
    have hb := h b (by simp)
    simp only [sextets, bytes, List.cons.injEq, and_true]
    omega
  | case3 a =>
    have ha := h a (by simp)
    simp only [sextets, bytes, List.cons.injEq, and_true]
    omega
  | case4 => rfl

/-- `Buffer.from(text).toString('base64url')`. -/
def toBase64url (cs : List Char) : List Char :=
  (sextets ((encodeUtf8 cs).map UInt8.toNat)).map sextetChar

/-- `Buffer.from(text, 'base64url').toString('utf8')`. -/
def fromBase64url (cs : List Char) : List Char :=
  decodeUtf8 ((bytes (cs.filterMap sextetValue)).map UInt8.ofNat)

/-- ASCII text survives the URL. -/
theorem fromBase64url_toBase64url {cs : List Char} (h : ∀ c ∈ cs, c.toNat < 128) :
    fromBase64url (toBase64url cs) = cs := by
  have hbytes : ∀ b ∈ (encodeUtf8 cs).map UInt8.toNat, b < 256 := by
    intro b hb
    obtain ⟨u, -, rfl⟩ := List.mem_map.mp hb
    exact u.toNat_lt
  have hvalues : ∀ vs : List ℕ, (∀ v ∈ vs, v < 64) →
      (vs.map sextetChar).filterMap sextetValue = vs := by
    intro vs hvs
    induction vs with
    | nil => rfl
    | cons v vs ih =>
      rw [List.map_cons, List.filterMap_cons_some (sextetValue_sextetChar (hvs v (by simp))),
        ih fun v' hv' => hvs v' (List.mem_cons_of_mem _ hv')]
  rw [fromBase64url, toBase64url, hvalues _ (sextets_lt hbytes), bytes_sextets hbytes,
    List.map_map]
  have hid : (UInt8.ofNat ∘ UInt8.toNat) = id := by
    funext u
    simp
  rw [hid, List.map_id, decodeUtf8_encodeUtf8 h]

end Text
