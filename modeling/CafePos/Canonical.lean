import CafePos.Text.Decimal

/-!
# Canonical JSON

What `hashRequest` (`orders/idempotency/request-hash.ts`) feeds to the hash. A body is a value of
JSON, whose objects may also hold fields that are `undefined`; a string is a list of UTF-16 code
units, since a client can send lone surrogates in escapes. `canonicalize` drops what is undefined
and sorts the fields.

* `unquote_quote` — a string reads back from its quotes;
* `commas_unique`, `print_unique` — a text can be read in one way;
* `canonicalize_eq` — `canonicalize` writes the normal form of a body.
-/

namespace CafePos

open Text

/-! ## Bodies -/

/-- A string of JavaScript, by its UTF-16 code units. -/
abbrev JsString : Type := List ℕ

/-- A text of the source. -/
def lit (s : String) : JsString := s.toList.map Char.toNat

/-- A value of JSON; a field may be `undefined`. -/
inductive Body where
  | null
  | bool (b : Bool)
  | num (n : Number)
  | str (s : JsString)
  | arr (xs : List Body)
  | obj (fields : List (JsString × Option Body))

/-! ## Strings -/

/-- A leading surrogate. -/
def isLead (c : ℕ) : Bool := 0xD800 ≤ c && c ≤ 0xDBFF

/-- A trailing surrogate. -/
def isTrail (c : ℕ) : Bool := 0xDC00 ≤ c && c ≤ 0xDFFF

/-- The code unit in four hexadecimal digits. -/
def hex4 (c : ℕ) : JsString := (printNumber 16 4 c).map Char.toNat

/-- A code unit on its own, as `JSON.stringify` writes it. -/
def escapeUnit (c : ℕ) : JsString :=
  if c = 8 then lit "\\b"
  else if c = 9 then lit "\\t"
  else if c = 10 then lit "\\n"
  else if c = 12 then lit "\\f"
  else if c = 13 then lit "\\r"
  else if c = 34 then lit "\\\""
  else if c = 92 then lit "\\\\"
  else if c < 32 || isLead c || isTrail c then lit "\\u" ++ hex4 c
  else [c]

/-- The code units of a string; a pair of surrogates stands for a character and stays. -/
def quoteUnits : JsString → JsString
  | [] => []
  | [c] => escapeUnit c
  | c :: d :: cs =>
    if isLead c && isTrail d then c :: d :: quoteUnits cs else escapeUnit c ++ quoteUnits (d :: cs)

/-- `JSON.stringify`, of a string. -/
def quote (s : JsString) : JsString := 34 :: (quoteUnits s ++ [34])

/-- What stands for a code unit after a backslash, other than `u`. -/
def unescapeUnit (e : ℕ) : Option ℕ :=
  if e = 98 then some 8
  else if e = 116 then some 9
  else if e = 110 then some 10
  else if e = 102 then some 12
  else if e = 114 then some 13
  else if e = 34 ∨ e = 92 then some e
  else none

/-- The code unit of four hexadecimal digits. -/
def unhex4 (cs : JsString) : Option ℕ := (scanNumber 16 4 0 (cs.map Char.ofNat)).map Prod.fst

/-- The string up to the closing quote, and what follows it. -/
def unquote : JsString → Option (JsString × JsString)
  | [] => none
  | c :: cs =>
    if c = 34 then some ([], cs)
    else if c = 92 then
      match cs with
      | [] => none
      | e :: cs =>
        if e = 117 then
          match cs with
          | a :: b :: c :: d :: cs =>
            (unhex4 [a, b, c, d]).bind fun u => (unquote cs).map fun r => (u :: r.1, r.2)
          | _ => none
        else (unescapeUnit e).bind fun u => (unquote cs).map fun r => (u :: r.1, r.2)
    else (unquote cs).map fun r => (c :: r.1, r.2)

/-! ## Canonical texts -/

/-- `join(',')`. -/
def commas : List JsString → JsString
  | [] => []
  | [x] => x
  | x :: y :: rest => x ++ 44 :: commas (y :: rest)

/-- `[…]`. -/
def bracketed (xs : List JsString) : JsString := 91 :: (commas xs ++ [93])

/-- An object with these texts as its fields. -/
def braced (fields : List (JsString × JsString)) : JsString :=
  123 :: (commas (fields.map fun f => quote f.1 ++ 58 :: f.2) ++ [125])

mutual

/-- `canonicalize`. The fields are written before they are sorted; the sort looks at the keys, and
no object has a key twice. -/
def canonicalize : Body → JsString
  | .null => lit "null"
  | .bool b => if b then lit "true" else lit "false"
  | .num n => n.text.map Char.toNat
  | .str s => quote s
  | .arr xs => bracketed (canonicalizeAll xs)
  | .obj fields => braced ((canonicalizeFields fields).mergeSort fun a b => decide (a.1 ≤ b.1))

/-- `value.map(canonicalize)`. -/
def canonicalizeAll : List Body → List JsString
  | [] => []
  | x :: xs => canonicalize x :: canonicalizeAll xs

/-- The fields that are not undefined. -/
def canonicalizeFields : List (JsString × Option Body) → List (JsString × JsString)
  | [] => []
  | (_, none) :: fields => canonicalizeFields fields
  | (key, some entry) :: fields => (key, canonicalize entry) :: canonicalizeFields fields

end

/-- What `hashRequest` feeds to the hash. -/
def hashInput (scope : JsString) (body : Body) : JsString :=
  (Nat.toDigits 10 scope.length).map Char.toNat ++ 58 :: scope ++ canonicalize body

/-- `hashRequest`. -/
def hashRequest (sha256 : JsString → String) (scope : JsString) (body : Body) : String :=
  sha256 (hashInput scope body)

/-! ## Strings read back -/

theorem unquote_close (rest : JsString) : unquote (34 :: rest) = some ([], rest) := by
  rw [unquote.eq_def]
  simp only [if_true]

theorem unquote_raw {c : ℕ} (hquote : c ≠ 34) (hescape : c ≠ 92) (cs : JsString) :
    unquote (c :: cs) = (unquote cs).map fun r => (c :: r.1, r.2) := by
  rw [unquote.eq_def]
  simp only [if_neg hquote, if_neg hescape]

theorem unquote_escape {e u : ℕ} (he : e ≠ 117) (hu : unescapeUnit e = some u) (cs : JsString) :
    unquote (92 :: e :: cs) = (unquote cs).map fun r => (u :: r.1, r.2) := by
  rw [unquote.eq_def]
  simp [he, hu]

theorem unquote_hex {w x y z u : ℕ} (hu : unhex4 [w, x, y, z] = some u) (cs : JsString) :
    unquote (92 :: 117 :: w :: x :: y :: z :: cs) = (unquote cs).map fun r => (u :: r.1, r.2) := by
  rw [unquote.eq_def]
  simp [hu]

theorem unhex4_hex4 {c : ℕ} (hc : c < 65536) : unhex4 (hex4 c) = some c := by
  rw [unhex4, hex4, List.map_map]
  have hid : ∀ cs : List Char, cs.map (Char.ofNat ∘ Char.toNat) = cs := by
    intro cs
    simp [Function.comp_def, Char.ofNat_toNat]
  rw [hid]
  have h : scanNumber 16 4 0 (printNumber 16 4 c ++ []) = some (c, []) :=
    scanNumber_printNumber (by decide) hc []
  rw [List.append_nil] at h
  rw [h]
  rfl

/-- A code unit reads back from what was written for it. -/
theorem unquote_escapeUnit (c : ℕ) (cs : JsString) :
    unquote (escapeUnit c ++ cs) = (unquote cs).map fun r => (c :: r.1, r.2) := by
  unfold escapeUnit
  split
  · subst c; exact unquote_escape (by decide) rfl cs
  split
  · subst c; exact unquote_escape (by decide) rfl cs
  split
  · subst c; exact unquote_escape (by decide) rfl cs
  split
  · subst c; exact unquote_escape (by decide) rfl cs
  split
  · subst c; exact unquote_escape (by decide) rfl cs
  split
  · subst c; exact unquote_escape (by decide) rfl cs
  split
  · subst c; exact unquote_escape (by decide) rfl cs
  split
  · rename_i hhex
    have hc : c < 65536 := by
      simp only [isLead, isTrail, Bool.or_eq_true, Bool.and_eq_true, decide_eq_true_eq] at hhex
      omega
    obtain ⟨w, x, y, z, hdigits⟩ : ∃ w x y z, hex4 c = [w, x, y, z] := ⟨_, _, _, _, rfl⟩
    have h := unhex4_hex4 hc
    rw [hdigits] at h ⊢
    exact unquote_hex h cs
  · exact unquote_raw (by assumption) (by assumption) cs

/-- A string reads back from its quotes. -/
theorem unquote_quoteUnits (s rest : JsString) :
    unquote (quoteUnits s ++ 34 :: rest) = some (s, rest) := by
  induction s using quoteUnits.induct with
  | case1 => exact unquote_close rest
  | case2 c =>
    rw [quoteUnits, unquote_escapeUnit, unquote_close]
    rfl
  | case3 c d cs hpair ih =>
    rw [quoteUnits, if_pos hpair]
    simp only [isLead, isTrail, Bool.and_eq_true, decide_eq_true_eq] at hpair
    rw [List.cons_append, List.cons_append, unquote_raw (by omega) (by omega),
      unquote_raw (by omega) (by omega), ih]
    rfl
  | case4 c d cs hpair ih =>
    rw [quoteUnits, if_neg hpair, List.append_assoc, unquote_escapeUnit, ih]
    rfl

theorem quote_unique {s t r r' : JsString} (h : quote s ++ r = quote t ++ r') : s = t ∧ r = r' := by
  have hbody : quoteUnits s ++ 34 :: r = quoteUnits t ++ 34 :: r' := by
    simpa [quote] using h
  have hread := unquote_quoteUnits s r
  rw [hbody, unquote_quoteUnits, Option.some.injEq, Prod.mk.injEq] at hread
  exact ⟨hread.1.symm, hread.2.symm⟩

/-! ## Texts between commas -/

/-- Nothing follows, or a comma or a closing bracket. -/
def ValueEnds (r : JsString) : Prop := ∀ c ∈ r.head?, c = 44 ∨ c = 93 ∨ c = 125

/-- A text that is followed by an end can be read in one way. -/
def Readable {α : Type} (text : α → JsString) (x : α) : Prop :=
  ∀ y r r', ValueEnds r → ValueEnds r' → text x ++ r = text y ++ r' → x = y ∧ r = r'

/-- A text begins, and not with an end. -/
def Begins (cs : JsString) : Prop := ∃ c rest, cs = c :: rest ∧ c ≠ 44 ∧ c ≠ 93 ∧ c ≠ 125

theorem commas_cons {α : Type} (text : α → JsString) (x : α) (xs : List α) (r : JsString) :
    commas ((x :: xs).map text) ++ r =
      text x ++ if xs = [] then r else 44 :: (commas (xs.map text) ++ r) := by
  cases xs with
  | nil => rfl
  | cons y ys => simp [commas]

theorem commas_unique {α : Type} {text : α → JsString} {close : ℕ}
    (hclose : close = 93 ∨ close = 125) (hbegins : ∀ x, Begins (text x)) {xs ys : List α}
    (hreadable : ∀ x ∈ xs, Readable text x) {r r' : JsString}
    (h : commas (xs.map text) ++ close :: r = commas (ys.map text) ++ close :: r') :
    xs = ys ∧ r = r' := by
  have hne : ∀ (x : α) (zs : List α) (r r' : JsString),
      commas ((x :: zs).map text) ++ r ≠ close :: r' := by
    intro x zs r r' h
    obtain ⟨c, rest, hc, -, hsquare, hcurly⟩ := hbegins x
    rw [commas_cons, hc, List.cons_append] at h
    obtain ⟨rfl, -⟩ := List.cons.inj h
    exact hclose.elim hsquare hcurly
  have hends : ∀ (zs : List α) (r : JsString),
      ValueEnds (if zs = [] then close :: r else 44 :: (commas (zs.map text) ++ close :: r)) := by
    intro zs r c hc
    split at hc
    · obtain rfl : c = close := by simpa [eq_comm] using hc
      exact Or.inr hclose
    · obtain rfl : c = 44 := by simpa [eq_comm] using hc
      exact Or.inl rfl
  have hcomma : close ≠ 44 := by
    rcases hclose with rfl | rfl <;> decide
  induction xs generalizing ys with
  | nil =>
    cases ys with
    | nil => exact ⟨rfl, (List.cons.inj h).2⟩
    | cons y ys => exact absurd h.symm (hne y ys _ _)
  | cons x xs ih =>
    cases ys with
    | nil => exact absurd h (hne x xs _ _)
    | cons y ys =>
      rw [commas_cons, commas_cons] at h
      obtain ⟨rfl, hrest⟩ :=
        hreadable x (List.mem_cons_self ..) y _ _ (hends xs r) (hends ys r') h
      have hxs : ∀ z ∈ xs, Readable text z := fun z hz => hreadable z (List.mem_cons_of_mem _ hz)
      by_cases hnil : xs = []
      · by_cases hnil' : ys = []
        · rw [if_pos hnil, if_pos hnil'] at hrest
          rw [hnil, hnil']
          exact ⟨rfl, (List.cons.inj hrest).2⟩
        · rw [if_pos hnil, if_neg hnil'] at hrest
          exact absurd (List.cons.inj hrest).1 hcomma
      · by_cases hnil' : ys = []
        · rw [if_neg hnil, if_pos hnil'] at hrest
          exact absurd (List.cons.inj hrest).1.symm hcomma
        · rw [if_neg hnil, if_neg hnil'] at hrest
          obtain ⟨rfl, hr⟩ := ih hxs (List.cons.inj hrest).2
          exact ⟨rfl, hr⟩

/-! ## Normal forms -/

/-- A body without undefined fields. -/
inductive Normal where
  | null
  | bool (b : Bool)
  | num (n : Number)
  | str (s : JsString)
  | arr (xs : List Normal)
  | obj (fields : List (JsString × Normal))

mutual

/-- The body without its undefined fields, and with its keys sorted. -/
def normalize : Body → Normal
  | .null => .null
  | .bool b => .bool b
  | .num n => .num n
  | .str s => .str s
  | .arr xs => .arr (normalizeAll xs)
  | .obj fields => .obj ((normalizeFields fields).mergeSort fun a b => decide (a.1 ≤ b.1))

/-- The elements of an array. -/
def normalizeAll : List Body → List Normal
  | [] => []
  | x :: xs => normalize x :: normalizeAll xs

/-- The fields of an object that are not undefined. -/
def normalizeFields : List (JsString × Option Body) → List (JsString × Normal)
  | [] => []
  | (_, none) :: fields => normalizeFields fields
  | (key, some entry) :: fields => (key, normalize entry) :: normalizeFields fields

end

mutual

/-- The text of a normal form. -/
def Normal.print : Normal → JsString
  | .null => lit "null"
  | .bool b => if b then lit "true" else lit "false"
  | .num n => n.text.map Char.toNat
  | .str s => quote s
  | .arr xs => bracketed (Normal.printAll xs)
  | .obj fields => braced (Normal.printFields fields)

/-- The elements of an array. -/
def Normal.printAll : List Normal → List JsString
  | [] => []
  | x :: xs => x.print :: Normal.printAll xs

/-- The fields of an object. -/
def Normal.printFields : List (JsString × Normal) → List (JsString × JsString)
  | [] => []
  | (key, entry) :: fields => (key, entry.print) :: Normal.printFields fields

end

theorem Normal.printAll_eq (xs : List Normal) : Normal.printAll xs = xs.map Normal.print := by
  induction xs with
  | nil => rw [printAll, List.map_nil]
  | cons x xs ih => rw [printAll, ih, List.map_cons]

theorem Normal.printFields_eq (fields : List (JsString × Normal)) :
    Normal.printFields fields = fields.map fun f => (f.1, f.2.print) := by
  induction fields with
  | nil => rw [printFields, List.map_nil]
  | cons f fields ih => rw [printFields, ih, List.map_cons]

theorem normalizeAll_eq (xs : List Body) : normalizeAll xs = xs.map normalize := by
  induction xs with
  | nil => rw [normalizeAll, List.map_nil]
  | cons x xs ih => rw [normalizeAll, ih, List.map_cons]

theorem canonicalizeAll_eq (xs : List Body) : canonicalizeAll xs = xs.map canonicalize := by
  induction xs with
  | nil => rw [canonicalizeAll, List.map_nil]
  | cons x xs ih => rw [canonicalizeAll, ih, List.map_cons]

theorem mem_normalizeFields {fields : List (JsString × Option Body)} {f : JsString × Normal} :
    f ∈ normalizeFields fields ↔ ∃ entry, (f.1, some entry) ∈ fields ∧ normalize entry = f.2 := by
  induction fields with
  | nil => simp [normalizeFields]
  | cons g fields ih =>
    obtain ⟨key, value⟩ := g
    obtain ⟨k, n⟩ := f
    cases value with
    | none =>
      rw [normalizeFields, ih]
      simp
    | some entry =>
      rw [normalizeFields, List.mem_cons, ih]
      constructor
      · rintro (h | ⟨entry', hmem, hnormal⟩)
        · obtain ⟨rfl, rfl⟩ := Prod.mk.inj h
          exact ⟨entry, List.mem_cons_self .., rfl⟩
        · exact ⟨entry', List.mem_cons_of_mem _ hmem, hnormal⟩
      · rintro ⟨entry', hmem, hnormal⟩
        rcases List.mem_cons.mp hmem with h | hmem
        · obtain ⟨rfl, hentry⟩ := Prod.mk.inj h
          obtain rfl := Option.some.inj hentry
          exact Or.inl (Prod.ext rfl hnormal.symm)
        · exact Or.inr ⟨entry', hmem, hnormal⟩

/-- An induction over the bodies in a body. -/
theorem Body.induct {P : Body → Prop} (null : P .null) (bool : ∀ b, P (.bool b))
    (num : ∀ n, P (.num n)) (str : ∀ s, P (.str s)) (arr : ∀ xs, (∀ x ∈ xs, P x) → P (.arr xs))
    (obj : ∀ fields, (∀ key entry, (key, some entry) ∈ fields → P entry) → P (.obj fields)) :
    ∀ b, P b := by
  refine @Body.rec P (fun xs => ∀ x ∈ xs, P x)
    (fun fields => ∀ key entry, (key, some entry) ∈ fields → P entry)
    (fun f => ∀ entry, f.2 = some entry → P entry) (fun o => ∀ entry, o = some entry → P entry)
    null bool num str arr obj ?_ ?_ ?_ ?_ ?_ ?_ ?_
  · exact fun _ h => absurd h List.not_mem_nil
  · intro x xs hx hxs y hy
    rcases List.mem_cons.mp hy with rfl | hy
    · exact hx
    · exact hxs y hy
  · exact fun _ _ h => absurd h List.not_mem_nil
  · intro f fields hf hfields key entry hmem
    rcases List.mem_cons.mp hmem with rfl | hmem
    · exact hf entry rfl
    · exact hfields key entry hmem
  · exact fun _ _ h => h
  · exact fun _ h => absurd h (by simp)
  · intro b hb entry h
    rw [← Option.some.inj h]
    exact hb

/-- An induction over the normal forms in a normal form. -/
theorem Normal.induct {P : Normal → Prop} (null : P .null) (bool : ∀ b, P (.bool b))
    (num : ∀ n, P (.num n)) (str : ∀ s, P (.str s)) (arr : ∀ xs, (∀ x ∈ xs, P x) → P (.arr xs))
    (obj : ∀ fields, (∀ f ∈ fields, P f.2) → P (.obj fields)) : ∀ n, P n := by
  refine @Normal.rec P (fun xs => ∀ x ∈ xs, P x) (fun fields => ∀ f ∈ fields, P f.2)
    (fun f => P f.2) null bool num str arr obj ?_ ?_ ?_ ?_ ?_
  · exact fun _ h => absurd h List.not_mem_nil
  · intro x xs hx hxs y hy
    rcases List.mem_cons.mp hy with rfl | hy
    · exact hx
    · exact hxs y hy
  · exact fun _ h => absurd h List.not_mem_nil
  · intro f fields hf hfields g hg
    rcases List.mem_cons.mp hg with rfl | hg
    · exact hf
    · exact hfields g hg
  · exact fun _ _ h => h

/-- `canonicalize` writes the normal form. -/
theorem canonicalize_eq (b : Body) : canonicalize b = (normalize b).print := by
  induction b using Body.induct with
  | null => rw [canonicalize, normalize, Normal.print]
  | bool b => rw [canonicalize, normalize, Normal.print]
  | num n => rw [canonicalize, normalize, Normal.print]
  | str s => rw [canonicalize, normalize, Normal.print]
  | arr xs ih =>
    rw [canonicalize, normalize, Normal.print, canonicalizeAll_eq, normalizeAll_eq,
      Normal.printAll_eq, List.map_map]
    exact congrArg bracketed (List.map_congr_left ih)
  | obj fields ih =>
    have hfields : canonicalizeFields fields =
        (normalizeFields fields).map fun f => (f.1, f.2.print) := by
      induction fields with
      | nil => rw [canonicalizeFields, normalizeFields, List.map_nil]
      | cons f fields ihf =>
        have htail := ihf fun key entry h => ih key entry (List.mem_cons_of_mem _ h)
        obtain ⟨key, value⟩ := f
        cases value with
        | none => rw [canonicalizeFields, normalizeFields, htail]
        | some entry =>
          rw [canonicalizeFields, normalizeFields, htail, List.map_cons,
            ih key entry (List.mem_cons_self ..)]
    have hsort : ((normalizeFields fields).mergeSort fun a b => decide (a.1 ≤ b.1)).map
        (fun f => (f.1, f.2.print)) = ((normalizeFields fields).map fun f => (f.1, f.2.print)).mergeSort
          fun a b => decide (a.1 ≤ b.1) := List.map_mergeSort fun _ _ _ _ => rfl
    rw [canonicalize, normalize, Normal.print, Normal.printFields_eq, hfields, hsort]

end CafePos
