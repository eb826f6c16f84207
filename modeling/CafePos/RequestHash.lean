import CafePos.Canonical
import CafePos.Relational.Sorting

/-!
# Request fingerprints

Two requests get the same text to hash exactly if their scopes are equal and their bodies are
equal up to the order of keys and up to undefined fields. That the text of a normal form can be
read in one way (`print_unique`) makes `canonicalize` injective on normal forms; that sorting
absorbs the order of keys (`same_iff`) makes the normal form canonical; and the length in front of
the scope says where the body begins (`hashInput_eq_iff`).
-/

namespace CafePos

open Text Relational

/-! ## Reading a text -/

/-- What a normal form begins with. -/
def Normal.Opens : Normal → ℕ → Prop
  | .null, c => c = 110
  | .bool _, c => c = 116 ∨ c = 102
  | .num _, c => c = 45 ∨ 48 ≤ c ∧ c ≤ 57
  | .str _, c => c = 34
  | .arr _, c => c = 91
  | .obj _, c => c = 123

theorem isDigit_toNat {c : Char} (h : c.isDigit = true) : 48 ≤ c.toNat ∧ c.toNat ≤ 57 := by
  simp only [Char.isDigit, Bool.and_eq_true, decide_eq_true_eq] at h
  exact h

theorem Normal.opens_print (n : Normal) : ∃ c rest, n.print = c :: rest ∧ n.Opens c := by
  cases n with
  | null => exact ⟨110, _, by rw [print]; rfl, rfl⟩
  | bool b =>
    cases b with
    | true => exact ⟨116, _, by rw [print]; rfl, Or.inl rfl⟩
    | false => exact ⟨102, _, by rw [print]; rfl, Or.inr rfl⟩
  | num n =>
    obtain ⟨c, rest, hc, hopen⟩ := n.head_text
    refine ⟨c.toNat, rest.map Char.toNat, by rw [print, hc, List.map_cons], ?_⟩
    rcases hopen with rfl | hdigit
    · exact Or.inl rfl
    · exact Or.inr (isDigit_toNat hdigit)
  | str s => exact ⟨34, _, by rw [print]; rfl, rfl⟩
  | arr xs => exact ⟨91, _, by rw [print]; rfl, rfl⟩
  | obj fields => exact ⟨123, _, by rw [print]; rfl, rfl⟩

theorem Normal.begins_print (n : Normal) : Begins n.print := by
  obtain ⟨c, rest, hc, hopen⟩ := n.opens_print
  refine ⟨c, rest, hc, ?_⟩
  cases n <;> simp only [Opens] at hopen <;> omega

theorem toNat_injective {cs ds : List Char} (h : cs.map Char.toNat = ds.map Char.toNat) :
    cs = ds := by
  refine List.map_injective_iff.mpr (fun c d h => ?_) h
  exact Char.ext (UInt32.toNat_inj.mp h)

/-- The text of a number ends where something else begins. -/
theorem number_unique {n m : Number} {r r' : JsString} (hr : ValueEnds r) (hr' : ValueEnds r')
    (h : n.text.map Char.toNat ++ r = m.text.map Char.toNat ++ r') : n = m ∧ r = r' := by
  have htext : ∀ k : Number, ∀ c ∈ k.text.map Char.toNat, ∃ d, InNumber d ∧ d.toNat = c := by
    intro k c hc
    obtain ⟨d, hd, rfl⟩ := List.mem_map.mp hc
    exact ⟨d, k.inNumber d hd, rfl⟩
  have hends : ∀ {r : JsString}, ValueEnds r → ∀ c ∈ r.head?, ¬ ∃ d, InNumber d ∧ d.toNat = c := by
    rintro r hr c hc ⟨d, hd, rfl⟩
    have hend := hr _ hc
    rcases hd with hdigit | rfl | rfl | rfl | rfl
    · have := isDigit_toNat hdigit
      omega
    all_goals simp at hend
  obtain ⟨htexts, hrest⟩ := span_unique (htext n) (htext m) (hends hr) (hends hr') h
  exact ⟨Number.text_injective (toNat_injective htexts), hrest⟩

/-- A field, as it stands between the braces. -/
def fieldText (f : JsString × Normal) : JsString := quote f.1 ++ 58 :: f.2.print

theorem begins_fieldText (f : JsString × Normal) : Begins (fieldText f) :=
  ⟨34, _, rfl, by decide, by decide, by decide⟩

/-- Equal texts begin with the same character, which tells what kind of value they are. -/
theorem opens_of_eq {n m : Normal} {r r' : JsString} (h : n.print ++ r = m.print ++ r') :
    ∃ c, n.Opens c ∧ m.Opens c := by
  obtain ⟨c, rest, hc, hopen⟩ := n.opens_print
  obtain ⟨d, rest', hd, hopen'⟩ := m.opens_print
  rw [hc, hd, List.cons_append, List.cons_append] at h
  exact ⟨c, hopen, (List.cons.inj h).1 ▸ hopen'⟩

/-- The text of a normal form can be read in one way. -/
theorem print_unique (n : Normal) : Readable Normal.print n := by
  induction n using Normal.induct with
  | null =>
    intro m r r' hr hr' h
    obtain ⟨c, hn, hm⟩ := opens_of_eq h
    cases m with
    | null => exact ⟨rfl, List.append_cancel_left h⟩
    | bool | num | str | arr | obj => simp only [Normal.Opens] at hn hm; omega
  | bool b =>
    intro m r r' hr hr' h
    obtain ⟨c, hn, hm⟩ := opens_of_eq h
    cases m with
    | bool b' =>
      have hb : b = b' := by
        rw [Normal.print, Normal.print] at h
        cases b <;> cases b' <;> first | rfl | exact absurd (List.cons.inj h).1 (by decide)
      subst hb
      exact ⟨rfl, List.append_cancel_left h⟩
    | null | num | str | arr | obj => simp only [Normal.Opens] at hn hm; omega
  | num k =>
    intro m r r' hr hr' h
    obtain ⟨c, hn, hm⟩ := opens_of_eq h
    cases m with
    | num k' =>
      rw [Normal.print, Normal.print] at h
      obtain ⟨rfl, hrest⟩ := number_unique hr hr' h
      exact ⟨rfl, hrest⟩
    | null | bool | str | arr | obj => simp only [Normal.Opens] at hn hm; omega
  | str s =>
    intro m r r' hr hr' h
    obtain ⟨c, hn, hm⟩ := opens_of_eq h
    cases m with
    | str t =>
      rw [Normal.print, Normal.print] at h
      obtain ⟨rfl, hrest⟩ := quote_unique h
      exact ⟨rfl, hrest⟩
    | null | bool | num | arr | obj => simp only [Normal.Opens] at hn hm; omega
  | arr xs ih =>
    intro m r r' hr hr' h
    obtain ⟨c, hn, hm⟩ := opens_of_eq h
    cases m with
    | arr ys =>
      rw [Normal.print, Normal.print, Normal.printAll_eq, Normal.printAll_eq] at h
      have hitems : commas (xs.map Normal.print) ++ 93 :: r =
          commas (ys.map Normal.print) ++ 93 :: r' := by
        simpa [bracketed] using h
      obtain ⟨rfl, hrest⟩ := commas_unique (Or.inl rfl) Normal.begins_print ih hitems
      exact ⟨rfl, hrest⟩
    | null | bool | num | str | obj => simp only [Normal.Opens] at hn hm; omega
  | obj fields ih =>
    intro m r r' hr hr' h
    obtain ⟨c, hn, hm⟩ := opens_of_eq h
    cases m with
    | obj fields' =>
      rw [Normal.print, Normal.print, Normal.printFields_eq, Normal.printFields_eq] at h
      have hitems : commas (fields.map fun f => quote f.1 ++ 58 :: f.2.print) ++ 125 :: r =
          commas (fields'.map fun f => quote f.1 ++ 58 :: f.2.print) ++ 125 :: r' := by
        simpa [braced, Function.comp_def] using h
      have hreadable : ∀ f ∈ fields, Readable fieldText f := by
        intro f hf g q q' hq hq' heq
        obtain ⟨key, entry⟩ := f
        obtain ⟨key', entry'⟩ := g
        rw [fieldText, fieldText, List.append_assoc, List.append_assoc] at heq
        obtain ⟨rfl, hentry⟩ := quote_unique heq
        obtain ⟨rfl, hrest⟩ := ih _ hf entry' q q' hq hq' (List.cons.inj hentry).2
        exact ⟨rfl, hrest⟩
      obtain ⟨rfl, hrest⟩ := commas_unique (Or.inr rfl) begins_fieldText hreadable hitems
      exact ⟨rfl, hrest⟩
    | null | bool | num | str | arr => simp only [Normal.Opens] at hn hm; omega

/-! ## Equality up to the order of keys -/

/-- The value of a field that is not undefined. -/
def field (fields : List (JsString × Option Body)) (key : JsString) : Option Body :=
  (fields.find? fun f => f.1 = key).bind Prod.snd

/-- The bodies are equal up to the order of keys and up to undefined fields, at every depth. -/
inductive Body.Same : Body → Body → Prop
  | null : Same .null .null
  | bool (b : Bool) : Same (.bool b) (.bool b)
  | num (n : Number) : Same (.num n) (.num n)
  | str (s : JsString) : Same (.str s) (.str s)
  /-- arrays are ordered -/
  | arr {xs ys : List Body} : List.Forall₂ Same xs ys → Same (.arr xs) (.arr ys)
  /-- objects have the same fields -/
  | obj {fields fields' : List (JsString × Option Body)} :
      (∀ key, Option.Rel Same (field fields key) (field fields' key)) →
      Same (.obj fields) (.obj fields')

/-- No object in the body has a key twice. -/
inductive Body.Distinct : Body → Prop
  | null : Distinct .null
  | bool (b : Bool) : Distinct (.bool b)
  | num (n : Number) : Distinct (.num n)
  | str (s : JsString) : Distinct (.str s)
  | arr {xs : List Body} : (∀ x ∈ xs, Distinct x) → Distinct (.arr xs)
  | obj {fields : List (JsString × Option Body)} : (fields.map Prod.fst).Nodup →
      (∀ key entry, (key, some entry) ∈ fields → Distinct entry) → Distinct (.obj fields)

theorem Body.Distinct.elements {xs : List Body} (h : Distinct (.arr xs)) :
    ∀ x ∈ xs, x.Distinct := by
  cases h with
  | arr h => exact h

theorem Body.Distinct.fields {fields : List (JsString × Option Body)}
    (h : Distinct (.obj fields)) : (fields.map Prod.fst).Nodup ∧
      ∀ key entry, (key, some entry) ∈ fields → entry.Distinct := by
  cases h with
  | obj hnodup hentries => exact ⟨hnodup, hentries⟩

/-- The body of a request, as a value of JavaScript. -/
abbrev JsonBody : Type := { b : Body // b.Distinct }

/-- An object has a field once. -/
theorem field_eq_some {fields : List (JsString × Option Body)} (h : (fields.map Prod.fst).Nodup)
    {key : JsString} {entry : Body} : field fields key = some entry ↔ (key, some entry) ∈ fields := by
  induction fields with
  | nil => simp [field]
  | cons f fields ih =>
    obtain ⟨hf, hnodup⟩ := List.nodup_cons.mp h
    rw [List.mem_cons]
    by_cases hkey : f.1 = key
    · rw [field, List.find?_cons_of_pos (by simpa using hkey), Option.bind_some]
      constructor
      · intro hentry
        exact Or.inl (Prod.ext hkey.symm hentry.symm)
      · rintro (heq | hmem)
        · rw [← heq]
        · exact absurd (hkey ▸ List.mem_map_of_mem hmem) hf
    · rw [field, List.find?_cons_of_neg (by simpa using hkey)]
      refine (ih hnodup).trans ⟨Or.inr, ?_⟩
      rintro (heq | hmem)
      · exact absurd (congrArg Prod.fst heq).symm hkey
      · exact hmem

theorem mem_normalizeFields_iff {fields : List (JsString × Option Body)}
    (h : (fields.map Prod.fst).Nodup) {key : JsString} {n : Normal} :
    (key, n) ∈ normalizeFields fields ↔ (field fields key).map normalize = some n := by
  rw [mem_normalizeFields, Option.map_eq_some_iff]
  exact exists_congr fun entry => and_congr_left fun _ => (field_eq_some h).symm

theorem nodup_normalizeFields {fields : List (JsString × Option Body)}
    (h : (fields.map Prod.fst).Nodup) : ((normalizeFields fields).map Prod.fst).Nodup := by
  have hsub : ((normalizeFields fields).map Prod.fst).Sublist (fields.map Prod.fst) := by
    clear h
    induction fields with
    | nil =>
      rw [normalizeFields]
      exact List.Sublist.refl _
    | cons f fields ih =>
      obtain ⟨key, value⟩ := f
      cases value with
      | none =>
        rw [normalizeFields]
        exact ih.cons key
      | some entry =>
        rw [normalizeFields]
        exact ih.cons_cons key
  exact h.sublist hsub

/-- Sorting by key absorbs the order of fields with distinct keys. -/
theorem sorted_fields_eq_iff {fs gs : List (JsString × Normal)} (hf : (fs.map Prod.fst).Nodup)
    (hg : (gs.map Prod.fst).Nodup) :
    (fs.mergeSort fun a b => decide (a.1 ≤ b.1)) = (gs.mergeSort fun a b => decide (a.1 ≤ b.1)) ↔
      ∀ f, f ∈ fs ↔ f ∈ gs := by
  constructor
  · intro h f
    rw [← (List.mergeSort_perm fs fun a b => decide (a.1 ≤ b.1)).mem_iff, h,
      (List.mergeSort_perm gs _).mem_iff]
  · intro h
    have hperm : fs.Perm gs :=
      (List.perm_ext_iff_of_nodup (List.Nodup.of_map _ hf) (List.Nodup.of_map _ hg)).mpr h
    refine (mergeSort_eq_iff (fun a b c hab hbc => ?_) (fun a b => ?_)
      (List.Nodup.of_map _ hg)).mpr (fun a ha b hb hab hba => ?_) fs gs hperm (List.Perm.refl _)
    · exact decide_eq_true (le_trans (of_decide_eq_true hab) (of_decide_eq_true hbc))
    · simpa using le_total a.1 b.1
    · exact List.inj_on_of_nodup_map hg ha hb
        (le_antisymm (of_decide_eq_true hab) (of_decide_eq_true hba))

theorem forall₂_iff {xs ys : List Body}
    (h : ∀ x ∈ xs, ∀ y ∈ ys, x.Same y ↔ normalize x = normalize y) :
    List.Forall₂ Body.Same xs ys ↔ xs.map normalize = ys.map normalize := by
  induction xs generalizing ys with
  | nil => cases ys <;> simp
  | cons x xs ih =>
    cases ys with
    | nil => simp
    | cons y ys =>
      rw [List.forall₂_cons, List.map_cons, List.map_cons, List.cons.injEq,
        h x (List.mem_cons_self ..) y (List.mem_cons_self ..)]
      exact and_congr_right fun _ => ih fun x' hx y' hy =>
        h x' (List.mem_cons_of_mem _ hx) y' (List.mem_cons_of_mem _ hy)

/-- The normal form is canonical. -/
theorem same_iff {b c : Body} (hb : b.Distinct) (hc : c.Distinct) :
    b.Same c ↔ normalize b = normalize c := by
  induction b using Body.induct generalizing c with
  | null =>
    constructor
    · intro h
      cases h
      rfl
    · intro h
      cases c with
      | null => exact .null
      | bool | num | str | arr | obj => rw [normalize, normalize] at h; cases h
  | bool b =>
    constructor
    · intro h
      cases h
      rfl
    · intro h
      cases c with
      | bool b' =>
        rw [normalize, normalize] at h
        obtain rfl := Normal.bool.inj h
        exact .bool b
      | null | num | str | arr | obj => rw [normalize, normalize] at h; cases h
  | num n =>
    constructor
    · intro h
      cases h
      rfl
    · intro h
      cases c with
      | num n' =>
        rw [normalize, normalize] at h
        obtain rfl := Normal.num.inj h
        exact .num n
      | null | bool | str | arr | obj => rw [normalize, normalize] at h; cases h
  | str s =>
    constructor
    · intro h
      cases h
      rfl
    · intro h
      cases c with
      | str s' =>
        rw [normalize, normalize] at h
        obtain rfl := Normal.str.inj h
        exact .str s
      | null | bool | num | arr | obj => rw [normalize, normalize] at h; cases h
  | arr xs ih =>
    obtain hxs := hb.elements
    cases c with
    | arr ys =>
      rw [normalize, normalize, normalizeAll_eq, normalizeAll_eq, Normal.arr.injEq,
        ← forall₂_iff fun x hx y hy => ih x hx (hxs x hx) (hc.elements y hy)]
      constructor
      · intro h
        cases h with
        | arr h => exact h
      · exact .arr
    | null | bool | num | str | obj =>
      rw [normalize, normalize]
      constructor <;> intro h <;> cases h
  | obj fields ih =>
    cases c with
    | obj fields' =>
      obtain ⟨hnodup, hentries⟩ := hb.fields
      obtain ⟨hnodup', hentries'⟩ := hc.fields
      have hfield : ∀ key, Option.Rel Body.Same (field fields key) (field fields' key) ↔
          (field fields key).map normalize = (field fields' key).map normalize := by
        intro key
        cases h : field fields key with
        | none =>
          cases h' : field fields' key with
          | none => simp
          | some entry' => simp
        | some entry =>
          cases h' : field fields' key with
          | none => simp
          | some entry' =>
            have hmem := (field_eq_some hnodup).mp h
            have hmem' := (field_eq_some hnodup').mp h'
            rw [Option.rel_some_some, ih key entry hmem (hentries key entry hmem)
              (hentries' key entry' hmem'), Option.map_some, Option.map_some, Option.some.injEq]
      rw [normalize, normalize, Normal.obj.injEq, sorted_fields_eq_iff
        (nodup_normalizeFields hnodup) (nodup_normalizeFields hnodup')]
      have hsame : Body.Same (.obj fields) (.obj fields') ↔
          ∀ key, Option.Rel Body.Same (field fields key) (field fields' key) := by
        constructor
        · intro h
          cases h with
          | obj h => exact h
        · exact .obj
      rw [hsame]
      constructor
      · intro h f
        rw [mem_normalizeFields_iff hnodup, mem_normalizeFields_iff hnodup',
          (hfield f.1).mp (h f.1)]
      · intro h key
        refine (hfield key).mpr (Option.ext fun n => ?_)
        have := h (key, n)
        rw [mem_normalizeFields_iff hnodup, mem_normalizeFields_iff hnodup'] at this
        exact this
    | null | bool | num | str | arr =>
      rw [normalize, normalize]
      constructor <;> intro h <;> cases h

/-- `canonicalize` gives two bodies the same text exactly if they are the same request. -/
theorem canonicalize_eq_iff (b c : JsonBody) :
    canonicalize b = canonicalize c ↔ b.val.Same c.val := by
  rw [same_iff b.2 c.2, canonicalize_eq, canonicalize_eq]
  constructor
  · intro h
    have hends : ValueEnds [] := fun _ h => by cases h
    exact (print_unique _ _ [] [] hends hends (congrArg (· ++ []) h)).1
  · exact congrArg _

/-- **Request fingerprints.** The texts fed to the hash are equal if and only if the scopes are
equal, and the bodies are equal up to the order of keys and up to undefined fields. -/
theorem hashInput_eq_iff (scope scope' : JsString) (body body' : JsonBody) :
    hashInput scope body = hashInput scope' body' ↔
      scope = scope' ∧ body.val.Same body'.val := by
  rw [← canonicalize_eq_iff]
  constructor
  · intro h
    rw [hashInput, hashInput, List.append_assoc, List.append_assoc] at h
    -- the length ends at the colon
    have hdigits : ∀ n : ℕ, ∀ c ∈ (Nat.toDigits 10 n).map Char.toNat, 48 ≤ c ∧ c ≤ 57 := by
      intro n c hc
      obtain ⟨d, hd, rfl⟩ := List.mem_map.mp hc
      exact isDigit_toNat (isDigit_toDigits hd)
    have hcolon : ∀ (s t : JsString), ∀ c ∈ (58 :: s ++ t).head?, ¬ (48 ≤ c ∧ c ≤ 57) := by
      intro s t c hc
      obtain rfl : c = 58 := by simpa [eq_comm] using hc
      decide
    obtain ⟨hlength, hrest⟩ := span_unique (hdigits _) (hdigits _) (hcolon _ _) (hcolon _ _) h
    exact List.append_inj (List.cons.inj hrest).2 (toDigits_injective (toNat_injective hlength))
  · rintro ⟨rfl, h⟩
    rw [hashInput, h]
    rfl

end CafePos
