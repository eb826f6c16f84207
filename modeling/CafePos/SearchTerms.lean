import CafePos.OrderList
import Mathlib

/-!
# Search terms are literal

The term of a search becomes a pattern of `LIKE`: escaped, and with a `%` behind it. Read from
left to right the pattern asks for the characters of the term one after the other, and then for
anything.

* `like_literal` — characters that mean themselves are matched one by one;
* `like_escaped` — the pattern of a term matches what begins with the term, under any folding of
  the case that leaves the wildcards alone;
* `search_literal` — so for `LIKE` and for `ILIKE`, and the pattern never ends in its escape.
-/

namespace CafePos

/-- The character means something else than itself in a pattern. -/
def IsWildcard (c : Char) : Prop := c = '\\' ∨ c = '%' ∨ c = '_'

instance (c : Char) : Decidable (IsWildcard c) := inferInstanceAs (Decidable (_ ∨ _))

/-- A folding of the case, character by character, that neither moves a wildcard nor makes one. -/
structure KeepsWildcards (fold : Char → List Char) : Prop where
  wildcard : ∀ c, IsWildcard c → fold c = [c]
  literal : ∀ c, ¬ IsWildcard c → ∀ d ∈ fold c, ¬ IsWildcard d

/-- The matcher, reading from left to right, finds an escape with nothing behind it. -/
def dangles : List Char → Bool
  | [] => false
  | [c] => c == '\\'
  | c :: d :: pattern => if c = '\\' then dangles pattern else dangles (d :: pattern)

/-! ## The matcher, read from the left -/

theorem like_percent (text : List Char) : like ['%'] text = true := by
  rw [like.eq_def]
  simp only [if_true, List.any_eq_true]
  exact ⟨[], by simp, rfl⟩

/-- An escaped character is matched by itself. -/
theorem like_escape (c : Char) (pattern text : List Char) :
    like ('\\' :: c :: pattern) text = true ↔ ∃ rest, text = c :: rest ∧
      like pattern rest = true := by
  rw [like.eq_def]
  simp only [if_neg (show ¬ ('\\' = '%') by decide)]
  cases text with
  | nil => simp
  | cons d rest =>
    simp only [if_neg (show ¬ ('\\' = '_') by decide), if_true, Bool.and_eq_true, beq_iff_eq,
      List.cons.injEq]
    constructor
    · rintro ⟨rfl, hlike⟩
      exact ⟨rest, ⟨rfl, rfl⟩, hlike⟩
    · rintro ⟨_, ⟨rfl, rfl⟩, hlike⟩
      exact ⟨rfl, hlike⟩

/-- A character that means itself is matched by itself. -/
theorem like_cons {c : Char} (hc : ¬ IsWildcard c) (pattern text : List Char) :
    like (c :: pattern) text = true ↔ ∃ rest, text = c :: rest ∧ like pattern rest = true := by
  rw [IsWildcard, not_or, not_or] at hc
  rw [like.eq_def]
  simp only [if_neg hc.2.1]
  cases text with
  | nil => simp
  | cons d rest =>
    simp only [if_neg hc.2.2, if_neg hc.1, Bool.and_eq_true, beq_iff_eq, List.cons.injEq]
    constructor
    · rintro ⟨rfl, hlike⟩
      exact ⟨rest, ⟨rfl, rfl⟩, hlike⟩
    · rintro ⟨_, ⟨rfl, rfl⟩, hlike⟩
      exact ⟨rfl, hlike⟩

theorem like_literal {cs : List Char} (h : ∀ c ∈ cs, ¬ IsWildcard c) (pattern text : List Char) :
    like (cs ++ pattern) text = true ↔ ∃ rest, text = cs ++ rest ∧ like pattern rest = true := by
  induction cs generalizing text with
  | nil => simp
  | cons c cs ih =>
    rw [List.cons_append, like_cons (h c (List.mem_cons_self ..))]
    constructor
    · rintro ⟨rest, rfl, hrest⟩
      obtain ⟨rest', rfl, hlike⟩ := (ih (fun d hd => h d (List.mem_cons_of_mem _ hd)) rest).mp hrest
      exact ⟨rest', rfl, hlike⟩
    · rintro ⟨rest, rfl, hlike⟩
      exact ⟨cs ++ rest, rfl, (ih (fun d hd => h d (List.mem_cons_of_mem _ hd)) _).mpr
        ⟨rest, rfl, hlike⟩⟩

/-! ## Escaped terms -/

theorem escapeLikePrefix_cons (c : Char) (q : List Char) : escapeLikePrefix (c :: q) =
    (if IsWildcard c then ['\\', c] else [c]) ++ escapeLikePrefix q := rfl

/-- The pattern of a term, folded, matches the texts that begin with the folded term. -/
theorem like_escaped {fold : Char → List Char} (hfold : KeepsWildcards fold)
    (q text : List Char) :
    like ((escapeLikePrefix q ++ ['%']).flatMap fold) text = true ↔ q.flatMap fold <+: text := by
  induction q generalizing text with
  | nil =>
    have hpercent : (escapeLikePrefix [] ++ ['%']).flatMap fold = ['%'] := by
      simp [escapeLikePrefix, hfold.wildcard '%' (Or.inr (Or.inl rfl))]
    rw [hpercent]
    simp [like_percent]
  | cons c q ih =>
    rw [escapeLikePrefix_cons, List.append_assoc, List.flatMap_append, List.flatMap_cons]
    split
    · -- a wildcard is escaped, and the escape survives the folding
      rename_i hc
      have hescape : ['\\', c].flatMap fold = ['\\', c] := by
        simp [hfold.wildcard '\\' (Or.inl rfl), hfold.wildcard c hc]
      rw [hescape, hfold.wildcard c hc, List.cons_append, List.cons_append, List.nil_append,
        like_escape]
      constructor
      · rintro ⟨rest, rfl, hlike⟩
        obtain ⟨tail, htail⟩ := (ih rest).mp hlike
        exact ⟨tail, by rw [List.cons_append, List.nil_append, List.cons_append, htail]⟩
      · rintro ⟨tail, rfl⟩
        exact ⟨_, rfl, (ih _).mpr ⟨tail, rfl⟩⟩
    · rename_i hc
      rw [List.flatMap_singleton, like_literal (hfold.literal c hc)]
      constructor
      · rintro ⟨rest, rfl, hlike⟩
        obtain ⟨tail, htail⟩ := (ih rest).mp hlike
        exact ⟨tail, by rw [List.append_assoc, htail]⟩
      · rintro ⟨tail, rfl⟩
        exact ⟨_, List.append_assoc .., (ih _).mpr ⟨tail, rfl⟩⟩

/-- Without folding. -/
theorem keepsWildcards_self : KeepsWildcards fun c => [c] where
  wildcard _ _ := rfl
  literal c hc d hd := by
    rw [List.mem_singleton.mp hd]
    exact hc

/-- The pattern of a term does not end in its escape. -/
theorem dangles_escaped (q : List Char) : dangles (escapeLikePrefix q ++ ['%']) = false := by
  induction q with
  | nil => rfl
  | cons c q ih =>
    rw [escapeLikePrefix_cons, List.append_assoc]
    split
    · simpa [dangles] using ih
    · rename_i hc
      rw [IsWildcard, not_or] at hc
      rw [List.singleton_append]
      cases hrest : escapeLikePrefix q ++ ['%'] with
      | nil => simp at hrest
      | cons d rest =>
        rw [dangles, if_neg hc.1, ← hrest]
        exact ih

/-- **Search terms are literal.** A text matches the pattern of a term exactly if it begins with
the term; with the case of both folded, exactly if the folded text begins with the folded term;
and no pattern of a term ends in a dangling escape. -/
theorem search_literal :
    (∀ q name : String, like (escapeLikePrefix q.toList ++ ['%']) name.toList = true ↔
      q.toList <+: name.toList) ∧
    (∀ (fold : Char → List Char) (q name : String), KeepsWildcards fold →
      (like ((escapeLikePrefix q.toList ++ ['%']).flatMap fold) (name.toList.flatMap fold) =
        true ↔ q.toList.flatMap fold <+: name.toList.flatMap fold)) ∧
    ∀ q : String, dangles (escapeLikePrefix q.toList ++ ['%']) = false := by
  refine ⟨fun q name => ?_, fun fold q name hfold => like_escaped hfold _ _,
    fun q => dangles_escaped _⟩
  have h := like_escaped keepsWildcards_self q.toList name.toList
  simpa using h

/-- Upper case letters become lower case. -/
theorem keepsWildcards_toLower : KeepsWildcards fun c => [c.toLower] where
  wildcard c hc := by
    rcases hc with rfl | rfl | rfl <;> rfl
  literal c hc d hd := by
    rw [List.mem_singleton.mp hd, Char.toLower]
    split
    · -- a letter, so what it becomes lies beyond every wildcard
      rename_i hletter
      have hlow : 65 ≤ c.val.toNat ∧ c.val.toNat ≤ 90 := hletter
      have hval : 97 ≤ (c.val + ('a'.val - 'A'.val)).toNat := by
        have h32 : ('a'.val - 'A'.val : UInt32).toNat = 32 := by decide
        rw [UInt32.toNat_add, h32]
        omega
      rintro (h | h | h)
      · exact absurd (congrArg (fun d : Char => d.val.toNat) h ▸ hval) (by decide)
      · exact absurd (congrArg (fun d : Char => d.val.toNat) h ▸ hval) (by decide)
      · exact absurd (congrArg (fun d : Char => d.val.toNat) h ▸ hval) (by decide)
    · exact hc

/-- A search for what contains a wildcard, in either case. -/
example : like ((escapeLikePrefix "50%".toList ++ ['%']).flatMap fun c => [c.toLower])
    ("50% OFF".toList.flatMap fun c => [c.toLower]) = true :=
  (like_escaped keepsWildcards_toLower _ _).mpr ⟨" off".toList, by decide⟩

end CafePos
