import Mathlib

/-!
# What an error says

`describeError` (`common/errors/describe-error.ts`). Errors arrive wrapped, in each other's `cause`
and `errors`, and nothing keeps them from going in circles: the search is depth-first, takes the
innermost message it comes to, and shares the set of objects it has seen between all branches.

The objects of a thrown value are numbered; what is not an object has at most a name. The search
goes one object deeper with every step and enters none twice, so as many steps as there are objects
are enough (`detailOf_spec` counts them), and whatever the graph

* a message that can be reached is found: the answer is empty only if all of them are;
* what is answered is made of messages that can be reached, and never empty (`describeError_tells`).
-/

namespace CafePos

/-- A thrown value. -/
inductive Thrown (n : ℕ) where
  /-- an object -/
  | object (i : Fin n)
  /-- anything else, with its `name` if that is a string -/
  | other (name : Option String)
  deriving DecidableEq

/-- What the search reads of an object; a field that is not of the type it looks for is none. -/
structure ErrorObject (n : ℕ) where
  cause : Thrown n := .other none
  errors : Option (List (Thrown n)) := none
  message : Option String := none
  name : Option String := none

variable {n : ℕ}

/-- Visit the elements of a list in turn. -/
def inTurn {α β σ : Type} (visit : α → σ → β × σ) : List α → σ → List β × σ
  | [], seen => ([], seen)
  | a :: rest, seen =>
    let first := visit a seen
    let others := inTurn visit rest first.2
    (first.1 :: others.1, others.2)

/-- `detailOf`, with the steps it may still go deeper, and the objects seen. -/
def detailOf (heap : Fin n → ErrorObject n) :
    ℕ → Thrown n → Finset (Fin n) → String × Finset (Fin n)
  | _, .other _, seen => ("", seen)
  | 0, .object _, seen => ("", seen)
  | depth + 1, .object i, seen =>
    if i ∈ seen then ("", seen)
    else
      let fromCause := detailOf heap depth (heap i).cause (insert i seen)
      if fromCause.1 ≠ "" then fromCause
      else
        match (heap i).errors with
        | some errors =>
          let details := inTurn (detailOf heap depth) errors fromCause.2
          let nested := (details.1.filter (· ≠ "")).eraseDups
          if nested ≠ [] then ("; ".intercalate nested, details.2)
          else ((heap i).message.getD "", details.2)
        | none => ((heap i).message.getD "", fromCause.2)

/-- `fallbackName` -/
def fallbackName (heap : Fin n → ErrorObject n) (err : Thrown n) : String :=
  let name := match err with
    | .object i => (heap i).name
    | .other name => name
  if name.getD "" ≠ "" then name.getD "" else "unknown error"

/-- `describeError` -/
def describeError (heap : Fin n → ErrorObject n) (err : Thrown n) : String :=
  let detail := (detailOf heap (n + 1) err ∅).1
  if detail ≠ "" then detail else fallbackName heap err

/-! ## What can be reached -/

section reach

variable {heap : Fin n → ErrorObject n}

/-- The object names the value, as its cause or as one of its errors. -/
def Wraps (heap : Fin n → ErrorObject n) (i : Fin n) (v : Thrown n) : Prop :=
  (heap i).cause = v ∨ ∃ errors, (heap i).errors = some errors ∧ v ∈ errors

/-- The object can be reached from the value. -/
inductive Reaches (heap : Fin n → ErrorObject n) : Thrown n → Fin n → Prop
  | self {i : Fin n} : Reaches heap (.object i) i
  | inside {i j : Fin n} {v : Thrown n} : Wraps heap i v → Reaches heap v j →
      Reaches heap (.object i) j

/-- What is made of messages that can be reached. -/
inductive Tells (heap : Fin n → ErrorObject n) (v : Thrown n) : String → Prop
  | message {i : Fin n} {m : String} : Reaches heap v i → (heap i).message = some m → m ≠ "" →
      Tells heap v m
  | joined {ms : List String} : ms ≠ [] → ms.Nodup → (∀ m ∈ ms, Tells heap v m) →
      Tells heap v ("; ".intercalate ms)

/-- The object has nothing to say. -/
def Mute (heap : Fin n → ErrorObject n) (i : Fin n) : Prop := (heap i).message.getD "" = ""

theorem Tells.inside {i : Fin n} {v : Thrown n} {m : String} (h : Tells heap v m)
    (hi : Wraps heap i v) : Tells heap (.object i) m := by
  induction h with
  | message hreach hm hne => exact .message (.inside hi hreach) hm hne
  | joined hms hnodup _ ih => exact .joined hms hnodup ih

/-- What begins with something is not nothing. -/
theorem intercalate_ne_empty {ms : List String} (hms : ms ≠ []) (h : ∀ m ∈ ms, m ≠ "") :
    "; ".intercalate ms ≠ "" := by
  cases ms with
  | nil => exact absurd rfl hms
  | cons m ms =>
    have hm := h m List.mem_cons_self
    cases ms with
    | nil => simpa using hm
    | cons m' ms =>
      rw [String.intercalate_cons_cons]
      simp [String.append_eq_empty_iff, hm]

theorem Tells.ne_empty {v : Thrown n} {m : String} (h : Tells heap v m) : m ≠ "" := by
  induction h with
  | message _ _ hne => exact hne
  | joined hms _ _ ih => exact intercalate_ne_empty hms ih

/-- What is told comes from somewhere. -/
theorem Tells.exists_source {v : Thrown n} {m : String} (h : Tells heap v m) :
    ∃ i, Reaches heap v i ∧ ¬ Mute heap i := by
  induction h with
  | @message i m hreach hmessage hne =>
    refine ⟨i, hreach, fun h => hne ?_⟩
    rw [Mute, hmessage] at h
    exact h
  | joined hms _ _ ih =>
    obtain ⟨m, hm⟩ := List.exists_mem_of_ne_nil _ hms
    exact ih m hm

/-- A thrown value has some name. -/
theorem fallbackName_ne_empty (heap : Fin n → ErrorObject n) (err : Thrown n) :
    fallbackName heap err ≠ "" := by
  simp only [fallbackName]
  generalize Option.getD _ "" = name
  by_cases h : name = ""
  · simp [h]
  · simp [h]

/-- A list without repetitions has none. -/
theorem nodup_eraseDups {α : Type} [DecidableEq α] (l : List α) : l.eraseDups.Nodup := by
  induction hlength : l.length using Nat.strong_induction_on generalizing l with
  | _ k ih =>
    cases l with
    | nil => simp
    | cons a l =>
      rw [List.eraseDups_cons, List.nodup_cons]
      refine ⟨by simp [List.mem_eraseDups], ih _ ?_ _ rfl⟩
      rw [← hlength, List.length_cons]
      exact Nat.lt_succ_of_le (List.length_filter_le ..)

/-! ## The search -/

/-- What a visit answers and leaves. If it answers nothing, everything it has entered is mute, and
everything that names was entered too. -/
structure Searched (heap : Fin n → ErrorObject n) (v : Thrown n) (seen : Finset (Fin n))
    (out : String × Finset (Fin n)) : Prop where
  grows : seen ⊆ out.2
  tells : out.1 ≠ "" → Tells heap v out.1
  enters : out.1 = "" → ∀ i, v = .object i → i ∈ out.2
  mute : out.1 = "" → ∀ i ∈ out.2, i ∉ seen →
    Mute heap i ∧ ∀ j, Wraps heap i (.object j) → j ∈ out.2

/-- The same of visits in turn. -/
structure SearchedAll (heap : Fin n → ErrorObject n) (vs : List (Thrown n)) (seen : Finset (Fin n))
    (out : List String × Finset (Fin n)) : Prop where
  grows : seen ⊆ out.2
  tells : ∀ m ∈ out.1, m ≠ "" → ∃ v ∈ vs, Tells heap v m
  enters : (∀ m ∈ out.1, m = "") → ∀ i, .object i ∈ vs → i ∈ out.2
  mute : (∀ m ∈ out.1, m = "") → ∀ i ∈ out.2, i ∉ seen →
    Mute heap i ∧ ∀ j, Wraps heap i (.object j) → j ∈ out.2

/-- Visits in turn, each of which may rely on what was seen before it. -/
theorem SearchedAll.of_visits {visit : Thrown n → Finset (Fin n) → String × Finset (Fin n)}
    {seen₀ : Finset (Fin n)}
    (hvisit : ∀ v seen, seen₀ ⊆ seen → Searched heap v seen (visit v seen)) (vs : List (Thrown n))
    {seen : Finset (Fin n)} (hseen : seen₀ ⊆ seen) :
    SearchedAll heap vs seen (inTurn visit vs seen) := by
  induction vs generalizing seen with
  | nil =>
    refine ⟨Finset.Subset.refl _, nofun, nofun, fun _ i hi hnot => absurd hi hnot⟩
  | cons v vs ih =>
    have hfirst := hvisit v seen hseen
    have hrest := ih (hseen.trans hfirst.grows)
    rw [inTurn]
    refine ⟨hfirst.grows.trans hrest.grows, fun m hm hne => ?_, fun hall i hi => ?_,
      fun hall i hi hnot => ?_⟩
    · rcases List.mem_cons.mp hm with rfl | hm
      · exact ⟨v, List.mem_cons_self, hfirst.tells hne⟩
      · obtain ⟨u, hu, htells⟩ := hrest.tells m hm hne
        exact ⟨u, List.mem_cons_of_mem _ hu, htells⟩
    · have hempty := hall _ List.mem_cons_self
      have hothers := fun m hm => hall m (List.mem_cons_of_mem _ hm)
      rcases List.mem_cons.mp hi with heq | hi
      · exact hrest.grows (hfirst.enters hempty i heq.symm)
      · exact hrest.enters hothers i hi
    · have hempty := hall _ List.mem_cons_self
      have hothers := fun m hm => hall m (List.mem_cons_of_mem _ hm)
      by_cases hmid : i ∈ (visit v seen).2
      · obtain ⟨hm, hwraps⟩ := hfirst.mute hempty i hmid hnot
        exact ⟨hm, fun j hj => hrest.grows (hwraps j hj)⟩
      · exact hrest.mute hothers i hi hmid

/-- An object is entered: its cause is searched first, and then its errors. -/
theorem Searched.object {depth : ℕ}
    (ih : ∀ v seen, n < depth + seen.card → Searched heap v seen (detailOf heap depth v seen))
    {i : Fin n} {seen : Finset (Fin n)} (hdepth : n < depth + 1 + seen.card) :
    Searched heap (.object i) seen (detailOf heap (depth + 1) (.object i) seen) := by
  rw [detailOf]
  split
  · rename_i hi
    refine ⟨Finset.Subset.refl _, fun h => absurd rfl h, ?_, fun _ j hj hnot => absurd hj hnot⟩
    rintro - j heq
    obtain rfl := Thrown.object.inj heq
    exact hi
  · rename_i hi
    have hcard : n < depth + (insert i seen).card := by
      rw [Finset.card_insert_of_notMem hi]
      omega
    have hcause := ih (heap i).cause (insert i seen) hcard
    dsimp only
    generalize detailOf heap depth (heap i).cause (insert i seen) = fromCause at hcause ⊢
    have hmine : i ∈ fromCause.2 := hcause.grows (Finset.mem_insert_self i seen)
    have hseen : seen ⊆ fromCause.2 := (Finset.subset_insert i seen).trans hcause.grows
    split
    · -- the cause has something to say
      rename_i hne
      refine ⟨hseen, fun _ => (hcause.tells hne).inside (Or.inl rfl), fun h => absurd h hne,
        fun h => absurd h hne⟩
    · rename_i hempty
      have hempty : fromCause.1 = "" := not_not.mp hempty
      -- what was entered on the way to the cause
      have hmute : ∀ j ∈ fromCause.2, j ∉ seen → j ≠ i →
          Mute heap j ∧ ∀ k, Wraps heap j (.object k) → k ∈ fromCause.2 := fun j hj hnot hne =>
        hcause.mute hempty j hj fun hmem => (Finset.mem_insert.mp hmem).elim hne hnot
      have hown : (heap i).message.getD "" ≠ "" →
          Tells heap (.object i) ((heap i).message.getD "") := by
        intro hne
        cases hm : (heap i).message with
        | none =>
          rw [hm] at hne
          exact absurd rfl hne
        | some m =>
          rw [hm] at hne
          exact .message .self hm hne
      split
      · rename_i errors herrors
        have hall : SearchedAll heap errors fromCause.2 _ := .of_visits
          (fun v seen' hsub => ih v seen' (hcard.trans_le
            (Nat.add_le_add_left (Finset.card_le_card (hcause.grows.trans hsub)) _))) errors
          (Finset.Subset.refl fromCause.2)
        generalize inTurn (detailOf heap depth) errors fromCause.2 = details at hall ⊢
        split
        · -- one of the errors has
          rename_i hnested
          have htold : ∀ m ∈ (details.1.filter (· ≠ "")).eraseDups, Tells heap (.object i) m := by
            intro m hm
            obtain ⟨hm, hne⟩ := List.mem_filter.mp (List.mem_eraseDups.mp hm)
            obtain ⟨v, hv, htells⟩ := hall.tells m hm (of_decide_eq_true hne)
            exact htells.inside (Or.inr ⟨errors, herrors, hv⟩)
          have hjoined := Tells.joined hnested (nodup_eraseDups _) htold
          exact ⟨hseen.trans hall.grows, fun _ => hjoined, fun h => absurd h hjoined.ne_empty,
            fun h => absurd h hjoined.ne_empty⟩
        · rename_i hnested
          have hnone : ∀ m ∈ details.1, m = "" := by
            intro m hm
            by_contra hne
            have hin : m ∈ (details.1.filter (· ≠ "")).eraseDups :=
              List.mem_eraseDups.mpr (List.mem_filter.mpr ⟨hm, decide_eq_true hne⟩)
            rw [not_not.mp hnested] at hin
            cases hin
          refine ⟨hseen.trans hall.grows, hown, ?_, fun hmessage j hj hnot => ?_⟩
          · rintro - j heq
            obtain rfl := Thrown.object.inj heq
            exact hall.grows hmine
          · by_cases hbefore : j ∈ fromCause.2
            · by_cases hji : j = i
              · subst hji
                refine ⟨hmessage, fun k hk => ?_⟩
                rcases hk with hk | ⟨errors', herrors', hk⟩
                · exact hall.grows (hcause.enters hempty k hk)
                · obtain rfl := Option.some.inj (herrors.symm.trans herrors')
                  exact hall.enters hnone k hk
              · obtain ⟨hm, hwraps⟩ := hmute j hbefore hnot hji
                exact ⟨hm, fun k hk => hall.grows (hwraps k hk)⟩
            · exact hall.mute hnone j hj hbefore
      · rename_i herrors
        refine ⟨hseen, hown, ?_, fun hmessage j hj hnot => ?_⟩
        · rintro - j heq
          obtain rfl := Thrown.object.inj heq
          exact hmine
        · by_cases hji : j = i
          · subst hji
            refine ⟨hmessage, fun k hk => ?_⟩
            rcases hk with hk | ⟨errors, herrors', -⟩
            · exact hcause.enters hempty k hk
            · rw [herrors] at herrors'
              cases herrors'
          · exact hmute j hj hnot hji

/-- While fewer steps were taken than there are objects, the search is what it should be. -/
theorem detailOf_spec (depth : ℕ) (v : Thrown n) (seen : Finset (Fin n))
    (hdepth : n < depth + seen.card) : Searched heap v seen (detailOf heap depth v seen) := by
  induction depth generalizing v seen with
  | zero =>
    have hle : seen.card ≤ n := by simpa using Finset.card_le_univ seen
    omega
  | succ depth ih =>
    cases v with
    | other name =>
      rw [detailOf]
      exact ⟨Finset.Subset.refl _, fun h => absurd rfl h, nofun, fun _ i hi hnot => absurd hi hnot⟩
    | object i => exact .object ih hdepth

/-- Where the search answers nothing, nothing that can be reached has anything to say. -/
theorem Searched.mute_of_reaches {v : Thrown n} {out : String × Finset (Fin n)}
    (h : Searched heap v ∅ out) (hempty : out.1 = "") {i : Fin n} (hi : Reaches heap v i) :
    Mute heap i := by
  have hclosed := fun j hj => h.mute hempty j hj (Finset.notMem_empty j)
  have hmem : ∀ {u : Thrown n} {j : Fin n}, Reaches heap u j →
      (∀ k, u = .object k → k ∈ out.2) → j ∈ out.2 := by
    intro u j hj
    induction hj with
    | self => exact fun hu => hu _ rfl
    | inside hwraps _ ih =>
      refine fun hu => ih fun k hk => (hclosed _ (hu _ rfl)).2 k ?_
      rw [← hk]
      exact hwraps
  exact (hclosed i (hmem hi (h.enters hempty))).1

/-- A refused connection under a driver's error, which points back at its wrapper. -/
example : describeError
    (fun i : Fin 4 => match i with
      | 0 => { message := some "Failed query: select 1", cause := .object 1 }
      | 1 => { message := some "", cause := .object 0, errors := some [.object 2, .object 3] }
      | 2 => { message := some "connect ECONNREFUSED ::1" }
      | 3 => { message := some "connect ECONNREFUSED ::1", cause := .object 1 }) (.object 0) =
    "connect ECONNREFUSED ::1" := by decide +kernel

end reach

end CafePos
