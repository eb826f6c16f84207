import CafePos.Interleaving.Program
import Mathlib

/-!
# Worlds: any number of calls, interleaved

A `Machine` gives meaning to one operation of one call: it may change the shared
state, it may take or give up rows, and it may be unable to run while a row it
needs is held by another call. A `World` is the shared state together with every
call ever started. Its actions are

* `start c` — a new call begins;
* `step i inp` — call `i` performs its next operation, the outside supplying `inp`;
* `crash i` — the process running call `i` dies before it has answered: it never
  will, and an open transaction of it is gone;
* `world e` — something happens that no call of ours caused.

A *run* is any sequence of actions, so a statement about every run is a statement
about every interleaving of every number of calls. A `Permit` narrows the actions
of a run by a condition on the state before each of them, `Checked` by one on the whole
world before it.
-/

namespace Interleaving

variable {S L Row Op In Call E α : Type} {Res : Op → Type}

/-- The meaning of operations for one call, given the rows the others hold. -/
structure Machine (S L Row Op : Type) (Res : Op → Type) (In : Type) where
  /-- a connection that has done nothing yet -/
  idle : L
  /-- the rows a call holds -/
  held : L → List Row
  /-- what is left of a call whose process died -/
  abort : L → L
  /-- perform one operation; `none` means that it has to wait -/
  exec : (o : Op) → In → (Row → Bool) → L → S → Option (Res o × L × S)
  /-- row `x` was left alone -/
  keeps : Row → S → S → Prop
  idle_held : held idle = []
  abort_held : ∀ l, held (abort l) = []
  keeps_refl : ∀ x s, keeps x s s
  keeps_trans : ∀ x s t u, keeps x s t → keeps x t u → keeps x s u
  /-- an operation acquires only rows that nobody else holds -/
  exec_held : ∀ {o inp locked l s r l' s'}, exec o inp locked l s = some (r, l', s') →
    ∀ x ∈ held l', x ∈ held l ∨ locked x = false
  /-- an operation leaves alone the rows that somebody else holds -/
  exec_keeps : ∀ {o inp locked l s r l' s'}, exec o inp locked l s = some (r, l', s') →
    (∀ x ∈ held l, locked x = false) → ∀ x, locked x = true → keeps x s s'

/-- A machine, the program of every call, and what may happen by itself. What
happens by itself touches no row. -/
structure System (S L Row Op : Type) (Res : Op → Type) (In Call E α : Type) where
  /-- the meaning of operations -/
  machine : Machine S L Row Op Res In
  /-- what a call does -/
  program : Call → Prog Op Res α
  /-- what happens by itself -/
  world : E → S → Option S
  world_keeps : ∀ {e s s'}, world e s = some s' → ∀ x, machine.keeps x s s'

/-- One call: what was asked, its connection, and what is left to do (`none` once
its process has died). A call that has answered stays, with its answer. -/
structure Thread (L Op : Type) (Res : Op → Type) (Call α : Type) where
  /-- what was asked -/
  call : Call
  /-- the call's connection -/
  session : L
  /-- what is left to do -/
  prog : Option (Prog Op Res α)

/-- The shared state and every call ever started, in order of their start. -/
structure World (S L Op : Type) (Res : Op → Type) (Call α : Type) where
  /-- the shared state -/
  shared : S
  /-- the calls -/
  threads : List (Thread L Op Res Call α)

/-- An action of a world. -/
inductive Act (In Call E : Type) where
  /-- a new call begins -/
  | start (c : Call)
  /-- call `i` performs its next operation -/
  | step (i : ℕ) (inp : In)
  /-- the process running call `i` dies -/
  | crash (i : ℕ)
  /-- something happens by itself -/
  | world (e : E)

/-- Call `t` has answered `a`. -/
def Thread.Answered (t : Thread L Op Res Call α) (a : α) : Prop := t.prog = some (.done a)

instance [DecidableEq α] (t : Thread L Op Res Call α) (a : α) : Decidable (t.Answered a) :=
  match h : t.prog with
  | some (.done b) => decidable_of_iff (b = a) (by simp [Thread.Answered, h])
  | some (.op _ _) => isFalse (by simp [Thread.Answered, h])
  | none => isFalse (by simp [Thread.Answered, h])

/-- Call `t` has answered. -/
def Thread.returned (t : Thread L Op Res Call α) : Bool :=
  match t.prog with
  | some (.done _) => true
  | _ => false

theorem Thread.returned_iff {t : Thread L Op Res Call α} :
    t.returned = true ↔ ∃ a, t.Answered a := by
  rw [returned]
  split
  · rename_i a h
    exact ⟨fun _ => ⟨a, h⟩, fun _ => rfl⟩
  · rename_i h
    exact ⟨fun hf => (by cases hf), fun ⟨a, ha⟩ => absurd ha (h a)⟩

/-- Call `t` still has an operation to perform. -/
def Thread.Running (t : Thread L Op Res Call α) : Prop := ∃ o k, t.prog = some (.op o k)

namespace World

variable (M : System S L Row Op Res In Call E α)

/-- The world before the first call. -/
def initial (s : S) : World S L Op Res Call α := ⟨s, []⟩

/-- Row `x` is held by a call other than `i`. -/
def locked [DecidableEq Row] (w : World S L Op Res Call α) (i : ℕ) (x : Row) : Bool :=
  w.threads.zipIdx.any fun tj => decide (tj.2 ≠ i) && decide (x ∈ M.machine.held tj.1.session)

/-- Call `i`, at operation `o`, performs it. -/
def stepThread [DecidableEq Row] (w : World S L Op Res Call α) (i : ℕ) (inp : In)
    (t : Thread L Op Res Call α) (o : Op) (k : Res o → Prog Op Res α) :
    Option (World S L Op Res Call α) :=
  (M.machine.exec o inp (w.locked M i) t.session w.shared).map fun r =>
    ⟨r.2.2, w.threads.set i ⟨t.call, r.2.1, some (k r.1)⟩⟩

/-- One action. -/
def act [DecidableEq Row] (w : World S L Op Res Call α) :
    Act In Call E → Option (World S L Op Res Call α)
  | .start c => some ⟨w.shared, w.threads ++ [⟨c, M.machine.idle, some (M.program c)⟩]⟩
  | .step i inp =>
    match w.threads[i]? with
    | some t =>
      match t.prog with
      | some (.op o k) => w.stepThread M i inp t o k
      | _ => none
    | none => none
  | .crash i =>
    match w.threads[i]? with
    | some t =>
      match t.prog with
      | some (.op _ _) =>
        some ⟨w.shared, w.threads.set i ⟨t.call, M.machine.abort t.session, none⟩⟩
      | _ => none
    | none => none
  | .world e => (M.world e w.shared).map fun s => ⟨s, w.threads⟩

/-- What an action does, case by case. -/
inductive Transition [DecidableEq Row] (w : World S L Op Res Call α) :
    Act In Call E → World S L Op Res Call α → Prop
  | start (c : Call) :
      Transition w (.start c) ⟨w.shared, w.threads ++ [⟨c, M.machine.idle, some (M.program c)⟩]⟩
  | step {i : ℕ} {inp : In} {t : Thread L Op Res Call α} {o : Op} {k : Res o → Prog Op Res α}
      {r : Res o} {l' : L} {s' : S} : w.threads[i]? = some t → t.prog = some (.op o k) →
      M.machine.exec o inp (w.locked M i) t.session w.shared = some (r, l', s') →
      Transition w (.step i inp) ⟨s', w.threads.set i ⟨t.call, l', some (k r)⟩⟩
  | crash {i : ℕ} {t : Thread L Op Res Call α} : w.threads[i]? = some t → t.Running →
      Transition w (.crash i)
        ⟨w.shared, w.threads.set i ⟨t.call, M.machine.abort t.session, none⟩⟩
  | world {e : E} {s' : S} : M.world e w.shared = some s' →
      Transition w (.world e) ⟨s', w.threads⟩

variable {M} in
theorem transition_of_act [DecidableEq Row] {w w' : World S L Op Res Call α} {a : Act In Call E}
    (h : w.act M a = some w') : w.Transition M a w' := by
  cases a with
  | start c =>
    obtain rfl := Option.some.inj h
    exact .start c
  | step i inp =>
    simp only [act] at h
    split at h
    · rename_i t ht
      split at h
      · rename_i o k hp
        obtain ⟨⟨r, l', s'⟩, hx, rfl⟩ := Option.map_eq_some_iff.mp h
        exact .step ht hp hx
      · cases h
    · cases h
  | crash i =>
    simp only [act] at h
    split at h
    · rename_i t ht
      split at h
      · rename_i o k hp
        obtain rfl := Option.some.inj h
        exact .crash ht ⟨o, k, hp⟩
      · cases h
    · cases h
  | world e =>
    obtain ⟨s', hs', rfl⟩ := Option.map_eq_some_iff.mp h
    exact .world hs'

/-- A sequence of actions, each of which passes a check. -/
def runIf [DecidableEq Row] (passes : World S L Op Res Call α → Act In Call E → Bool)
    (w : World S L Op Res Call α) : List (Act In Call E) → Option (World S L Op Res Call α)
  | [] => some w
  | a :: as => if passes w a then (w.act M a).bind fun w' => w'.runIf passes as else none

end World

/-- A condition on the actions of a run, stated on the state before each action. -/
structure Permit (S L Op Call E : Type) where
  /-- the calls that may begin -/
  start : Call → Prop
  /-- the operations a call may perform -/
  step : Call → Op → L → S → Prop
  /-- processes may die -/
  crash : Prop
  /-- what may happen by itself -/
  world : E → Prop

/-- Every action is permitted. -/
def Permit.all : Permit S L Op Call E := ⟨fun _ => True, fun _ _ _ _ => True, True, fun _ => True⟩

/-- Every action is permitted, but for the operations that fail a check. -/
def Permit.ofCheck (check : Call → Op → L → S → Bool) : Permit S L Op Call E :=
  ⟨fun _ => True, fun c o l s => check c o l s = true, True, fun _ => True⟩

/-- The permit `P` allows action `a` in world `w`. -/
def Permit.Allows (P : Permit S L Op Call E) (w : World S L Op Res Call α) :
    Act In Call E → Prop
  | .start c => P.start c
  | .step i _ => ∀ t o k, w.threads[i]? = some t → t.prog = some (.op o k) →
      P.step t.call o t.session w.shared
  | .crash _ => P.crash
  | .world e => P.world e

/-- The operation that `a` performs in world `w`, if it performs one, passes the check. -/
def World.passes (check : Call → Op → L → S → Bool) (w : World S L Op Res Call α) :
    Act In Call E → Bool
  | .step i _ =>
    match w.threads[i]? with
    | some t =>
      match t.prog with
      | some (.op o _) => check t.call o t.session w.shared
      | _ => true
    | none => true
  | _ => true

theorem World.allows_of_passes {check : Call → Op → L → S → Bool} {w : World S L Op Res Call α}
    {a : Act In Call E} (h : w.passes check a = true) : (Permit.ofCheck check).Allows w a := by
  cases a with
  | step i inp =>
    intro t o k ht hp
    simp only [World.passes, ht, hp] at h
    exact h
  | start c => trivial
  | crash i => trivial
  | world e => trivial

/-- The runs from `w₀` all of whose actions are permitted. -/
inductive Runs [DecidableEq Row] (M : System S L Row Op Res In Call E α)
    (P : Permit S L Op Call E) (w₀ : World S L Op Res Call α) :
    World S L Op Res Call α → Prop
  | refl : Runs M P w₀ w₀
  | tail {w w' : World S L Op Res Call α} {a : Act In Call E} :
      Runs M P w₀ w → P.Allows w a → w.act M a = some w' → Runs M P w₀ w'

namespace Runs

variable [DecidableEq Row] {M : System S L Row Op Res In Call E α} {P : Permit S L Op Call E}

theorem trans {w₀ w₁ w₂ : World S L Op Res Call α} (h₁ : Runs M P w₀ w₁)
    (h₂ : Runs M P w₁ w₂) : Runs M P w₀ w₂ := by
  induction h₂ with
  | refl => exact h₁
  | tail _ ha hs ih => exact ih.tail ha hs

theorem mono {Q : Permit S L Op Call E} {w₀ w : World S L Op Res Call α}
    (hPQ : ∀ (w : World S L Op Res Call α) (a : Act In Call E), P.Allows w a → Q.Allows w a)
    (h : Runs M P w₀ w) : Runs M Q w₀ w := by
  induction h with
  | refl => exact .refl
  | tail _ ha hs ih => exact ih.tail (hPQ _ _ ha) hs

/-- Every action is allowed by the permit that permits everything. -/
theorem allows_all (w : World S L Op Res Call α) (a : Act In Call E) :
    (Permit.all : Permit S L Op Call E).Allows w a := by
  cases a <;> simp [Permit.Allows, Permit.all]

/-- A call stays where it was started, its session moves along `R` if every operation
moves it so, and an answer is final. -/
theorem thread {R : L → L → Prop} (hrefl : ∀ l, R l l)
    (htrans : ∀ {l₁ l₂ l₃}, R l₁ l₂ → R l₂ l₃ → R l₁ l₃)
    (hexec : ∀ {o inp locked l s r l' s'},
      M.machine.exec o inp locked l s = some (r, l', s') → R l l')
    (habort : ∀ l, R l (M.machine.abort l)) {w w' : World S L Op Res Call α}
    (h : Runs M P w w') {i : ℕ} {t : Thread L Op Res Call α} (ht : w.threads[i]? = some t) :
    ∃ t', w'.threads[i]? = some t' ∧ t'.call = t.call ∧ R t.session t'.session ∧
      ∀ a, t.Answered a → t' = t := by
  induction h with
  | refl => exact ⟨t, ht, rfl, hrefl _, fun _ _ => rfl⟩
  | tail _ _ hs ih =>
    obtain ⟨t₁, ht₁, hc, hR, hans⟩ := ih
    -- replacing call `j` by a later state of it
    have hset : ∀ {ts : List (Thread L Op Res Call α)} {j : ℕ} {u u' : Thread L Op Res Call α},
        ts[i]? = some t₁ → ts[j]? = some u → u.Running → u'.call = u.call →
        R u.session u'.session →
        ∃ t', (ts.set j u')[i]? = some t' ∧ t'.call = t.call ∧ R t.session t'.session ∧
          ∀ a, t.Answered a → t' = t := by
      intro ts j u u' hi hj ⟨o, k, hp⟩ hcall hsess
      by_cases hij : j = i
      · subst hij
        obtain rfl := Option.some.inj (hi.symm.trans hj)
        refine ⟨u', List.getElem?_set_self (List.getElem?_eq_some_iff.mp hj).1,
          hcall.trans hc, htrans hR hsess, fun a ha => ?_⟩
        obtain rfl := hans a ha
        exact absurd (ha.symm.trans hp) (by simp)
      · exact ⟨t₁, by rw [List.getElem?_set_ne hij]; exact hi, hc, hR, hans⟩
    cases World.transition_of_act hs with
    | start c =>
      have hlt := (List.getElem?_eq_some_iff.mp ht₁).1
      exact ⟨t₁, by rw [List.getElem?_append_left hlt]; exact ht₁, hc, hR, hans⟩
    | step hj hp hx => exact hset ht₁ hj ⟨_, _, hp⟩ rfl (hexec hx)
    | crash hj hp => exact hset ht₁ hj hp rfl (habort _)
    | world _ => exact ⟨t₁, ht₁, hc, hR, hans⟩

/-- A sequence of actions that pass a check is a run, if what passes is permitted. -/
theorem of_runIf {passes : World S L Op Res Call α → Act In Call E → Bool}
    (hpasses : ∀ w a, passes w a = true → P.Allows w a) {w₀ w w' : World S L Op Res Call α}
    (h : Runs M P w₀ w) {as : List (Act In Call E)} (hr : w.runIf M passes as = some w') :
    Runs M P w₀ w' := by
  induction as generalizing w with
  | nil =>
    obtain rfl := Option.some.inj hr
    exact h
  | cons a as ih =>
    rw [World.runIf] at hr
    split at hr
    · rename_i ha
      obtain ⟨w₁, hact, hr'⟩ := Option.bind_eq_some_iff.mp hr
      exact ih (h.tail (hpasses w a ha) hact) hr'
    · cases hr

/-- A sequence of actions evaluated: there is a run to a world in which `p` holds. -/
theorem exists_of_runIf {passes : World S L Op Res Call α → Act In Call E → Bool}
    (hpasses : ∀ w a, passes w a = true → P.Allows w a) {w : World S L Op Res Call α}
    {as : List (Act In Call E)} {p : World S L Op Res Call α → Prop} [DecidablePred p]
    (h : (w.runIf M passes as).any (fun w' => decide (p w')) = true) :
    ∃ w', Runs M P w w' ∧ p w' := by
  obtain ⟨w', hw', hp⟩ := (Option.any_eq_true _ _).mp h
  exact ⟨w', of_runIf hpasses .refl hw', of_decide_eq_true hp⟩

/-- The same, where everything is permitted. -/
theorem exists_of_acts (M : System S L Row Op Res In Call E α) (w : World S L Op Res Call α)
    (as : List (Act In Call E)) (p : World S L Op Res Call α → Prop) [DecidablePred p]
    (h : (w.runIf M (fun _ _ => true) as).any (fun w' => decide (p w')) = true) :
    ∃ w', Runs M .all w w' ∧ p w' :=
  exists_of_runIf (fun w a _ => allows_all w a) h

/-- The same, where every operation passes a check. -/
theorem exists_of_passes (M : System S L Row Op Res In Call E α)
    (check : Call → Op → L → S → Bool) (w : World S L Op Res Call α)
    (as : List (Act In Call E)) (p : World S L Op Res Call α → Prop) [DecidablePred p]
    (h : (w.runIf M (World.passes check) as).any (fun w' => decide (p w')) = true) :
    ∃ w', Runs M (.ofCheck check) w w' ∧ p w' :=
  exists_of_runIf (fun _ _ hpass => World.allows_of_passes hpass) h

end Runs

/-- The runs from `w₀` all of whose actions pass a condition on the whole world. -/
inductive Checked [DecidableEq Row] (M : System S L Row Op Res In Call E α)
    (ok : World S L Op Res Call α → Act In Call E → Prop) (w₀ : World S L Op Res Call α) :
    World S L Op Res Call α → Prop
  | refl : Checked M ok w₀ w₀
  | tail {w w' : World S L Op Res Call α} {a : Act In Call E} :
      Checked M ok w₀ w → ok w a → w.act M a = some w' → Checked M ok w₀ w'

namespace Checked

variable [DecidableEq Row] {M : System S L Row Op Res In Call E α}
  {ok : World S L Op Res Call α → Act In Call E → Prop}

/-- A permit that allows what passes the condition. -/
theorem permitted {P : Permit S L Op Call E} (hP : ∀ w a, ok w a → P.Allows w a)
    {w₀ w : World S L Op Res Call α} (h : Checked M ok w₀ w) : Runs M P w₀ w := by
  induction h with
  | refl => exact .refl
  | tail _ ha hs ih => exact ih.tail (hP _ _ ha) hs

theorem runs {w₀ w : World S L Op Res Call α} (h : Checked M ok w₀ w) : Runs M .all w₀ w :=
  h.permitted fun w a _ => Runs.allows_all w a

theorem trans {w₀ w₁ w₂ : World S L Op Res Call α} (h₁ : Checked M ok w₀ w₁)
    (h₂ : Checked M ok w₁ w₂) : Checked M ok w₀ w₂ := by
  induction h₂ with
  | refl => exact h₁
  | tail _ ha hs ih => exact ih.tail ha hs

/-- A sequence of actions evaluated: there is such a run to a world in which `p` holds. -/
theorem exists_of_runIf (passes : World S L Op Res Call α → Act In Call E → Bool)
    (w : World S L Op Res Call α) (as : List (Act In Call E))
    (p : World S L Op Res Call α → Prop) [DecidablePred p]
    (h : (w.runIf M passes as).any (fun w' => decide (p w')) = true) :
    ∃ w', Checked M (fun w a => passes w a = true) w w' ∧ p w' := by
  have hrun : ∀ {as : List (Act In Call E)} {v w' : World S L Op Res Call α},
      v.runIf M passes as = some w' → Checked M (fun w a => passes w a = true) v w' := by
    intro as
    induction as with
    | nil =>
      intro v w' hr
      obtain rfl := Option.some.inj hr
      exact .refl
    | cons a as ih =>
      intro v w' hr
      rw [World.runIf] at hr
      split at hr
      · rename_i ha
        obtain ⟨v', hact, hr'⟩ := Option.bind_eq_some_iff.mp hr
        exact (Checked.refl.tail ha hact).trans (ih hr')
      · cases hr
  obtain ⟨w', hw', hp⟩ := (Option.any_eq_true _ _).mp h
  exact ⟨w', hrun hw', of_decide_eq_true hp⟩

end Checked

end Interleaving
