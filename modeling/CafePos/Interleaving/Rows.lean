import CafePos.Interleaving.Session
import CafePos.Interleaving.Table
import CafePos.Interleaving.Atomic

/-!
# Transactions over one table

A table at READ COMMITTED, where a transaction locks the rows it writes and the rows it selects
`FOR UPDATE`. A statement that touches many rows takes them one after the other: its rows are
chosen in one step, on the snapshot of the statement, and each of them is locked in a step of its
own, on what is committed by then.

Besides its session a call may carry a note of what its statements have told it; nothing a
statement does depends on the note.
-/

namespace Interleaving.Rows

variable {K V Q In N : Type} [DecidableEq K] {Ans : Q → Type}

/-- A write to one row. -/
inductive Write (K V : Type) where
  /-- insert a row, or replace it -/
  | put (k : K) (v : V)
  /-- delete a row -/
  | erase (k : K)

/-- The row that is written. -/
def Write.row : Write K V → K
  | put k _ => k
  | erase k => k

/-- The effect of a write. -/
def Write.apply (t : Table K V) : Write K V → Table K V
  | put k v => t.put k v
  | erase k => t.keep fun k' _ => k' != k

theorem Write.get_apply (w : Write K V) (t : Table K V) {k : K} (h : k ≠ w.row) :
    (w.apply t).get k = t.get k := by
  cases w with
  | put k' v => exact Table.get_put_ne t v h
  | erase k' =>
    have hk : (k != k') = true := bne_iff_ne.mpr h
    rw [apply, Table.get_keep, hk]
    cases t.get k <;> rfl

/-- A table as its transactions see it. -/
def store : Store (Table K V) (Write K V) K where
  apply w t := w.apply t
  rows w := [w.row]
  keeps k t t' := t'.get k = t.get k
  keeps_refl _ _ := rfl
  keeps_trans _ _ _ _ h h' := h'.trans h
  apply_keeps w t _ h := w.get_apply t (List.ne_of_not_mem_cons h)

/-- A connection, and what its call has noted. -/
structure Conn (K V N : Type) [DecidableEq K] where
  /-- the transaction -/
  session : Session (Write K V) K Empty (store (K := K) (V := V)).rows
  /-- what the call knows -/
  note : N

/-- What a call of a service asks of the database, with statements `Q`. -/
inductive Op (Q : Type) where
  /-- `BEGIN` -/
  | begin
  /-- `COMMIT` -/
  | commit
  /-- `ROLLBACK` -/
  | rollback
  /-- a statement, or one row of it -/
  | statement (q : Q)

/-- What an operation returns. -/
def Op.Res (Ans : Q → Type) : Op Q → Type
  | begin => Unit
  | commit => Unit
  | rollback => Unit
  | statement q => Ans q

/-- What the statements mean. -/
structure Language (K V Q : Type) (Ans : Q → Type) (In N : Type) where
  /-- what a statement does to the state it is evaluated on -/
  effect : (q : Q) → In → Table K V → Effect (Write K V) K (Ans q)
  /-- what is known before the first statement -/
  blank : N
  /-- what is known after a statement -/
  learn : (q : Q) → Ans q → N → N
  /-- what stays known after a commit -/
  onCommit : N → N
  /-- what stays known after a rollback -/
  onRollback : N → N

/-- Perform one operation. -/
def exec (D : Language K V Q Ans In N) (inp : In) (locked : K → Bool) (l : Conn K V N)
    (s : Table K V) : (o : Op Q) → Option (o.Res Ans × Conn K V N × Table K V)
  | .begin => some ((), ⟨l.session.begin, D.blank⟩, s)
  | .commit => some ((), ⟨(l.session.commit store s).1, D.onCommit l.note⟩,
      (l.session.commit store s).2)
  | .rollback => some ((), ⟨l.session.rollback, D.onRollback l.note⟩, s)
  | .statement q => (l.session.execute store (D.effect q inp) locked s).map fun r =>
      (r.1, ⟨r.2.1, D.learn q r.1 l.note⟩, r.2.2)

variable {D : Language K V Q Ans In N}

theorem exec_held {o : Op Q} {inp : In} {locked : K → Bool} {l l' : Conn K V N}
    {s s' : Table K V} {r : o.Res Ans} (h : exec D inp locked l s o = some (r, l', s')) :
    ∀ x ∈ l'.session.held, x ∈ l.session.held ∨ locked x = false := by
  cases o with
  | statement q =>
    obtain ⟨r', hr, hr'⟩ := Option.map_eq_some_iff.mp h
    obtain ⟨-, rfl, -⟩ := Prod.mk.inj hr' |>.imp_right Prod.mk.inj
    exact Session.execute_held hr
  | begin | commit | rollback =>
    obtain ⟨-, rfl, -⟩ := Option.some.inj h |> Prod.mk.inj |>.imp_right Prod.mk.inj
    exact fun x hx => absurd hx List.not_mem_nil

theorem exec_keeps {o : Op Q} {inp : In} {locked : K → Bool} {l l' : Conn K V N}
    {s s' : Table K V} {r : o.Res Ans} (h : exec D inp locked l s o = some (r, l', s'))
    (hfree : ∀ x ∈ l.session.held, locked x = false) (x : K) (hx : locked x = true) :
    s'.get x = s.get x := by
  cases o with
  | statement q =>
    obtain ⟨r', hr, hr'⟩ := Option.map_eq_some_iff.mp h
    obtain ⟨-, -, rfl⟩ := Prod.mk.inj hr' |>.imp_right Prod.mk.inj
    exact Session.execute_keeps (D := store) hr hx
  | commit =>
    obtain ⟨-, -, rfl⟩ := Option.some.inj h |> Prod.mk.inj |>.imp_right Prod.mk.inj
    refine Session.commit_keeps (D := store) (fun hheld => ?_) s
    rw [hfree x hheld] at hx
    cases hx
  | begin | rollback =>
    obtain ⟨-, -, rfl⟩ := Option.some.inj h |> Prod.mk.inj |>.imp_right Prod.mk.inj
    rfl

/-- The meaning of the operations; a process that dies takes its transaction with it. -/
def machine (D : Language K V Q Ans In N) :
    Machine (Table K V) (Conn K V N) K (Op Q) (Op.Res Ans) In where
  idle := ⟨.idle _, D.blank⟩
  held l := l.session.held
  abort l := ⟨l.session.rollback, D.blank⟩
  exec o inp locked l s := exec D inp locked l s o
  keeps k t t' := t'.get k = t.get k
  idle_held := rfl
  abort_held _ := rfl
  keeps_refl _ _ := rfl
  keeps_trans _ _ _ _ h h' := h'.trans h
  exec_held := exec_held
  exec_keeps h hfree x hx := exec_keeps h hfree x hx

/-! ## What a transaction sees -/

/-- What a transaction sees. -/
def Conn.view (l : Conn K V N) (s : Table K V) : Table K V := l.session.view store s

theorem Conn.view_eq {l : Conn K V N} (h : l.session.log = []) (s : Table K V) : l.view s = s := by
  rw [view, Session.view, h]
  rfl

/-- A row that is the same in two states is the same under the same writes. -/
theorem Conn.get_view_congr (l : Conn K V N) {s s' : Table K V} {k : K} (h : s'.get k = s.get k) :
    (l.view s').get k = (l.view s).get k := by
  have happly : ∀ (log : List (Write K V)) (s s' : Table K V), s'.get k = s.get k →
      (store.applyAll log s').get k = (store.applyAll log s).get k := by
    intro log
    induction log with
    | nil => exact fun _ _ h => h
    | cons w log ih =>
      intro s s' h
      refine ih _ _ ?_
      by_cases hk : k = w.row
      · subst hk
        cases w with
        | put k v => exact (Table.get_put_self ..).trans (Table.get_put_self ..).symm
        | erase k =>
          change (s'.keep _).get k = (s.keep _).get k
          rw [Table.get_keep, Table.get_keep]
          exact congrArg _ h
      · exact (w.get_apply s' hk).trans (h.trans (w.get_apply s hk).symm)
  exact happly _ _ _ h

/-- A row that a transaction has not written is what is committed. -/
theorem Conn.get_view_of_not_mem {l : Conn K V N} {s : Table K V} {k : K}
    (h : ∀ w ∈ l.session.log, k ≠ w.row) : (l.view s).get k = s.get k :=
  store.applyAll_keeps (x := k) (fun w hw hr => h w hw (List.mem_singleton.mp hr)) s

/-- What a statement inside a transaction adds to what it sees. -/
theorem Conn.view_push (l : Conn K V N) {α : Type} (e : Effect (Write K V) K α) (note : N)
    (s : Table K V) :
    Conn.view ⟨l.session.push e, note⟩ s = store.applyAll e.writes (l.view s) := by
  rw [view, Session.view, Session.push_log, Store.applyAll_append]
  rfl

/-- An operation waits only for rows that a statement needs. -/
theorem exec_isSome {o : Op Q} {inp : In} {locked : K → Bool} {l : Conn K V N} {s : Table K V}
    (h : ∀ q, o = .statement q → ∀ k ∈ (D.effect q inp (l.view s)).needs store.rows,
      locked k = false) : ∃ r, exec D inp locked l s o = some r := by
  cases o with
  | begin | commit | rollback => exact ⟨_, rfl⟩
  | statement q =>
    have hfree : ((D.effect q inp (l.session.view store s)).needs store.rows).any locked =
        false := List.any_eq_false.mpr fun k hk => Bool.not_eq_true _ |>.mpr (h q rfl k hk)
    have hsome : ∃ r, l.session.execute store (D.effect q inp) locked s = some r := by
      simp only [Session.execute, hfree, Bool.false_eq_true, if_false]
      split
      · exact ⟨_, rfl⟩
      · split <;> exact ⟨_, rfl⟩
    obtain ⟨r, hr⟩ := hsome
    exact ⟨_, by rw [exec, hr]; rfl⟩

/-! ## Services -/

variable {ε α : Type}

/-- A service call that may throw. -/
abbrev Service (Ans : Q → Type) (ε α : Type) : Type := ExceptT ε (Prog (Op Q) (Op.Res Ans)) α

/-- Send a statement. -/
def Service.send (q : Q) : Service Ans ε (Ans q) := 
  ExceptT.lift (Prog.perform (Op.statement q))

/-- `db.transaction(work)`: commit what `work` did, or roll it back and rethrow. -/
def Service.transaction (work : Service Ans ε α) : Service Ans ε α := ExceptT.mk do
  Prog.perform (.begin : Op Q)
  match ← work.run with
  | .ok a => do
    Prog.perform (.commit : Op Q)
    pure (.ok a)
  | .error e => do
    Prog.perform (.rollback : Op Q)
    pure (.error e)

section rules

variable {Call E : Type} {G : Spec (Table K V) (Conn K V N) (Op Q) Call E} {c : Call}
  {T : ε → Conn K V N → Table K V → Prop} {l : Conn K V N} {s : Table K V}

/-- A statement: it answers from what the transaction sees, the transaction stays open if it was,
and the call learns from the answer. -/
theorem ensures_send {q : Q} {R : Ans q → Conn K V N → Table K V → Prop}
    (hg : ∀ s l' s', G.gua c (.statement q) l s l' s')
    (h : ∀ a l' s, (∃ inp s, a = (D.effect q inp (l.view s)).answer) →
      l'.session.active = l.session.active → l'.note = D.learn q a l.note → R a l' s) :
    G.Ensures (machine D) c (Service.send q) R T l s := by
  refine .perform fun s₁ inp locked r l' s₂ _ _ hx => ?_
  obtain ⟨r', hr, hr'⟩ := Option.map_eq_some_iff.mp hx
  obtain ⟨rfl, rfl, rfl⟩ := Prod.mk.inj hr' |>.imp_right Prod.mk.inj
  refine ⟨hg _ _ _, h _ _ _ ⟨inp, s₁, (Session.execute_cases hr).1⟩ ?_ rfl⟩
  obtain ⟨-, ⟨hactive, hl', -⟩ | ⟨-, -, hl', -⟩ | ⟨hactive, -, hl', -⟩⟩ := Session.execute_cases hr
  · rw [hl', hactive]
    rfl
  · rw [hl']
  · rw [hl', hactive]
    rfl

/-- A transaction: its work begins on a fresh session, and ends with a commit or a rollback. -/
theorem ensures_transaction {work : Service Ans ε α} {R : α → Conn K V N → Table K V → Prop}
    (hg : ∀ s l' s', G.gua c .begin l s l' s')
    (h : ∀ s, G.Ensures (machine D) c work
      (fun a l _ => ∀ s, (∀ l' s', G.gua c .commit l s l' s') ∧
        R a ⟨l.session.release l.session.log, D.onCommit l.note⟩ s)
      (fun e l _ => ∀ s, (∀ l' s', G.gua c .rollback l s l' s') ∧
        T e ⟨l.session.rollback, D.onRollback l.note⟩ s) ⟨l.session.begin, D.blank⟩ s) :
    G.Ensures (machine D) c (Service.transaction work) R T l s := by
  intro s₁ _ _ inp locked r l' s₂ _ hx
  refine ⟨hg _ _ _, ?_⟩
  obtain ⟨-, rfl, rfl⟩ := Option.some.inj hx |> Prod.mk.inj |>.imp_right Prod.mk.inj
  refine Spec.wp_bind (m := work.run) (Spec.wp_mono (fun r l₁ s₁ _ hr => ?_) (h s₁))
  cases r with
  | ok a =>
    intro s₂ _ _ inp locked r l' s₃ _ hx
    obtain ⟨-, rfl, rfl⟩ := Option.some.inj hx |> Prod.mk.inj |>.imp_right Prod.mk.inj
    exact ⟨(hr s₂).1 _ _, (hr _).2⟩
  | error e =>
    intro s₂ _ _ inp locked r l' s₃ _ hx
    obtain ⟨-, rfl, rfl⟩ := Option.some.inj hx |> Prod.mk.inj |>.imp_right Prod.mk.inj
    exact ⟨(hr s₂).1 _ _, (hr _).2⟩

end rules

end Interleaving.Rows
