import CafePos.Interleaving.Undisturbed
import CafePos.OrderKeys
import Mathlib

/-!
# Doors nobody hinders

`Ends φ m Q E l s`: the door `m`, begun with session `l` in state `s` while no other call does
anything, returns into `Q` or throws into `E`, whatever the outside supplies within `φ`. There
is one rule for each way a door is built and one for each operation; nothing moves between two
operations, so the rules are those of sequential code.
-/

namespace CafePos

open Interleaving

/-- Alone, and supplied with what satisfies `φ`, the door returns into `Q` or throws into
`E`. -/
def Ends {α : Type} (φ : Input → Prop) (m : Door α) (Q : α → Sess → Shared → Prop)
    (E : Err → Sess → Shared → Prop) (l : Sess) (s : Shared) : Prop :=
  m.run.ends machine φ (fun r l s => match r with
    | .ok a => Q a l s
    | .error e => E e l s) l s

namespace Ends

variable {α β : Type} {φ : Input → Prop} {Q : α → Sess → Shared → Prop}
  {E : Err → Sess → Shared → Prop} {l : Sess} {s : Shared}

theorem pure {a : α} (h : Q a l s) : Ends φ (Pure.pure a) Q E l s := h

theorem throw {e : Err} (h : E e l s) : Ends φ (MonadExcept.throw e : Door α) Q E l s := h

/-- A door that ends in more precise ways ends in these. -/
theorem mono {Q' : α → Sess → Shared → Prop} {E' : Err → Sess → Shared → Prop} {m : Door α}
    (h : Ends φ m Q' E' l s) (hQ : ∀ a l s, Q' a l s → Q a l s)
    (hE : ∀ e l s, E' e l s → E e l s) : Ends φ m Q E l s := by
  refine Prog.ends_mono (fun r l' s' => ?_) h
  cases r with
  | ok a => exact hQ a l' s'
  | error e => exact hE e l' s'

theorem bind {m : Door β} {f : β → Door α}
    (h : Ends φ m (fun b l s => Ends φ (f b) Q E l s) E l s) : Ends φ (m >>= f) Q E l s := by
  refine Prog.ends_bind (Prog.ends_mono (fun r l' s' hr => ?_) h)
  cases r with
  | ok b => exact hr
  | error e => exact hr

theorem map {m : Door β} {f : β → α} (h : Ends φ m (fun b => Q (f b)) E l s) :
    Ends φ (f <$> m) Q E l s := by
  refine Prog.ends_bind (Prog.ends_mono (fun r l' s' hr => ?_) h)
  cases r with
  | ok b => exact hr
  | error e => exact hr

theorem tryCatch {m : Door α} {handle : Err → Door α}
    (h : Ends φ m Q (fun e l s => Ends φ (handle e) Q E l s) l s) :
    Ends φ (MonadExcept.tryCatch m handle) Q E l s := by
  refine Prog.ends_bind (Prog.ends_mono (fun r l' s' hr => ?_) h)
  cases r with
  | ok b => exact hr
  | error e => exact hr

/-- A statement's SQLSTATE is thrown. -/
theorem raising {m : Door (Except SqlState α)}
    (h : Ends φ m (fun r l s => match r with
      | .ok a => Q a l s
      | .error state => E (.sql state) l s) E l s) : Ends φ (Door.raising m) Q E l s := by
  refine bind (mono h (fun r l' s' hr => ?_) (fun _ _ _ h => h))
  cases r with
  | ok a => exact pure hr
  | error state => exact throw hr

/-- What a door ends in, it ends in along every sequence of supplies. -/
theorem traced {m : Door α} (h : Ends φ m Q E l s) {inp : ℕ → Input} (hinp : ∀ n, φ (inp n)) :
    ∃ ops r l' s', m.run.traced machine (fun _ => false) inp l s = some (ops, r, l', s') ∧
      ((∃ a, r = .ok a ∧ Q a l' s') ∨ ∃ e, r = .error e ∧ E e l' s') := by
  obtain ⟨ops, r, l', s', ht, hr⟩ := Prog.ends_traced h hinp
  refine ⟨ops, r, l', s', ht, ?_⟩
  cases r with
  | ok a => exact Or.inl ⟨a, rfl, hr⟩
  | error e => exact Or.inr ⟨e, rfl, hr⟩

/-! ## Operations -/

/-- An operation that the supplies let run. -/
theorem perform {o : Op} {Q : o.Res → Sess → Shared → Prop}
    (h : ∀ inp, φ inp → ∃ r l' s', exec inp (fun _ => false) l s o = some (r, l', s') ∧
      Q r l' s') : Ends φ (Door.perform o) Q E l s := h

theorem now {Q : Instant → Sess → Shared → Prop} (h : ∀ inp, φ inp → Q inp.now l s) :
    Ends φ (Door.perform .now) Q E l s :=
  perform fun inp hinp => ⟨_, _, _, rfl, h inp hinp⟩

theorem select {q : Query} {Q : q.Answer → Sess → Shared → Prop} (h : Q (q.answer s.db) l s) :
    Ends φ (Door.select q) Q E l s :=
  perform fun _ _ => ⟨_, _, _, rfl, h⟩

theorem selectTx {q : Query} {Q : q.Answer → Sess → Shared → Prop}
    (h : Q (q.answer (l.view store s.db)) l s) : Ends φ (Door.selectTx q) Q E l s :=
  perform fun _ _ => ⟨_, _, _, rfl, h⟩

theorem publish {events : List DomainEvent} {Q : Unit → Sess → Shared → Prop}
    (h : Q () (l.publish events) s) : Ends φ (Door.perform (.publish events)) Q E l s :=
  perform fun _ _ => ⟨_, _, _, rfl, h⟩

theorem stripeRetrieve {i : String} {Q : Except StripeError RetrievedIntent → Sess → Shared → Prop}
    (h : ∀ inp, φ inp → Q (stripeRetrieve inp i s.gateway) l s) :
    Ends φ (Door.perform (.stripeRetrieve i)) Q E l s :=
  perform fun inp hinp => ⟨_, _, _, rfl, h inp hinp⟩

/-- A statement of the open transaction. -/
theorem statement {st : Statement} {Q : st.Answer → Sess → Shared → Prop} (hl : l.active = true)
    (h : ∀ inp l' e, φ inp → e = st.effect inp.fresh inp.now (l.view store s.db) →
      Adds l l' e.writes → st.idUnused inp.fresh (l.view store s.db) ∧ Q e.answer l' s) :
    Ends φ (Door.statement st) Q E l s := by
  refine perform fun inp hinp => ?_
  obtain ⟨hunused, hq⟩ := h inp (l.push (st.effect inp.fresh inp.now (l.view store s.db))) _ hinp
    rfl (.push _ _)
  refine ⟨_, _, _, ?_, hq⟩
  simp [exec, hunused, Session.execute, hl]

/-- A statement outside a transaction commits by itself what it writes. -/
theorem autocommit {st : Statement} {Q : st.Answer → Sess → Shared → Prop}
    (hl : l.active = false) (hlog : l.log = [])
    (h : ∀ inp e, φ inp → e = st.effect inp.fresh inp.now s.db → st.idUnused inp.fresh s.db ∧
      (e.writes = [] → Q e.answer l s) ∧
        (e.writes ≠ [] → Q e.answer (l.release e.writes) (s.commit e.writes))) :
    Ends φ (Door.statement st) Q E l s := by
  refine perform fun inp hinp => ?_
  have hview : l.view store s.db = s.db := by
    rw [Session.view, hlog, Store.applyAll_nil]
  obtain ⟨hunused, hq⟩ := h inp _ hinp rfl
  by_cases hw : (st.effect inp.fresh inp.now s.db).writes = []
  · refine ⟨_, _, _, ?_, hq.1 hw⟩
    simp [exec, hview, hunused, Session.execute, hl, hw]
  · refine ⟨_, _, _, ?_, hq.2 hw⟩
    simp [exec, hview, hunused, Session.execute, hl, Shared.commit]

/-- `db.transaction(work)`. -/
theorem transaction {work : Door α}
    (h : Ends φ work (fun a l₁ s₁ => Q a (l₁.release l₁.log) (s₁.commit l₁.log))
      (fun e l₁ s₁ => E e l₁.rollback s₁) l.begin s) : Ends φ (Door.transaction work) Q E l s := by
  refine Prog.ends_bind fun inp _ => ⟨_, _, _, rfl, ?_⟩
  refine Prog.ends_bind (Prog.ends_mono (fun r l₁ s₁ hr => ?_) h)
  cases r with
  | ok a => exact fun _ _ => ⟨_, _, _, rfl, hr⟩
  | error e => exact fun _ _ => ⟨_, _, _, rfl, hr⟩

/-- `AfterCommit.run(work)`. -/
theorem afterCommit {work : Door (α × List DomainEvent)}
    (h : Ends φ work (fun r l₁ s₁ => ∀ l', (l' = l₁.release l₁.log ∨
        l' = (l₁.release l₁.log).publish r.2) → Q r.1 l' (s₁.commit l₁.log))
      (fun e l₁ s₁ => E e l₁.rollback s₁) l.begin s) : Ends φ (Door.afterCommit work) Q E l s := by
  refine bind (transaction (mono h (fun r l₁ s₁ hr => ?_) fun _ _ _ h => h))
  dsimp only
  split
  · exact pure (hr _ (Or.inl rfl))
  · exact bind (publish (pure (hr _ (Or.inr rfl))))

/-- `transitionOrder`, on an order that is where the caller thinks it is. -/
theorem transitionOrder {r : TransitionRequest} {row : Order} {Q : Order → Sess → Shared → Prop}
    (hl : l.active = true) (hrow : (l.view store s.db).orders.get r.orderId = some row)
    (hstatus : row.status = r.source)
    (h : ∀ l', Adds l l' (moveWrites r row) → Q (Statement.moved row r.source r.target) l' s) :
    Ends φ (CafePos.transitionOrder r) Q E l s := by
  refine bind (statement hl fun inp l₁ e _ he hadds₁ => ⟨rfl, ?_⟩)
  simp only [Statement.effect, hrow, hstatus, if_true] at he
  subst he
  refine bind (statement hadds₁.active fun inp l₂ e _ he hadds₂ => ⟨rfl, ?_⟩)
  subst he
  exact pure (h l₂ (hadds₁.trans hadds₂))

end Ends

end CafePos
