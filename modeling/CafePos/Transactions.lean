import CafePos.Logic

/-!
# Rules for transactions

Inside a transaction a session only grows: `Adds l l' ws` says that from `l` to `l'` the
redo log grew by `ws` and no row was given up. The rows the log touches are held
(`Session.covered`), so what was read of them is still true when the transaction commits
(`Context.kept`). One rule for `BEGIN ... COMMIT`, one for a statement, and one for each
helper the doors share.
-/

namespace CafePos

open Interleaving

/-- A connection that has done nothing. -/
def idle : Sess := machine.idle

/-- Its transaction, just opened. -/
def opened : Sess := idle.begin

/-- Its transaction, committed. -/
def closed (ws : List Write) : Sess := idle.release ws

/-- The state after a commit. -/
def Shared.commit (s : Shared) (ws : List Write) : Shared := ⟨store.applyAll ws s.db, s.gateway⟩

/-- The open transaction of `l` went on to `l'`, adding `ws` to its log. -/
structure Adds (l l' : Sess) (ws : List Write) : Prop where
  active : l'.active = true
  log : l'.log = l.log ++ ws
  held : ∀ x ∈ l.held, x ∈ l'.held
  committed : l'.committed = l.committed
  published : l'.published = l.published

namespace Adds

theorem refl {l : Sess} (h : l.active = true) : Adds l l [] :=
  ⟨h, (List.append_nil _).symm, fun _ hx => hx, rfl, rfl⟩

theorem trans {l₁ l₂ l₃ : Sess} {ws ws' : List Write} (h₁ : Adds l₁ l₂ ws) (h₂ : Adds l₂ l₃ ws') :
    Adds l₁ l₃ (ws ++ ws') where
  active := h₂.active
  log := by rw [h₂.log, h₁.log, List.append_assoc]
  held x hx := h₂.held x (h₁.held x hx)
  committed := h₂.committed.trans h₁.committed
  published := h₂.published.trans h₁.published

theorem push {α : Type} (l : Sess) (e : Effect Write Row α) : Adds l (l.push e) e.writes :=
  ⟨rfl, rfl, fun _ hx => List.mem_append_left _ hx, rfl, rfl⟩

/-- What was added is in the log. -/
theorem mem {l l' : Sess} {ws : List Write} (h : Adds l l' ws) {w : Write} (hw : w ∈ ws) :
    w ∈ l'.log := by
  rw [h.log]
  exact List.mem_append_right _ hw

variable {l : Sess} {ws : List Write}

/-- Rolling back leaves nothing behind. -/
theorem rollback (h : Adds opened l ws) : l.rollback = idle := by
  have hc : l.committed = [] := h.committed
  have hp : l.published = [] := h.published
  simp only [Session.rollback, hc, hp]
  rfl

/-- Committing leaves the log on record. -/
theorem release (h : Adds opened l ws) : l.release l.log = closed ws := by
  have hc : l.committed = [] := h.committed
  have hp : l.published = [] := h.published
  have hl : l.log = ws := h.log
  simp only [Session.release, hc, hp, hl]
  rfl

end Adds

variable {cfg : Config} {Γ : Context cfg} {c : Call}

/-- A commit moves the state forward. -/
theorem Commits.commit_grows {P : PosPermit} {s : Shared} {ws : List Write}
    (h : Commits cfg P c s ws) (hs : Settled s.db) : Grows s (s.commit ws) :=
  ⟨h.grows hs, .refl _⟩

/-- What is known of a row the log touches stays true. -/
theorem Context.kept {l : Sess} {s s₁ : Shared} (h : Γ.After l s s₁) {w : Write} {x : Row}
    (hw : w ∈ l.log) (hx : x ∈ w.rows) : x.Keeps s.db s₁.db :=
  h.keeps x (l.covered w hw x hx)

/-- An order the log writes stays as it was. -/
theorem Context.kept_order {l : Sess} {s s₁ : Shared} (h : Γ.After l s s₁) {id : Id} {row : Order}
    (hw : .order id row ∈ l.log) : s₁.db.orders.get id = s.db.orders.get id :=
  Context.kept h hw (List.mem_singleton.mpr rfl)

/-- A key the log writes stays as it was. -/
theorem Context.kept_key {l : Sess} {s s₁ : Shared} (h : Γ.After l s s₁) {k : String}
    {row : IdempotencyKey} (hw : .key k row ∈ l.log) :
    s₁.db.idempotencyKeys.get k = s.db.idempotencyKeys.get k :=
  Context.kept h hw (List.mem_singleton.mpr rfl)

/-- A counter the log writes stays as it was. -/
theorem Context.kept_lastValue {l : Sess} {s s₁ : Shared} (h : Γ.After l s s₁) {day : String}
    {n : ℕ} (hw : .counter day n ∈ l.log) : s₁.db.lastValue day = s.db.lastValue day := by
  have hkeep : s₁.db.orderNumberCounters.get day = s.db.orderNumberCounters.get day :=
    Context.kept h hw (List.mem_singleton.mpr rfl)
  rw [Db.lastValue, hkeep, Db.lastValue]

/-- An event the log writes stays as it was. -/
theorem Context.kept_event {l : Sess} {s s₁ : Shared} (h : Γ.After l s s₁) {id : Id}
    {e : PaymentEvent} (hw : .event id e ∈ l.log) :
    s₁.db.paymentEvents.get id = s.db.paymentEvents.get id :=
  Context.kept h hw (List.mem_singleton.mpr rfl)

/-- A payment the log writes stays as it was, and so do its refunds. -/
theorem Context.kept_payment {l : Sess} {s s₁ : Shared} (h : Γ.After l s s₁) {id : Id}
    {p : Payment} (hw : .payment id p ∈ l.log) :
    s₁.db.payments.get id = s.db.payments.get id ∧ s₁.db.refundsOf id = s.db.refundsOf id :=
  Context.kept (x := .payment id) h hw (by simp [Write.rows])

/-- A statement's position later in the transaction is a position after. -/
theorem Adds.after {l l' : Sess} {ws : List Write} {s s₁ : Shared} (h : Adds l l' ws)
    (hs : Γ.After l' s s₁) : Γ.After l s s₁ := hs.of_held h.held

/-! ## The rules -/

namespace Ensures

variable {α : Type} {E : Err → Sess → Shared → Prop} {l : Sess} {s : Shared}

/-- A statement of the open transaction. -/
theorem statement {st : Statement} {Q : st.Answer → Sess → Shared → Prop} (hl : l.active = true)
    (h : ∀ s₁ fresh now l' e, Γ.After l s s₁ → st.idUnused fresh (l.view store s₁.db) →
      e = st.effect fresh now (l.view store s₁.db) → Adds l l' e.writes →
      (∀ x ∈ e.locks, x ∈ l'.held) → Q e.answer l' s₁) :
    Ensures Γ c (Door.statement st) Q E l s := by
  refine perform fun s₁ inp locked r l' s₂ hs₁ _ hx => ?_
  simp only [exec] at hx
  split at hx
  · rename_i hunused
    obtain ⟨r', hr, hr'⟩ := Option.map_eq_some_iff.mp hx
    simp only [Session.execute, hl, if_true] at hr
    split at hr
    · cases hr
    · obtain rfl := Option.some.inj hr
      obtain ⟨rfl, rfl, rfl⟩ := Prod.mk.inj hr' |>.imp_right Prod.mk.inj
      refine ⟨.quiet rfl rfl, h s₁ inp.fresh inp.now _ _ hs₁ hunused rfl (.push _ _) ?_⟩
      intro x hx
      exact List.mem_append_right _ (List.mem_append_left _ hx)
  · cases hx

/-- A statement outside a transaction that writes at most one row of the inbox. -/
theorem inbox {st : Statement} {Q : st.Answer → Sess → Shared → Prop}
    (h : ∀ s₁ fresh now e, Γ.After idle s s₁ → st.idUnused fresh s₁.db →
      e = st.effect fresh now s₁.db →
      e.writes = [] ∧ Q e.answer idle s₁ ∨ ∃ id event, e.writes = [.event id event] ∧
        Commits cfg Γ.permit c s₁ [.event id event] ∧
        Q e.answer (closed [.event id event]) (s₁.commit [.event id event])) :
    Ensures Γ c (Door.statement st) Q E idle s := by
  refine perform fun s₁ inp locked r l' s₂ hs₁ _ hx => ?_
  simp only [exec] at hx
  split at hx
  · rename_i hunused
    obtain ⟨r', hr, hr'⟩ := Option.map_eq_some_iff.mp hx
    simp only [Session.execute, idle, machine, Session.idle_active, Bool.false_eq_true,
      if_false] at hr
    split at hr
    · cases hr
    · rcases h s₁ inp.fresh inp.now _ hs₁ hunused rfl with ⟨hw, hq⟩ | ⟨id, event, hw, hc, hq⟩
      · have hw' : (st.effect inp.fresh inp.now
            (Session.view store (Session.idle store.rows : Sess) s₁.db)).writes = [] := hw
        rw [hw'] at hr
        obtain rfl := Option.some.inj hr
        obtain ⟨rfl, rfl, rfl⟩ := Prod.mk.inj hr' |>.imp_right Prod.mk.inj
        exact ⟨.quiet rfl rfl, hq⟩
      · have hw' : (st.effect inp.fresh inp.now
            (Session.view store (Session.idle store.rows : Sess) s₁.db)).writes =
              [.event id event] := hw
        rw [hw'] at hr
        obtain rfl := Option.some.inj hr
        obtain ⟨rfl, rfl, rfl⟩ := Prod.mk.inj hr' |>.imp_right Prod.mk.inj
        exact ⟨.inbox hc, hq⟩
  · cases hx

/-- `BEGIN ... COMMIT`: what the work added to the log is a log the call may commit. -/
theorem transaction {work : Door α} {Q : α → Sess → Shared → Prop}
    (h : ∀ s₁, Γ.After idle s s₁ → Ensures Γ c work
      (fun a l' s' => ∀ s₂, Γ.After l' s' s₂ → Γ.permit.step c .commit l' s₂ →
        ∃ ws, Adds opened l' ws ∧ Commits cfg Γ.permit c s₂ ws ∧
          Q a (closed ws) (s₂.commit ws))
      (fun e l' s' => (∃ ws, Adds opened l' ws) ∧ ∀ s₂, Γ.After l' s' s₂ → E e idle s₂)
      opened s₁) : Ensures Γ c (Door.transaction work) Q E idle s := by
  intro s₁ hs₁ _ inp locked r l' s₂ _ hx
  obtain ⟨-, rfl, rfl⟩ := Option.some.inj hx |> Prod.mk.inj |>.imp_right Prod.mk.inj
  refine ⟨.quiet rfl rfl, Spec.wp_bind (m := work.run) (Spec.wp_mono (fun r l' s' _ hr => ?_)
    (h s₁ hs₁))⟩
  cases r with
  | ok a =>
    intro s₂ hs₂ hp inp locked r l'' s₃ _ hx
    obtain ⟨-, rfl, rfl⟩ := Option.some.inj hx |> Prod.mk.inj |>.imp_right Prod.mk.inj
    obtain ⟨ws, hadds, hc, hq⟩ := hr s₂ hs₂ hp
    have hlog : l'.log = ws := hadds.log
    refine ⟨.commit (hlog ▸ hc), ?_⟩
    change Q a (l'.release l'.log) ⟨store.applyAll l'.log s₂.db, s₂.gateway⟩
    rw [hadds.release, hlog]
    exact hq
  | error e =>
    obtain ⟨⟨ws, hadds⟩, hback⟩ := hr
    intro s₂ hs₂ hp inp locked r l'' s₃ _ hx
    obtain ⟨-, rfl, rfl⟩ := Option.some.inj hx |> Prod.mk.inj |>.imp_right Prod.mk.inj
    refine ⟨.quiet rfl rfl, ?_⟩
    change E e l'.rollback s₂
    rw [hadds.rollback]
    exact hback s₂ hs₂

/-- `AfterCommit.run`: a transaction, and then its announcements. -/
theorem afterCommit {work : Door (α × List DomainEvent)} {Q : α → Sess → Shared → Prop}
    (h : Ensures Γ c (Door.transaction work) (fun r l₁ s₁ =>
      Announces (l₁.published ++ r.2) l₁.committed ∧
        ∀ s₂, Grows s₁ s₂ → Q r.1 (l₁.publish r.2) s₂) E l s) :
    Ensures Γ c (Door.afterCommit work) Q E l s := by
  refine bind (h.mono ?_ (fun _ _ _ _ he => he))
  rintro ⟨a, pending⟩ l₁ s₁ _ ⟨hann, hq⟩
  dsimp only
  cases pending with
  | nil =>
    refine pure ?_
    have hl : l₁.publish [] = l₁ := by simp [Session.publish]
    rw [← hl]
    exact hq s₁ (.refl s₁)
  | cons e es => exact bind (publish hann fun s₂ hs₂ => pure (hq s₂ hs₂.rely))

end Ensures

/-! ## The helpers the doors share -/

/-- A key reserved first looks reserved. -/
theorem view_reserved {l : Sess} {k : String} {row : IdempotencyKey} {ws : List Write}
    (hlog : l.log = .key k row :: ws) (hws : ∀ w ∈ ws, ∀ k row, w ≠ .key k row) (db : Db) :
    (l.view store db).idempotencyKeys.get k = some row := by
  rw [Session.view, hlog, Store.applyAll_cons, store_apply, Write.apply, applyAll_of_not_key hws]
  exact Table.get_put_self ..

/-- The orders a log does not write look as they are. -/
theorem view_orders {l : Sess} (h : ∀ w ∈ l.log, ∀ id row, w ≠ .order id row) (db : Db) :
    (l.view store db).orders = db.orders :=
  applyAll_orders h db

/-- The payments a log does not write look as they are. -/
theorem view_payments {l : Sess} (h : ∀ w ∈ l.log, ∀ id row, w ≠ .payment id row) (db : Db) :
    (l.view store db).payments = db.payments :=
  applyAll_payments h db

/-- The inbox a log does not write looks as it is. -/
theorem view_paymentEvents {l : Sess} (h : ∀ w ∈ l.log, ∀ id row, w ≠ .event id row) (db : Db) :
    (l.view store db).paymentEvents = db.paymentEvents :=
  applyAll_paymentEvents h db

/-- The counters a log does not write look as they are. -/
theorem view_counters {l : Sess} (h : ∀ w ∈ l.log, ∀ day n, w ≠ .counter day n) (db : Db) :
    (l.view store db).orderNumberCounters = db.orderNumberCounters :=
  applyAll_orderNumberCounters h db

namespace Ensures

variable {E : Err → Sess → Shared → Prop} {l : Sess} {s : Shared}

/-- `reserveKey`, at the beginning of a transaction: the key was free, or somebody has
answered under it. -/
theorem reserveKey {k h : String} {expiry : Instant} {Q : Unit → Sess → Shared → Prop}
    (hl : l.active = true) (hlog : l.log = [])
    (hfree : ∀ s₁ l', Γ.After l s s₁ → s₁.db.idempotencyKeys.get k = none →
      Adds l l' [.key k ⟨h, none, none, expiry⟩] → Q () l' s₁)
    (htaken : ∀ s₁ l' row, Γ.After l s s₁ → s₁.db.idempotencyKeys.get k = some row →
      Adds l l' [] → E .keyAlreadyReserved l' s₁) :
    Ensures Γ c (CafePos.reserveKey k h expiry) Q E l s := by
  refine tryCatch (raising (statement hl fun s₁ fresh now l' e hs₁ _ he hadds _ => ?_))
  have hview : l.view store s₁.db = s₁.db := by simp [Session.view, hlog]
  rw [hview] at he
  simp only [Statement.effect] at he
  split at he
  · rename_i row hrow
    subst he
    exact throw (htaken s₁ l' row hs₁ hrow hadds)
  · rename_i hrow
    subst he
    exact hfree s₁ l' hs₁ hrow hadds

/-- `completeKey`, under a key the transaction has reserved. -/
theorem completeKey {k : String} {row : IdempotencyKey} {status : ℕ} {body : ResponseBody}
    {Q : Unit → Sess → Shared → Prop} (hl : l.active = true)
    (hrow : ∀ db, (l.view store db).idempotencyKeys.get k = some row)
    (h : ∀ s₁ l', Γ.After l s s₁ → Adds l l' [.key k { row with
      responseStatus := some status, responseBody := some body }] → Q () l' s₁) :
    Ensures Γ c (CafePos.completeKey k status body) Q E l s := by
  refine statement hl fun s₁ fresh now l' e hs₁ _ he hadds _ => ?_
  simp only [Statement.effect, hrow] at he
  subst he
  exact h s₁ l' hs₁ hadds

/-- `transitionOrder`: the order was where the caller thought and has moved, or it was
not. -/
theorem transitionOrder {r : TransitionRequest} {Q : Order → Sess → Shared → Prop}
    (hl : l.active = true) (hlog : ∀ w ∈ l.log, ∀ id row, w ≠ .order id row)
    (hmoved : ∀ s₁ l' row, Γ.After l s s₁ → s₁.db.orders.get r.orderId = some row →
      row.status = r.source → Adds l l' (moveWrites r row) →
      Q (Statement.moved row r.source r.target) l' s₁)
    (hlost : ∀ s₀ s₁ l' e, Γ.After l s s₀ → Γ.After l s₀ s₁ →
      (∀ row, s₀.db.orders.get r.orderId = some row → row.status ≠ r.source) →
      isLostRace e → Adds l l' [] → E e l' s₁) :
    Ensures Γ c (CafePos.transitionOrder r) Q E l s := by
  refine bind (statement hl fun s₁ fresh now l' e hs₁ _ he hadds _ => ?_)
  simp only [Statement.effect, view_orders hlog] at he
  -- the failing update writes nothing; the reason is read afterwards
  have hfail : (∀ row, s₁.db.orders.get r.orderId = some row → row.status ≠ r.source) →
      Adds l l' [] → Ensures Γ c (do MonadExcept.throw (← explainFailure r.orderId r.target))
        Q E l' s₁ := by
    intro hne hadds
    refine bind (bind (selectTx fun s₂ hs₂ => ?_))
    have hs₁₂ : Γ.After l s₁ s₂ := hadds.after hs₂
    split
    · exact pure (throw (hlost s₁ s₂ l' _ hs₁ hs₁₂ hne rfl hadds))
    · exact pure (throw (hlost s₁ s₂ l' _ hs₁ hs₁₂ hne rfl hadds))
  split at he
  · rename_i row hrow
    split at he
    · rename_i hsrc
      subst he
      refine bind (statement hadds.active fun s₂ fresh now l'' e hs₂ _ he hadds' _ => ?_)
      subst he
      refine pure (hmoved s₂ l'' row (hs₁.trans (hadds.after hs₂)) ?_ hsrc (hadds.trans hadds'))
      have hmem : Write.order r.orderId (Statement.moved row r.source r.target) ∈ l'.log :=
        hadds.mem (List.mem_singleton.mpr rfl)
      exact (Context.kept_order hs₂ hmem).trans hrow
    · rename_i hsrc
      subst he
      refine hfail (fun row' hrow' => ?_) hadds
      obtain rfl := Option.some.inj (hrow.symm.trans hrow')
      exact hsrc
  · rename_i hrow
    subst he
    refine hfail (fun row' hrow' => ?_) hadds
    rw [hrow] at hrow'
    cases hrow'

end Ensures

end CafePos
