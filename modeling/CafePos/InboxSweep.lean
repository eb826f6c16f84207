import CafePos.EventDecisions
import CafePos.Unhindered
import Mathlib

/-!
# The inbox sweep

`PaymentEventProcessor.drainInbox` takes up to `MAX_PER_TICK` unprocessed events, in whatever
order the database likes, and processes them one after the other. An event that is refused, or
whose payload cannot be interpreted, stays where it is, by design. A hundred of those are enough
to fill every batch the database may choose, and then nothing behind them is ever reached.

* `processEvent_ends` — what processing one event does while nobody else calls: an event that
  can be acted on ends stamped, any other changes nothing;
* `drainInbox_ends` — so a sweep makes progress exactly if its batch holds one that can;
* `sweep_progress_iff` — every batch does, exactly if fewer than `MAX_PER_TICK` events are stuck.
-/

namespace CafePos

open Interleaving Door

variable {cfg : Config} {φ : Input → Prop}

/-! ## The sweep -/

/-- `MAX_PER_TICK`. -/
def maxPerTick : ℕ := 100

/-- The loop of `drainInbox` over the rows its query returned. -/
def drainLoop (applied : ℕ) : List Id → Door ℕ
  | [] => pure applied
  | id :: pending => do
    let changed ← processEvent id
    drainLoop (if changed then applied + 1 else applied) pending

/-- `drainInbox`, where `pending` is what its unordered, limited query returned. A sweep that
cannot read the inbox applies nothing. -/
def drainInbox (pending : List Id) : Door ℕ := tryCatch (drainLoop 0 pending) fun _ => pure 0

/-- The event waits in the inbox. -/
def Db.isUnprocessed (db : Db) (id : Id) : Bool :=
  (db.paymentEvents.get id).any fun e => e.processedAt.isNone

/-- `pending` is an answer of `SELECT id ... WHERE processed_at IS NULL LIMIT 100`: rows that
wait, each once, as many as fit, and all of them if they do. -/
structure Chosen (db : Db) (pending : List Id) : Prop where
  nodup : pending.Nodup
  unprocessed : ∀ id ∈ pending, db.isUnprocessed id
  limit : pending.length ≤ maxPerTick
  full : pending.length = maxPerTick ∨ ∀ id, db.isUnprocessed id → id ∈ pending

/-! ## Which events can be acted on -/

/-- The event waits, and the decision about it is not to refuse it. -/
def Db.isActionable (db : Db) (id : Id) : Bool :=
  (db.paymentEvents.get id).any fun e =>
    e.processedAt.isNone && (decisionOn db e).any fun d => !d.isRefuse

/-- The events that wait and cannot be acted on: refused, or not to be interpreted. -/
def Db.stuck (db : Db) : List Id :=
  (db.paymentEvents.select fun id e => e.processedAt.isNone && !db.isActionable id).map Prod.fst

/-- Every event that waits is one whose decision is to refuse it. -/
def Db.AllRefused (db : Db) : Prop :=
  ∀ id e, db.paymentEvents.get id = some e → e.processedAt = none →
    (decisionOn db e).any PaymentDecision.isRefuse

theorem Db.isUnprocessed_of_isActionable {db : Db} {id : Id} (h : db.isActionable id) :
    db.isUnprocessed id := by
  simp only [Db.isActionable, Option.any_eq_true, Bool.and_eq_true] at h
  obtain ⟨e, he, hn, -⟩ := h
  simp [Db.isUnprocessed, he, hn]

theorem Db.mem_stuck {db : Db} {id : Id} :
    id ∈ db.stuck ↔ db.isUnprocessed id ∧ ¬ db.isActionable id := by
  simp only [Db.stuck, List.mem_map, Prod.exists, Table.mem_select, Bool.and_eq_true,
    Bool.not_eq_true', exists_and_right, exists_eq_right, Db.isUnprocessed, Option.any_eq_true,
    Bool.not_eq_true]
  constructor
  · rintro ⟨e, he, hn, hstuck⟩
    exact ⟨⟨e, he, hn⟩, hstuck⟩
  · rintro ⟨⟨e, he, hn⟩, hstuck⟩
    exact ⟨e, he, hn, hstuck⟩

/-! ## Processing one event, alone -/

/-- Stamps that were there are there. -/
def StampsKept (s s' : Shared) : Prop := ∀ id, s.db.stamped id → s'.db.stamped id

/-- The write takes no stamp away. -/
def Write.keepsStamps : Write → Prop
  | .event _ e => e.processedAt.isSome
  | _ => True

theorem stamped_applyAll {ws : List Write} (hws : ∀ w ∈ ws, w.keepsStamps) {db : Db} {id : Id}
    (h : db.stamped id) : (store.applyAll ws db).stamped id := by
  induction ws generalizing db with
  | nil => exact h
  | cons w ws ih =>
    refine ih (fun w' hw' => hws w' (List.mem_cons_of_mem _ hw')) ?_
    have hw := hws w (List.mem_cons_self ..)
    obtain ⟨e, he, hdone⟩ := h
    cases w with
    | event id' e' =>
      by_cases hid : id = id'
      · exact ⟨e', by rw [hid]; exact Table.get_put_self .., hw⟩
      · exact ⟨e, (Table.get_put_ne _ _ hid).trans he, hdone⟩
    | _ => exact ⟨e, he, hdone⟩

/-- A log that ends in a stamp, committed. -/
theorem stamped_commit {ws : List Write} {s : Shared} {id : Id} {e : PaymentEvent}
    (hws : ∀ w ∈ ws, w.keepsStamps) (he : e.processedAt.isSome) :
    StampsKept s (s.commit (ws ++ [.event id e])) ∧
      (s.commit (ws ++ [.event id e])).db.stamped id := by
  refine ⟨fun x hx => stamped_applyAll (fun w hw => ?_) hx, e, ?_, he⟩
  · rcases List.mem_append.mp hw with hw | hw
    · exact hws w hw
    · rw [List.mem_singleton.mp hw]
      exact he
  · rw [Shared.commit, Store.applyAll_append]
    exact Table.get_put_self ..

namespace Ends

variable {E : Err → Sess → Shared → Prop} {l : Sess} {s : Shared}

/-- `load` reads what is there. -/
theorem load {outcome : GatewayOutcome}
    {Q : Option PaymentRecord × Option OrderRecord → Sess → Shared → Prop}
    (h : Q (loaded s.db outcome) l s) : Ends φ (CafePos.load outcome) Q E l s := by
  rw [loaded] at h
  rw [CafePos.load]
  cases hi : outcome.intent with
  | none =>
    rw [hi] at h
    exact pure h
  | some i =>
    rw [hi] at h
    refine bind (select ?_)
    cases hp : ((Query.paymentByIntent i).answer s.db : Option (Id × Payment)) with
    | none =>
      simp only [hp] at h ⊢
      exact pure h
    | some p =>
      simp only [hp] at h ⊢
      exact bind (select (pure h))

/-- `resolveMethod` never throws and changes nothing. -/
theorem methodOf {id : Id} {Q : Option PaymentMethod → Sess → Shared → Prop}
    (h : ∀ method, Q method l s) : Ends φ (CafePos.methodOf id) Q E l s := by
  refine bind (select ?_)
  split
  · exact pure (h _)
  · split
    · exact pure (h _)
    · refine bind (stripeRetrieve fun inp _ => ?_)
      split
      · exact pure (h _)
      · exact pure (h _)

/-- A stamp, in a transaction that sees the event waiting. -/
theorem markProcessed {id : Id} {paymentId : Option Id} {e : PaymentEvent}
    {Q : Bool → Sess → Shared → Prop} (hl : l.active = true)
    (he : (l.view store s.db).paymentEvents.get id = some e) (hn : e.processedAt.isNone)
    (h : ∀ b l' e', e'.processedAt.isSome → Adds l l' [.event id e'] → Q b l' s) :
    Ends φ (CafePos.markProcessed id paymentId) Q E l s := by
  refine statement hl fun inp l' eff _ heff hadds => ⟨rfl, ?_⟩
  simp only [Statement.effect, he, hn, if_true] at heff
  subst heff
  exact h true l' _ rfl hadds

/-- An update of a payment writes that payment, or nothing. -/
theorem updatePayment {id : Id} {status : PaymentStatus} {method : Option PaymentMethod}
    {guarded : Bool} {Q : Option Id → Sess → Shared → Prop} (hl : l.active = true)
    (h : ∀ settled l' ws, (∀ w ∈ ws, ∃ id p, w = .payment id p) → Adds l l' ws →
      Q settled l' s) :
    Ends φ (Door.statement (.updatePayment id status method guarded)) Q E l s := by
  refine statement hl fun inp l' eff _ heff hadds => ⟨rfl, ?_⟩
  simp only [Statement.effect] at heff
  split at heff
  · split at heff
    · subst heff
      exact h _ l' _ (fun w hw => absurd hw List.not_mem_nil) hadds
    · subst heff
      exact h _ l' _ (fun w hw => ⟨_, _, List.mem_singleton.mp hw⟩) hadds
  · subst heff
    exact h _ l' _ (fun w hw => absurd hw List.not_mem_nil) hadds

/-- The announcement of a failure changes nothing. -/
theorem announceFailure {settled : Option Id} {status : PaymentStatus} {id : Id}
    {Q : List DomainEvent → Sess → Shared → Prop} (h : ∀ events, Q events l s) :
    Ends φ (CafePos.announceFailure settled status id) Q E l s := by
  rw [announceFailure.eq_def]
  split
  · exact pure (h _)
  · split
    · refine bind (selectTx ?_)
      split
      · exact pure (h _)
      · exact pure (h _)
    · exact pure (h _)

end Ends

/-- A payment is marked paid only while its order is `PENDING_PAYMENT`. -/
theorem pending_of_markPaid {db : Db} {outcome : GatewayOutcome} {paymentId orderId : Id}
    (h : decidePaymentOutcome outcome (loaded db outcome).1 (loaded db outcome).2 =
      .markPaid paymentId orderId) :
    ∃ row, db.orders.get orderId = some row ∧ row.status = .pendingPayment := by
  -- only a success that found its payment can be decided so
  cases outcome with
  | ignored => cases h
  | failed i reason | cancelled i =>
    cases hp : ((Query.paymentByIntent i).answer db : Option (Id × Payment)) with
    | none =>
      simp only [loaded, GatewayOutcome.intent, hp] at h
      cases h
    | some p =>
      simp only [loaded, GatewayOutcome.intent, hp, decidePaymentOutcome, decideClosed] at h
      split at h
      · cases h
      · split at h <;> cases h
  | succeeded i amount currency =>
    cases hp : ((Query.paymentByIntent i).answer db : Option (Id × Payment)) with
    | none =>
      simp only [loaded, GatewayOutcome.intent, hp] at h
      cases h
    | some p =>
      simp only [loaded, GatewayOutcome.intent, hp, decidePaymentOutcome, decideSuccess] at h
      split at h
      · cases h
      · split at h
        · cases h
        · cases ho : db.orders.get p.2.orderId with
          | none =>
            rw [ho] at h
            cases h
          | some row =>
            simp only [ho, Option.map_some] at h
            split at h
            · cases h
            · split at h
              · cases h
              · rename_i hpending
                cases h
                exact ⟨row, ho, not_not.mp hpending⟩

/-- No transaction is open on the session. -/
structure Between (l : Sess) : Prop where
  active : l.active = false
  log : l.log = []

/-- The transaction has ended, whether or not something was announced after it. -/
theorem Between.of_release {l l' : Sess} {events : List DomainEvent}
    (h : l' = l.release l.log ∨ l' = (l.release l.log).publish events) : Between l' := by
  rcases h with rfl | rfl
  · exact ⟨rfl, rfl⟩
  · exact ⟨rfl, rfl⟩

/-- A log that ends in the stamp of event `id`, and takes no stamp away, was committed. -/
def CommitsStamp (s : Shared) (id : Id) (s' : Shared) : Prop :=
  ∃ ws e, (∀ w ∈ ws, w.keepsStamps) ∧ e.processedAt.isSome ∧
    s' = s.commit (ws ++ [.event id e])

section decisions

variable {l : Sess} {s : Shared} {id paymentId : Id} {e : PaymentEvent}
  {E : Err → Sess → Shared → Prop}

/-- `SKIP`. -/
theorem skip_ends (hl : Between l) (hget : s.db.paymentEvents.get id = some e)
    (hn : e.processedAt.isNone) (payment : Option PaymentRecord) (why : Why) :
    Ends φ (carryOut id payment (.skip why)) (fun _ l' s' => Between l' ∧ CommitsStamp s id s') E l
      s := by
  refine .bind (.autocommit hl.active hl.log fun inp eff _ heff => ⟨rfl, ?_, ?_⟩)
  · intro hempty
    simp [heff, Statement.effect, hget, hn] at hempty
  · intro _
    simp only [Statement.effect, hget, hn, if_true] at heff
    subst heff
    exact .pure ⟨⟨rfl, rfl⟩, [], _, fun w hw => absurd hw List.not_mem_nil, rfl, rfl⟩

/-- `MARK_PAYMENT`. -/
theorem markPayment_ends (hget : s.db.paymentEvents.get id = some e)
    (hn : e.processedAt.isNone) (status : PaymentStatus) :
    Ends φ (markPayment id paymentId status) (fun _ l' s' => Between l' ∧ CommitsStamp s id s') E l
      s := by
  refine .bind (.afterCommit (.bind (.updatePayment rfl fun settled l₁ ws hws hadds₁ => ?_)))
  have hlog₁ : l₁.log = ws := hadds₁.log
  have hview : (l₁.view store s.db).paymentEvents.get id = some e := by
    rw [view_paymentEvents (fun w hw id' e' heq => ?_) s.db]
    · exact hget
    · rw [hlog₁] at hw
      obtain ⟨id'', p, rfl⟩ := hws w hw
      cases heq
  refine .bind (.markProcessed hadds₁.active hview hn fun b l₂ e' he' hadds₂ => ?_)
  refine .bind (.announceFailure fun events => .pure fun l' hl' => .pure ?_)
  refine ⟨.of_release hl', ws, e', fun w hw => ?_, he', by rw [hadds₂.log, hlog₁]⟩
  obtain ⟨id'', p, rfl⟩ := hws w hw
  trivial

/-- `MARK_PAID`. -/
theorem markPaid_ends {orderId : Id} {row : Order} (hget : s.db.paymentEvents.get id = some e)
    (hn : e.processedAt.isNone) (hrow : s.db.orders.get orderId = some row)
    (hpending : row.status = .pendingPayment) :
    Ends φ (markPaid id paymentId orderId) (fun _ l' s' => Between l' ∧ CommitsStamp s id s') E l
      s := by
  refine .bind (.methodOf fun method => .bind (.afterCommit (.bind (.transitionOrder rfl hrow
    hpending fun l₁ hadds₁ => .bind (.updatePayment hadds₁.active
      fun settled l₂ ws hws hadds₂ => ?_)))))
  -- what is in the log so far: a move of the order, and the payment
  have hlog₂ : l₂.log =
      moveWrites ⟨orderId, .pendingPayment, .paid, systemActor, none⟩ row ++ ws := by
    rw [hadds₂.log, hadds₁.log]
    rfl
  have hwrites : ∀ w ∈ l₂.log, w.keepsStamps ∧ ∀ id' e', w ≠ .event id' e' := by
    intro w hw
    rw [hlog₂, moveWrites] at hw
    simp only [List.cons_append, List.nil_append, List.mem_cons] at hw
    rcases hw with rfl | rfl | hw
    · exact ⟨trivial, by simp⟩
    · exact ⟨trivial, by simp⟩
    · obtain ⟨id'', p, rfl⟩ := hws w hw
      exact ⟨trivial, by simp⟩
  have hview : (l₂.view store s.db).paymentEvents.get id = some e := by
    rw [view_paymentEvents (fun w hw => (hwrites w hw).2) s.db]
    exact hget
  refine .bind (.markProcessed hadds₂.active hview hn fun b l₃ e' he' hadds₃ => ?_)
  refine .pure fun l' hl' => .pure ⟨.of_release hl', l₂.log, e', fun w hw => (hwrites w hw).1,
    he', by rw [hadds₃.log]⟩

end decisions

/-- What processing event `id` in state `s` leaves behind. -/
structure Swept (s : Shared) (id : Id) (l' : Sess) (s' : Shared) : Prop where
  between : Between l'
  kept : StampsKept s s'
  acted : s.db.isActionable id → s'.db.stamped id
  idle : ¬ s.db.isActionable id → s' = s

/-- An event that cannot be acted on is left alone. -/
theorem Swept.refl {l : Sess} {s : Shared} {id : Id} (hl : Between l)
    (hno : ¬ s.db.isActionable id) : Swept s id l s :=
  ⟨hl, fun _ h => h, fun h => absurd h hno, fun _ => rfl⟩

/-- An event that can be is stamped. -/
theorem Swept.of_stamps {l' : Sess} {s s' : Shared} {id : Id} (hact : s.db.isActionable id)
    (h : Between l' ∧ CommitsStamp s id s') : Swept s id l' s' := by
  obtain ⟨hl', ws, e, hws, he, rfl⟩ := h
  obtain ⟨hkept, hstamped⟩ := stamped_commit hws he
  exact ⟨hl', hkept, fun _ => hstamped, fun hno => absurd hact hno⟩

/-- Processing an event while nobody else calls. -/
theorem processEvent_ends {l : Sess} (hl : Between l) (s : Shared) (id : Id) :
    Ends φ (processEvent id) (fun _ l' s' => Swept s id l' s') (fun _ _ _ => False) l s := by
  refine .tryCatch (.bind (.select ?_))
  simp only [Query.answer]
  cases hget : s.db.paymentEvents.get id with
  | none =>
    refine .pure (.refl hl ?_)
    simp [Db.isActionable, hget]
  | some e =>
    cases hn : e.processedAt.isNone with
    | false =>
      simp only [Option.filter, hn, Bool.false_eq_true, if_false]
      refine .pure (.refl hl ?_)
      simp [Db.isActionable, hget, hn]
    | true =>
      simp only [Option.filter, hn, if_true]
      have haction : s.db.isActionable id = (decisionOn s.db e).any fun d => !d.isRefuse := by
        simp [Db.isActionable, hget, hn]
      cases hout : toOutcome e.payload with
      | none =>
        refine .throw (.pure (.refl hl ?_))
        simp [haction, decisionOn, hout]
      | some outcome =>
        refine .bind (.load ?_)
        rw [decisionOn, hout, Option.map_some, Option.any_some] at haction
        cases hd : decidePaymentOutcome outcome (loaded s.db outcome).1
            (loaded s.db outcome).2 with
        | refuse why =>
          rw [hd] at haction
          refine .pure (.refl hl ?_)
          simp [haction, PaymentDecision.isRefuse]
        | skip why =>
          rw [hd] at haction
          exact .mono (skip_ends hl hget hn _ why) (fun _ _ _ h => .of_stamps haction h)
            fun _ _ _ h => h
        | markPayment paymentId status =>
          rw [hd] at haction
          exact .mono (markPayment_ends hget hn status) (fun _ _ _ h => .of_stamps haction h)
            fun _ _ _ h => h
        | markPaid paymentId orderId =>
          rw [hd] at haction
          obtain ⟨row, hrow, hpending⟩ := pending_of_markPaid hd
          exact .mono (markPaid_ends hget hn hrow hpending)
            (fun _ _ _ h => .of_stamps haction h) fun _ _ _ h => h

/-! ## A whole sweep -/

/-- What a sweep over `pending` leaves behind: if one of them could be acted on, one event is
stamped that was not; if none could, nothing has changed. -/
structure Drained (s : Shared) (pending : List Id) (s' : Shared) : Prop where
  kept : StampsKept s s'
  acted : (∃ id ∈ pending, s.db.isActionable id) → ∃ id, ¬ s.db.stamped id ∧ s'.db.stamped id
  idle : (∀ id ∈ pending, ¬ s.db.isActionable id) → s' = s

/-- An event that waits is not stamped. -/
theorem not_stamped_of_isActionable {db : Db} {id : Id} (h : db.isActionable id) :
    ¬ db.stamped id := by
  rintro ⟨e, he, hdone⟩
  have hn := Db.isUnprocessed_of_isActionable h
  rw [Db.isUnprocessed, he, Option.any_some, Option.isNone_iff_eq_none] at hn
  rw [hn] at hdone
  cases hdone

/-- By induction on the batch: the first event that can be acted on finds the state as it was
when the sweep began. -/
theorem drainLoop_ends (pending : List Id) (applied : ℕ) {l : Sess} (hl : Between l)
    (s : Shared) : Ends φ (drainLoop applied pending) (fun _ _ s' => Drained s pending s')
      (fun _ _ _ => False) l s := by
  induction pending generalizing applied l s with
  | nil =>
    refine .pure ⟨fun _ h => h, ?_, fun _ => rfl⟩
    rintro ⟨id, hid, -⟩
    cases hid
  | cons id pending ih =>
    refine .bind (.mono (processEvent_ends hl s id) ?_ fun _ _ _ h => h)
    intro changed l₁ s₁ hswept
    refine .mono (ih _ hswept.between s₁) ?_ fun _ _ _ h => h
    intro n l₂ s₂ hdrained
    refine ⟨fun x hx => hdrained.kept x (hswept.kept x hx), ?_, ?_⟩
    · rintro ⟨x, hx, hact⟩
      by_cases hid : s.db.isActionable id
      · exact ⟨id, not_stamped_of_isActionable hid, hdrained.kept id (hswept.acted hid)⟩
      · obtain rfl := hswept.idle hid
        rcases List.mem_cons.mp hx with rfl | hx
        · exact absurd hact hid
        · exact hdrained.acted ⟨x, hx, hact⟩
    · intro hnone
      obtain rfl := hswept.idle (hnone id (List.mem_cons_self ..))
      exact hdrained.idle fun x hx => hnone x (List.mem_cons_of_mem _ hx)

theorem drainInbox_ends (pending : List Id) (s : Shared) :
    Ends φ (drainInbox pending) (fun _ _ s' => Drained s pending s') (fun _ _ _ => False) idle
      s :=
  .tryCatch (.mono (drainLoop_ends pending 0 ⟨rfl, rfl⟩ s) (fun _ _ _ h => h)
    fun _ _ _ h => h.elim)

/-- The sweep stamps an event: begun in state `s` while nobody else calls, with `inp n` what
the outside supplies to its `n`-th operation, it returns, and an event is stamped that was
not. -/
def SweepStamps (pending : List Id) (inp : ℕ → Input) (s : Shared) : Prop :=
  ∃ ops n l' s', (drainInbox pending).run.traced machine (fun _ => false) inp idle s =
      some (ops, .ok n, l', s') ∧ ∃ id, ¬ s.db.stamped id ∧ s'.db.stamped id

/-- A sweep stamps an event exactly if its batch holds one that can be acted on. -/
theorem sweepStamps_iff (pending : List Id) (inp : ℕ → Input) (s : Shared) :
    SweepStamps pending inp s ↔ ∃ id ∈ pending, s.db.isActionable id := by
  have hends : Ends (fun inp' => ∃ n, inp' = inp n) (drainInbox pending)
      (fun _ _ s' => Drained s pending s') (fun _ _ _ => False) idle s :=
    drainInbox_ends pending s
  obtain ⟨ops, r, l', s', ht, hend⟩ := hends.traced fun n => ⟨n, rfl⟩
  rcases hend with ⟨n, rfl, hdrained⟩ | ⟨e, -, hfalse⟩
  · constructor
    · rintro ⟨ops', n', l'', s'', ht', id, hbefore, hafter⟩
      obtain ⟨-, -, -, rfl⟩ := Option.some.inj (ht.symm.trans ht') |> Prod.mk.inj
        |>.imp_right fun h => Prod.mk.inj h |>.imp_right Prod.mk.inj
      by_contra hnone
      have hsame := hdrained.idle fun id hid hact => hnone ⟨id, hid, hact⟩
      rw [hsame] at hafter
      exact hbefore hafter
    · intro hact
      exact ⟨ops, n, l', s', ht, hdrained.acted hact⟩
  · exact hfalse.elim

/-! ## Every batch -/

/-- The events that wait. -/
def Db.waiting (db : Db) : List Id :=
  (db.paymentEvents.select fun _ e => e.processedAt.isNone).map Prod.fst

theorem Db.mem_waiting {db : Db} {id : Id} : id ∈ db.waiting ↔ db.isUnprocessed id := by
  simp [Db.waiting, Db.isUnprocessed, Table.mem_select, Option.any_eq_true]

/-- The database may choose the first hundred of the events that wait. -/
theorem Chosen.take_waiting (db : Db) : Chosen db (db.waiting.take maxPerTick) where
  nodup := (Table.nodup_select ..).sublist (List.take_sublist ..)
  unprocessed _ hid := Db.mem_waiting.mp (List.mem_of_mem_take hid)
  limit := List.length_take_le ..
  full := by
    by_cases hlen : maxPerTick ≤ db.waiting.length
    · exact Or.inl (List.length_take_of_le hlen)
    · refine Or.inr fun id hid => ?_
      rw [List.take_of_length_le (Nat.le_of_not_le hlen)]
      exact Db.mem_waiting.mpr hid

/-- If there are a hundred of them, it may choose events that are stuck, and no others. -/
theorem Chosen.take_stuck {db : Db} (h : maxPerTick ≤ db.stuck.length) :
    Chosen db (db.stuck.take maxPerTick) where
  nodup := (Table.nodup_select ..).sublist (List.take_sublist ..)
  unprocessed _ hid := (Db.mem_stuck.mp (List.mem_of_mem_take hid)).1
  limit := List.length_take_le ..
  full := Or.inl (List.length_take_of_le h)

/-- If there are fewer, every choice holds an event that can be acted on. -/
theorem Chosen.holds_actionable {db : Db} {pending : List Id} (h : Chosen db pending)
    (hact : ∃ id, db.isActionable id) (hstuck : db.stuck.length < maxPerTick) :
    ∃ id ∈ pending, db.isActionable id := by
  by_contra hnone
  have hsubset : pending ⊆ db.stuck := fun id hid =>
    Db.mem_stuck.mpr ⟨h.unprocessed id hid, fun hid' => hnone ⟨id, hid, hid'⟩⟩
  have hle : pending.length ≤ db.stuck.length :=
    (List.subperm_of_subset h.nodup hsubset).length_le
  rcases h.full with hfull | hall
  · omega
  · obtain ⟨id, hid⟩ := hact
    exact hnone ⟨id, hall id (Db.isUnprocessed_of_isActionable hid), hid⟩

/-- Every event that waits is refused, or every sweep stamps an event, whatever its query
returned and whatever the outside supplies. -/
def SweepProgress (s : Shared) : Prop :=
  s.db.AllRefused ∨ ∀ pending inp, Chosen s.db pending → SweepStamps pending inp s

/-- **The sweep is not starved, exactly below a hundred stuck events.** For every inbox: a
sweep with nobody else calling stamps an event, whichever events its query returned, unless
every event that waits is refused, if and only if every event that waits is refused, or one can
be acted on and fewer than `MAX_PER_TICK` are refused or cannot be interpreted. -/
theorem sweep_progress_iff (s : Shared) : SweepProgress s ↔ s.db.AllRefused ∨
    ((∃ id, s.db.isActionable id) ∧ s.db.stuck.length < maxPerTick) := by
  constructor
  · rintro (hall | hsweeps)
    · exact Or.inl hall
    · refine Or.inr ⟨?_, ?_⟩
      · have hstamps := hsweeps _ (fun _ => {}) (.take_waiting s.db)
        obtain ⟨id, -, hid⟩ := (sweepStamps_iff ..).mp hstamps
        exact ⟨id, hid⟩
      · by_contra hmany
        have hstamps := hsweeps _ (fun _ => {}) (.take_stuck (Nat.not_lt.mp hmany))
        obtain ⟨id, hid, hact⟩ := (sweepStamps_iff ..).mp hstamps
        exact (Db.mem_stuck.mp (List.mem_of_mem_take hid)).2 hact
  · rintro (hall | ⟨hact, hstuck⟩)
    · exact Or.inl hall
    · exact Or.inr fun pending inp hchosen =>
        (sweepStamps_iff ..).mpr (hchosen.holds_actionable hact hstuck)

/-! ## A hundred lost successes -/

/-- A delivery is stored, if nobody holds a row. -/
theorem Reachable.record {w : PosWorld} (h : Reachable cfg w)
    (hfree : ∀ t ∈ w.threads, t.session.held = []) (event : GatewayEvent) {id : Id}
    (hid : w.shared.db.paymentEvents.get id = none)
    (hnew : ∀ id' e, w.shared.db.paymentEvents.get id' = some e →
      e.providerEventId ≠ event.eventId) :
    ∃ w', Reachable cfg w' ∧ (∀ t ∈ w'.threads, t.session.held = []) ∧
      w'.shared = w.shared.commit
        [.event id ⟨event.eventId, event.type, none, event.payload, none⟩] := by
  let t : PosThread := ⟨.record event, idle, some (program cfg (.record event))⟩
  let w₁ : PosWorld := ⟨w.shared, w.threads ++ [t]⟩
  have hstart : w.act (system cfg) (.start (.record event)) = some w₁ := rfl
  have hlast : w₁.threads[w.threads.length]? = some t := List.getElem?_concat_length
  have hunlocked : ∀ x, ¬ w₁.locked (system cfg) w.threads.length x = true := by
    intro x hx
    obtain ⟨j, u, hu, hj, hxu⟩ := World.locked_eq_true.mp hx
    rcases List.mem_append.mp (List.mem_of_getElem? hu) with hu' | hu'
    · have hheld : u.session.held = [] := hfree u hu'
      have hmem : x ∈ u.session.held := hxu
      rw [hheld] at hmem
      cases hmem
    · rw [List.mem_singleton.mp hu'] at hxu
      cases hxu
  have hempty : (w.shared.db.paymentEvents.select fun _ e =>
      e.providerEventId == event.eventId).isEmpty = true := by
    rw [List.isEmpty_iff, Table.select_eq_nil]
    exact fun id' e he => beq_eq_false_iff_ne.mpr (hnew id' e he)
  have hexec : exec { fresh := id } (fun _ => false) idle w.shared
      (.statement (.insertEvent event.eventId event.type event.payload)) =
      some (some id, closed [.event id ⟨event.eventId, event.type, none, event.payload, none⟩],
        w.shared.commit
          [.event id ⟨event.eventId, event.type, none, event.payload, none⟩]) := by
    have hview : idle.view store w.shared.db = w.shared.db := rfl
    have hactive : idle.active = false := rfl
    simp [exec, hview, Statement.idUnused, hid, Session.execute, hactive, Statement.effect,
      hempty, closed, Shared.commit]
    rfl
  have hdoor : Succeeds { fresh := id } (Reply.recorded <$> CafePos.record event) idle w.shared
      (.recorded (some id))
      (closed [.event id ⟨event.eventId, event.type, none, event.payload, none⟩])
      (w.shared.commit [.event id ⟨event.eventId, event.type, none, event.payload, none⟩]) :=
    .map (.perform hexec)
  have hrun := Runs.alone_eq (M := system cfg) hlast rfl hunlocked hdoor
  refine ⟨_, (h.tail (Runs.allows_all w _) hstart).trans hrun, ?_, rfl⟩
  intro u hu
  rcases List.mem_or_eq_of_mem_set hu with hu | rfl
  · rcases List.mem_append.mp hu with hu | hu
    · exact hfree u hu
    · rw [List.mem_singleton.mp hu]
      rfl
  · rfl

/-- The `n`-th success about an intent nobody knows. -/
def lostSuccess (n : ℕ) : GatewayEvent :=
  ⟨formatOrderNumber n, "payment_intent.succeeded", Gateway.eventPayload (formatOrderNumber n)
    "payment_intent.succeeded" "pi_lost" ⟨9000, "thb", 100, none, .confirmable⟩⟩

/-- Its row in the inbox. -/
def lostRow (n : ℕ) : PaymentEvent :=
  ⟨formatOrderNumber n, "payment_intent.succeeded", none, (lostSuccess n).payload, none⟩

/-- The inbox holds `n` lost successes, and nobody has paid anything. -/
structure LostInbox (n : ℕ) (db : Db) : Prop where
  payments : db.payments = ∅
  events : ∀ id, db.paymentEvents.get id = if id < n then some (lostRow id) else none

theorem lostRow_refused (n : ℕ) {db : Db} (h : db.payments = ∅) :
    decisionOn db (lostRow n) = some (.refuse (.noPaymentRow (some (.str "pi_lost")))) := by
  have hout : toOutcome (lostRow n).payload =
      some (.succeeded (some (.str "pi_lost")) (some (.num 9000)) "THB") := rfl
  have hnone : ((Query.paymentByIntent (some (.str "pi_lost"))).answer db :
      Option (Id × Payment)) = none := by
    simp only [Query.answer, h]
    rfl
  rw [decisionOn, hout, Option.map_some, loaded]
  simp only [GatewayOutcome.intent, hnone, decidePaymentOutcome]

/-- Any number of them can be stored. -/
theorem exists_lostInbox (n : ℕ) : ∃ w, Reachable cornerCafe w ∧
    (∀ t ∈ w.threads, t.session.held = []) ∧ LostInbox n w.shared.db := by
  induction n with
  | zero =>
    refine ⟨opening, .refl, fun t ht => absurd ht List.not_mem_nil, rfl, fun id => ?_⟩
    rw [if_neg (Nat.not_lt_zero id)]
    rfl
  | succ n ih =>
    obtain ⟨w, hw, hfree, hin⟩ := ih
    have hnew : ∀ id e, w.shared.db.paymentEvents.get id = some e →
        e.providerEventId ≠ (lostSuccess n).eventId := by
      intro id e he heq
      rw [hin.events] at he
      split at he
      · rename_i hlt
        obtain rfl := Option.some.inj he
        exact absurd (formatOrderNumber_injective heq) (Nat.ne_of_lt hlt)
      · cases he
    obtain ⟨w', hw', hfree', hshared⟩ := hw.record hfree (lostSuccess n)
      ((hin.events n).trans (if_neg (lt_irrefl n))) hnew
    refine ⟨w', hw', hfree', ?_, fun id => ?_⟩
    · rw [hshared]
      exact hin.payments
    · rw [hshared]
      change (w.shared.db.paymentEvents.put n (lostRow n)).get id = _
      rw [Table.get_put, hin.events]
      by_cases hid : id = n
      · simp [hid]
      · have hlt : id < n + 1 ↔ id < n :=
          ⟨fun h => lt_of_le_of_ne (Nat.lt_succ_iff.mp h) hid, Nat.lt_succ_of_lt⟩
        simp [hid, hlt]

/-- Lost successes are stuck. -/
theorem mem_stuck_of_lostRow {n : ℕ} {db : Db} {id : Id} (hp : db.payments = ∅)
    (he : db.paymentEvents.get id = some (lostRow n)) : id ∈ db.stuck := by
  refine Db.mem_stuck.mpr ⟨?_, ?_⟩
  · simp [Db.isUnprocessed, he, lostRow]
  · simp [Db.isActionable, he, lostRow_refused n hp, PaymentDecision.isRefuse]

/-- An event this system does not act on; it only has to be stamped. -/
def otherEvent (n : ℕ) : GatewayEvent :=
  ⟨formatOrderNumber n, "charge.refunded", Gateway.eventPayload (formatOrderNumber n)
    "charge.refunded" "pi_lost" ⟨9000, "thb", 100, none, .confirmable⟩⟩

theorem otherEvent_skipped (n : ℕ) (db : Db) :
    decisionOn db ⟨formatOrderNumber n, "charge.refunded", none, (otherEvent n).payload, none⟩ =
      some (.skip .notActedOn) := by
  have hout : toOutcome (otherEvent n).payload = some .ignored := rfl
  rw [decisionOn, hout, Option.map_some]
  rfl

/-- A hundred lost successes fill the batch; an event that only has to be stamped waits behind
them, for ever. -/
theorem sweep_starved : ¬ ∀ w, Reachable cornerCafe w → SweepProgress w.shared := by
  intro hclaim
  obtain ⟨w₀, hw₀, hfree, hin⟩ := exists_lostInbox 100
  have hnew : ∀ id e, w₀.shared.db.paymentEvents.get id = some e →
      e.providerEventId ≠ (otherEvent 100).eventId := by
    intro id e he heq
    rw [hin.events] at he
    split at he
    · rename_i hlt
      obtain rfl := Option.some.inj he
      exact absurd (formatOrderNumber_injective heq) (Nat.ne_of_lt hlt)
    · cases he
  obtain ⟨w, hw, -, hshared⟩ := hw₀.record hfree (otherEvent 100)
    ((hin.events 100).trans (if_neg (lt_irrefl 100))) hnew
  have hget : ∀ id, w.shared.db.paymentEvents.get id = if id = 100 then
      some ⟨formatOrderNumber 100, "charge.refunded", none, (otherEvent 100).payload, none⟩
      else w₀.shared.db.paymentEvents.get id := by
    intro id
    rw [hshared]
    exact Table.get_put ..
  have hpayments : w.shared.db.payments = ∅ := by
    rw [hshared]
    exact hin.payments
  have hmany : maxPerTick ≤ w.shared.db.stuck.length := by
    have hsubset : List.range 100 ⊆ w.shared.db.stuck := by
      intro id hid
      have hlt : id < 100 := List.mem_range.mp hid
      have hrow : w.shared.db.paymentEvents.get id = some (lostRow id) :=
        (hget id).trans ((if_neg (Nat.ne_of_lt hlt)).trans ((hin.events id).trans (if_pos hlt)))
      exact mem_stuck_of_lostRow hpayments hrow
    have hle := (List.subperm_of_subset List.nodup_range hsubset).length_le
    rw [List.length_range] at hle
    exact hle
  rcases hclaim w hw with hall | hsweeps
  · have hrefused := hall 100 _ ((hget 100).trans (if_pos rfl)) rfl
    rw [otherEvent_skipped] at hrefused
    cases hrefused
  · have hstamps := hsweeps _ (fun _ => {}) (.take_stuck hmany)
    obtain ⟨id, hid, hact⟩ := (sweepStamps_iff ..).mp hstamps
    exact (Db.mem_stuck.mp (List.mem_of_mem_take hid)).2 hact

end CafePos
