import CafePos.ClosingDoors

/-!
# The webhook inbox keeps to the ledger

`WebhookInboxService.record` and `PaymentEventProcessor.processEvent`. The decision is
made on three unlocked reads; what makes it safe to carry out later is that an event's
payload and a payment's terms never change, and that the order's move is guarded.

`Handled` is what a `processEvent` call has achieved for a success by the time it returns,
however it returns: it has seen the event stamped or the order past `PENDING_PAYMENT`.
-/

namespace CafePos

open Interleaving

variable {cfg : Config} {Γ : Context cfg} {c : Call}

/-! ## What an event says does not change -/

/-- An intent is named by its id, as a string. -/
theorem Payment.named_iff {p : Payment} {i : Option Json} :
    p.named i ↔ ∃ x, p.providerIntentId = some x ∧ i = some (.str x) := by
  rw [Payment.named, Option.any_eq_true]
  constructor
  · rintro ⟨x, hx, hi⟩
    refine ⟨x, hx, ?_⟩
    rw [Json.isString.eq_def] at hi
    split at hi
    · rw [beq_iff_eq] at hi
      rw [hi]
    · cases hi
  · rintro ⟨x, hx, rfl⟩
    exact ⟨x, hx, by simp [Json.isString]⟩

/-- An intent names one payment. -/
theorem Settled.named {db : Db} (h : Settled db) {id id' : Id} {p p' : Payment}
    {i : Option Json} (hp : db.payments.get id = some p) (hp' : db.payments.get id' = some p')
    (hi : p.named i) (hi' : p'.named i) : id = id' := by
  obtain ⟨x, hx, rfl⟩ := Payment.named_iff.mp hi
  obtain ⟨y, hy, hxy⟩ := Payment.named_iff.mp hi'
  cases hxy
  exact h.intent hp hp' hx hy

theorem captures_of_payload {e e' : PaymentEvent} (h : e'.payload = e.payload) (p : Payment) :
    captures e' p = captures e p := by
  rw [captures, captures, h]

theorem reportsSuccess_of_payload {e e' : PaymentEvent} (h : e'.payload = e.payload) :
    reportsSuccess e' = reportsSuccess e := by
  rw [reportsSuccess, reportsSuccess, h]

theorem captures_of_evolves {p p' : Payment} (h : p.Evolves p') (e : PaymentEvent) :
    captures e p' = captures e p := by
  simp only [captures, Payment.named, h.providerIntentId, h.amountMinor, h.currency]

/-- An event that captures something reports a success. -/
theorem captures_iff {e : PaymentEvent} {p : Payment} : captures e p ↔
    ∃ intentId amount, toOutcome e.payload = some (.succeeded intentId amount p.currency) ∧
      p.named intentId ∧ Json.isNumber p.amountMinor amount := by
  rw [captures]
  split
  · rename_i intentId amount currency hout
    simp only [hout, Bool.and_eq_true, beq_iff_eq, Option.some.injEq,
      GatewayOutcome.succeeded.injEq]
    constructor
    · rintro ⟨⟨hn, ha⟩, rfl⟩
      exact ⟨intentId, amount, ⟨rfl, rfl, rfl⟩, hn, ha⟩
    · rintro ⟨_, _, ⟨rfl, rfl, rfl⟩, hn, ha⟩
      exact ⟨⟨hn, ha⟩, rfl⟩
  · rename_i hout
    refine ⟨fun h => absurd h Bool.false_ne_true, ?_⟩
    rintro ⟨intentId, amount, h, -⟩
    exact absurd h (hout _ _ _)

theorem FoundPaid.grows {P : PosPermit} {eventId : Id} {e e' : PaymentEvent} {s s' : Shared}
    (h : FoundPaid P c eventId e s) (hs : Grows s s') (he : e'.payload = e.payload) :
    FoundPaid P c eventId e' s' := by
  obtain ⟨s₀, l₀, e₀, id, p, row, hgrow, hpermit, he₀, hpay, hp, hcap, hrow, hpaid⟩ := h
  exact ⟨s₀, l₀, e₀, id, p, row, hgrow.trans hs, hpermit, he₀, hpay.trans he.symm, hp,
    (captures_of_payload he p).trans hcap, hrow, hpaid⟩

/-! ## Recording a delivery -/

/-- A stamp or a delivery pays for nothing. -/
theorem unpaying_event (id : Id) (e : PaymentEvent) : Unpaying [.event id e] := by
  intro w hw
  rw [List.mem_singleton.mp hw]
  exact fun _ => ⟨rfl, rfl⟩

theorem unpaying_stamp (id : Id) (e : PaymentEvent) (paymentId : Option Id) (now : Instant) :
    Unpaying (stampWrites id e paymentId now) :=
  forall_stampWrites fun _ _ => ⟨rfl, rfl⟩

/-- `WebhookInboxService.record`. -/
theorem record_ensures {event : GatewayEvent} {s : Shared} :
    Ensures Γ (.record event) (record event) Announced Untouched idle s := by
  refine .inbox fun s₁ fresh now e hs₁ hunused he => ?_
  simp only [Statement.effect] at he
  split at he
  · rename_i hnew
    subst he
    refine Or.inr ⟨_, _, rfl, .record ?_ ?_, announces_of_unpaying (unpaying_event _ _)
      (fun _ h => absurd h List.not_mem_nil)⟩
    · simpa [Statement.idUnused] using hunused
    · intro id e he
      rw [List.isEmpty_iff, Table.select_eq_nil] at hnew
      simpa using hnew id e he
  · subst he
    exact Or.inl ⟨rfl, announces_idle⟩

/-! ## Reading what an event is about -/

namespace Ensures

variable {E : Err → Sess → Shared → Prop} {l : Sess} {s : Shared}

/-- `load`: no payment has the intent, or one has; then its order is read next. -/
theorem load {outcome : GatewayOutcome}
    {Q : Option PaymentRecord × Option OrderRecord → Sess → Shared → Prop} (hi : Γ.spec.inv s)
    (hnone : ∀ s₁, Γ.After l s s₁ → (∀ i, outcome.intent = some i →
      ∀ id p, s₁.db.payments.get id = some p → ¬ p.named i) → Q (none, none) l s₁)
    (hsome : ∀ s₁ i id p₀ p, Γ.After l s s₁ → outcome.intent = some i → p₀.named i →
      s₁.db.payments.get id = some p → p₀.Evolves p →
      Γ.permit.step c (.query .pool (.order p.orderId)) l s₁ →
      Q (some (toRecord (id, p₀)), (s₁.db.orders.get p.orderId).map fun o => ⟨p.orderId, o.status⟩)
        l s₁) :
    Ensures Γ c (CafePos.load outcome) Q E l s := by
  rw [CafePos.load]
  split
  · rename_i hintent
    refine pure (hnone s (.refl hi) fun i hi' => ?_)
    rw [hintent] at hi'
    cases hi'
  · rename_i i hintent
    refine bind (select fun s₁ hs₁ _ => ?_)
    simp only [Query.answer]
    split
    · rename_i hnil
      refine pure (hnone s₁ hs₁ fun i' hi' id p hp hnamed => ?_)
      obtain rfl := Option.some.inj (hintent.symm.trans hi')
      rw [List.head?_eq_none_iff, Table.select_eq_nil] at hnil
      have hno := hnil id p hp
      rw [Payment.named] at hnamed
      rw [hnamed] at hno
      cases hno
    · rename_i q hq
      obtain ⟨hp₀, hnamed⟩ := Table.mem_select.mp (List.mem_of_mem_head? hq)
      refine bind (select fun s₂ hs₂ hpermit => ?_)
      obtain ⟨p, hp, hev⟩ := hs₂.rely.payment hp₀
      have hq := hsome s₂ i q.1 q.2 p (hs₁.trans hs₂) hintent hnamed hp hev
        (by rw [hev.orderId]; exact hpermit)
      rw [hev.orderId] at hq
      exact pure hq

/-- `resolveMethod` never throws and changes nothing. -/
theorem methodOf {id : Id} {Q : Option PaymentMethod → Sess → Shared → Prop}
    (h : ∀ s₁ method, Γ.After l s s₁ → Q method l s₁) :
    Ensures Γ c (CafePos.methodOf id) Q E l s := by
  refine bind (select fun s₁ hs₁ _ => ?_)
  split
  · exact pure (h s₁ _ hs₁)
  · split
    · exact pure (h s₁ _ hs₁)
    · refine bind (stripeRetrieve fun s₂ inp hs₂ => ?_)
      split
      · exact pure (h s₂ _ (hs₁.trans hs₂))
      · exact pure (h s₂ _ (hs₁.trans hs₂))

/-- A stamp outside a transaction: the event is skipped. -/
theorem skipEvent {eventId : Id} {e₀ : PaymentEvent} {paymentId : Option Id}
    {Q : Bool → Sess → Shared → Prop} (hc : c = .processEvent eventId)
    (he₀ : s.db.paymentEvents.get eventId = some e₀)
    (hwhy : reportsSuccess e₀ → FoundPaid Γ.permit c eventId e₀ s)
    (h : ∀ s₁ b l', Grows s s₁ → Announces l'.published l'.committed → Q b l' s₁) :
    Ensures Γ c (CafePos.markProcessed eventId paymentId) Q E idle s := by
  subst hc
  refine inbox fun s₁ fresh now eff hs₁ _ heff => ?_
  obtain ⟨e, he, hev⟩ := hs₁.rely.event he₀
  simp only [Statement.effect, he] at heff
  split at heff
  · rename_i hn
    subst heff
    have hcommit : Commits cfg Γ.permit (.processEvent eventId) s₁
        [.event eventId { e with processedAt := some now, paymentId := paymentId.or e.paymentId }] := by
      have hc : Commits cfg Γ.permit (.processEvent eventId) s₁
          (stampWrites eventId e paymentId now) := by
        refine .skip he (Option.isNone_iff_eq_none.mp hn) fun hs => ?_
        rw [reportsSuccess_of_payload hev.payload] at hs
        exact (hwhy hs).grows hs₁.rely hev.payload
      rw [stampWrites, if_pos hn] at hc
      exact hc
    exact Or.inr ⟨_, _, rfl, hcommit, h _ _ _ (hs₁.rely.trans (hcommit.commit_grows hs₁.inv.1))
      (announces_of_unpaying (unpaying_event _ _) fun _ h => absurd h List.not_mem_nil)⟩
  · subst heff
    exact Or.inl ⟨rfl, h s₁ _ _ hs₁.rely announces_idle⟩

end Ensures

/-! ## Carrying a decision out -/

/-- The announcements of a payment captured. -/
theorem announces_markPaid {id orderId eventId : Id} {p : Payment} {row : Order}
    {e : PaymentEvent} {method : Option PaymentMethod} {now : Instant} {deviceId : Option Id}
    (hintent : p.providerIntentId.isSome) :
    Announces [.orderPaid orderId deviceId, .paymentSucceeded orderId deviceId id]
      [moveWrites ⟨orderId, .pendingPayment, .paid, systemActor, none⟩ row ++
        (settleWrites id p .succeeded method false ++ stampWrites eventId e (some id) now)] := by
  have hstamp := unpaying_stamp eventId e (some id) now
  have h₁ : ∀ x, (stampWrites eventId e (some id) now).countP (Write.isPaidRow x) = 0 :=
    fun x => List.countP_eq_zero.mpr fun w hw => by simp [(hstamp w hw x).1]
  have h₂ : ∀ x, (stampWrites eventId e (some id) now).countP (Write.isCapture x) = 0 :=
    fun x => List.countP_eq_zero.mpr fun w hw => by simp [(hstamp w hw x).2]
  refine ⟨fun x => ?_, fun x => ?_⟩
  · rw [List.flatten_singleton, List.countP_append, List.countP_append, h₁]
    simp [moveWrites, settleWrites, List.countP_cons, DomainEvent.isOrderPaid, Write.isPaidRow,
      TransitionRequest.history]
  · rw [List.flatten_singleton, List.countP_append, List.countP_append, h₂]
    simp [moveWrites, settleWrites, List.countP_cons, DomainEvent.isPaymentSucceeded,
      Write.isCapture, hintent]

/-- A payment that an event captures came through the gateway. -/
theorem isSome_of_captures {e : PaymentEvent} {p : Payment} (h : captures e p) :
    p.providerIntentId.isSome := by
  obtain ⟨i, a, -, hnamed, -⟩ := captures_iff.mp h
  rw [Payment.named, Option.any_eq_true] at hnamed
  obtain ⟨x, hx, -⟩ := hnamed
  rw [hx]
  rfl

namespace Ensures

variable {E : Err → Sess → Shared → Prop} {s : Shared}

/-- `markPaid`: the order was paid for, or it was not `PENDING_PAYMENT` any more. -/
theorem markPaid {eventId id orderId : Id} {e₀ : PaymentEvent} {p₀ : Payment}
    {Q : Bool → Sess → Shared → Prop} (hc : c = .processEvent eventId)
    (he₀ : s.db.paymentEvents.get eventId = some e₀) (hp₀ : s.db.payments.get id = some p₀)
    (hcap : captures e₀ p₀) (ho : p₀.orderId = orderId)
    (h : ∀ s₁ l', Grows s s₁ → Announces l'.published l'.committed →
      (∃ row, s₁.db.orders.get orderId = some row ∧ row.status ≠ .pendingPayment) → Q true l' s₁)
    (herr : ∀ s₀ s₁ e, Grows s s₀ → Grows s₀ s₁ →
      (∃ row, s₀.db.orders.get orderId = some row ∧ row.status ≠ .pendingPayment) → E e idle s₁) :
    Ensures Γ c (CafePos.markPaid eventId id orderId) Q E idle s := by
  subst hc ho
  refine bind (methodOf fun s₁ method hs₁ => bind (afterCommit (transaction fun s₂ hs₂ =>
    bind (transitionOrder rfl (by simp [opened, idle, machine]) ?_ ?_))))
  · intro s₃ l₁ row hs₃ hrow hpending hadds₁
    have hgrow₃ : Grows s s₃ := hs₁.rely.trans (hs₂.rely.trans hs₃.rely)
    have hlog₁ : l₁.log = moveWrites ⟨p₀.orderId, .pendingPayment, .paid, systemActor, none⟩ row :=
      hadds₁.log
    obtain ⟨p₁, hp₁, hev₁⟩ := hgrow₃.payment hp₀
    refine bind (updatePayment hadds₁.active (by simp [hlog₁, moveWrites]) hp₁ ?_)
    intro s₄ l₂ p hs₄ hp hadds₂
    have hadds₁₂ := hadds₁.trans hadds₂
    obtain ⟨e₁, he₁, hev₂⟩ := (hgrow₃.trans hs₄.rely).event he₀
    refine bind (markProcessed hadds₂.active ?_ he₁ ?_)
    · intro w hw id' e' heq
      rw [hadds₁₂.log, heq] at hw
      simp [opened, idle, machine, moveWrites, settleWrites] at hw
    intro s₅ l₃ e now b hs₅ he hadds₃
    refine pure fun s₆ hs₆ _ => ?_
    -- at the commit: every row the log touches is as it was when it was written
    have hs₄₆ : Γ.After l₂ s₄ s₆ := hs₅.trans (hadds₃.after hs₆)
    have hs₃₆ : Γ.After l₁ s₃ s₆ := hs₄.trans (hadds₂.after hs₄₆)
    obtain ⟨p', hp', hevp, hsame⟩ := Context.kept_settle hs₄₆ hp fun w hw => hadds₂.mem hw
    obtain ⟨e', he', heve, hsame'⟩ := Context.kept_stamp hs₆ he fun w hw => hadds₃.mem hw
    have hrow₆ : s₆.db.orders.get p₀.orderId = some row := by
      rw [Context.kept_order hs₃₆ (hadds₁.mem (List.mem_cons_self ..))]
      exact hrow
    have hevp₀ : p₀.Evolves p' := (hgrow₃.trans hs₃₆.rely).db.payments.rel hp₀ hp'
    have heve₀ : e₀.Evolves e' := (hgrow₃.trans hs₃₆.rely).db.paymentEvents.rel he₀ he'
    have hcap' : captures e' p' := by
      rw [captures_of_payload heve₀.payload, captures_of_evolves hevp₀]
      exact hcap
    have hadds := hadds₁.trans (hadds₂.trans hadds₃)
    rw [← hsame, ← hsame'] at hadds
    have hcommit : Commits cfg Γ.permit (.processEvent eventId) s₆
        (moveWrites ⟨p'.orderId, .pendingPayment, .paid, systemActor, none⟩ row ++
          (settleWrites id p' .succeeded method false ++ stampWrites eventId e' (some id) now)) :=
      .markPaid he' hp' hcap' (by rw [hevp₀.orderId]; exact hrow₆) hpending
    rw [hevp₀.orderId] at hcommit
    have hintent := isSome_of_captures hcap'
    refine ⟨_, hadds, hcommit, announces_markPaid hintent,
      fun s₇ hs₇ => pure (h s₇ _ ?_ (announces_markPaid hintent) ?_)⟩
    · exact (hgrow₃.trans hs₃₆.rely).trans ((hcommit.commit_grows hs₆.inv.1).trans hs₇)
    · have hpaid : (s₆.commit (moveWrites ⟨p₀.orderId, .pendingPayment, .paid, systemActor, none⟩
          row ++ (settleWrites id p' .succeeded method false ++
            stampWrites eventId e' (some id) now))).db.orders.get p₀.orderId =
          some (Statement.moved row .pendingPayment .paid) := by
        rw [Shared.commit, orders_moveWrites]
        · exact Table.get_put_self ..
        · intro w hw id' row' heq
          rw [heq] at hw
          simp only [settleWrites, stampWrites, List.mem_append] at hw
          rcases hw with hw | hw
          · simp at hw
          · split at hw <;> simp at hw
      obtain ⟨row₇, hrow₇, hev⟩ := hs₇.order hpaid
      exact ⟨row₇, hrow₇, hev.status.past_pending⟩
  · intro s₃ s₄ l₁ e hs₃ hs₄ hne _ hadds
    refine ⟨⟨_, hadds⟩, fun s₅ hs₅ => herr s₃ s₅ e ?_ ?_ ?_⟩
    · exact hs₁.rely.trans (hs₂.rely.trans hs₃.rely)
    · exact hs₄.rely.trans hs₅.rely
    · obtain ⟨p, hp, hev⟩ := (hs₁.rely.trans (hs₂.rely.trans hs₃.rely)).payment hp₀
      obtain ⟨row, hrow, -⟩ := hs₃.inv.1.payment hp
      rw [hev.orderId] at hrow
      exact ⟨row, hrow, hne row hrow⟩

/-- `markPayment`: the payment's guarded update and the stamp. -/
theorem markPayment {eventId id : Id} {e₀ : PaymentEvent} {p₀ : Payment} {status : PaymentStatus}
    {Q : Bool → Sess → Shared → Prop} (hc : c = .processEvent eventId)
    (he₀ : s.db.paymentEvents.get eventId = some e₀) (hno : ¬ reportsSuccess e₀)
    (hp₀ : s.db.payments.get id = some p₀) (hstatus : status = .failed ∨ status = .cancelled)
    (h : ∀ s₁ l', Grows s s₁ → Announces l'.published l'.committed → Q true l' s₁) :
    Ensures Γ c (CafePos.markPayment eventId id status) Q E idle s := by
  subst hc
  have hne : status ≠ .succeeded := by
    rcases hstatus with rfl | rfl <;> decide
  refine bind (afterCommit (transaction fun s₁ hs₁ => ?_))
  obtain ⟨p₁, hp₁, -⟩ := hs₁.rely.payment hp₀
  refine bind (updatePayment rfl (by simp [opened, idle, machine]) hp₁ ?_)
  intro s₂ l₁ p hs₂ hp hadds₁
  obtain ⟨e₁, he₁, -⟩ := (hs₁.rely.trans hs₂.rely).event he₀
  refine bind (markProcessed hadds₁.active ?_ he₁ ?_)
  · intro w hw id' e' heq
    rw [hadds₁.log, heq, settleWrites] at hw
    split at hw <;> simp [opened, idle, machine] at hw
  intro s₃ l₂ e now b hs₃ he hadds₂
  -- the announcement is decided by a read, or by none; the log is complete either way
  have hend : ∀ s₄ events, Γ.After l₂ s₃ s₄ → (∀ ev ∈ events, DomainEvent.Minor ev) →
      ∀ s₅, Γ.After l₂ s₄ s₅ → Γ.permit.step (.processEvent eventId) .commit l₂ s₅ →
      ∃ ws, Adds opened l₂ ws ∧ Commits cfg Γ.permit (.processEvent eventId) s₅ ws ∧
        Announces ((closed ws).published ++ events) (closed ws).committed ∧
          ∀ s₆, Grows (s₅.commit ws) s₆ →
            Ensures Γ (.processEvent eventId) (Pure.pure true) Q E ((closed ws).publish events) s₆ := by
    intro s₄ events hs₄ hminor s₅ hs₅ _
    have hs₃₅ : Γ.After l₂ s₃ s₅ := hs₄.trans hs₅
    have hs₂₅ : Γ.After l₁ s₂ s₅ := hs₃.trans (hadds₂.after hs₃₅)
    obtain ⟨p', hp', -, hsame⟩ := Context.kept_settle hs₂₅ hp fun w hw => hadds₁.mem hw
    obtain ⟨e', he', -, hsame'⟩ := Context.kept_stamp hs₃₅ he fun w hw => hadds₂.mem hw
    have hgrow : Grows s s₅ := hs₁.rely.trans (hs₂.rely.trans hs₂₅.rely)
    have hno' : ¬ reportsSuccess e' := by
      rw [reportsSuccess_of_payload (hgrow.db.paymentEvents.rel he₀ he').payload]
      exact hno
    have hadds := hadds₁.trans hadds₂
    rw [← hsame, ← hsame'] at hadds
    have hcommit : Commits cfg Γ.permit (.processEvent eventId) s₅
        (settleWrites id p' status none true ++ stampWrites eventId e' (some id) now) :=
      .markPayment he' hno' hp' hstatus
    have hann : Announces events [settleWrites id p' status none true ++
        stampWrites eventId e' (some id) now] :=
      announces_of_unpaying ((unpaying_settle hne).append (unpaying_stamp _ _ _ _)) hminor
    refine ⟨_, hadds, hcommit, hann, fun s₆ hs₆ => pure (h s₆ _ ?_ hann)⟩
    exact hgrow.trans ((hcommit.commit_grows hs₅.inv.1).trans hs₆)
  have hnothing := hend s₃ [] (.refl hs₃.inv) (fun _ h => absurd h List.not_mem_nil)
  refine bind ?_
  rw [announceFailure.eq_def]
  split
  · exact pure (pure hnothing)
  · split
    · refine bind (selectTx fun s₄ hs₄ => ?_)
      split
      · exact pure (pure (hend s₄ [] hs₄ (fun _ h => absurd h List.not_mem_nil)))
      · refine pure (pure (hend s₄ _ hs₄ ?_))
        simp only [List.mem_singleton, forall_eq]
        exact fun _ => ⟨rfl, rfl⟩
    · exact pure (pure hnothing)

end Ensures

/-! ## Processing an event -/

/-- By the time a `processEvent` call that began in `s₀` returns in `s`, a success that was
stored by then is dealt with: the call saw the event stamped, or its order past
`PENDING_PAYMENT`. -/
def Handled (Γ : Context cfg) (eventId : Id) (s₀ s : Shared) : Prop :=
  ∀ e id p, s₀.db.paymentEvents.get eventId = some e → s₀.db.payments.get id = some p →
    captures e p → ∃ s₁, Grows s₀ s₁ ∧ Grows s₁ s ∧
      ((∃ e₁, Γ.spec.inv s₁ ∧ s₁.db.paymentEvents.get eventId = some e₁ ∧
        e₁.processedAt.isSome) ∨
      ∃ row, s₁.db.orders.get p.orderId = some row ∧ row.status ≠ .pendingPayment)

/-- What a `processEvent` call that began in `s₀` ends with. -/
def EventDone (Γ : Context cfg) (eventId : Id) (s₀ : Shared) (_ : Bool) (l : Sess) (s : Shared) :
    Prop :=
  Announces l.published l.committed ∧ Handled Γ eventId s₀ s

/-- An event that is no success needs no handling. -/
theorem handled_of_not_success {eventId : Id} {s₀ s : Shared}
    (h : ∀ e, s₀.db.paymentEvents.get eventId = some e → ¬ reportsSuccess e) :
    Handled Γ eventId s₀ s := by
  intro e id p he hp hcap
  refine absurd ?_ (h e he)
  obtain ⟨i, a, hout, -⟩ := captures_iff.mp hcap
  rw [reportsSuccess, hout]

/-- What was handled stays handled. -/
theorem Handled.grows {eventId : Id} {s₀ s s' : Shared} (h : Handled Γ eventId s₀ s)
    (hs : Grows s s') : Handled Γ eventId s₀ s' := by
  intro e id p he hp hcap
  obtain ⟨s₁, h₀, h₁, hcases⟩ := h e id p he hp hcap
  exact ⟨s₁, h₀, h₁.trans hs, hcases⟩

/-- What one that throws ends with. -/
def EventFailed (Γ : Context cfg) (eventId : Id) (s₀ : Shared) (_ : Err) (l : Sess) (s : Shared) :
    Prop :=
  l = idle ∧ Handled Γ eventId s₀ s

/-- A skipped event that is no success. -/
theorem carryOut_skip {eventId : Id} {s₀ s : Shared} {e : PaymentEvent}
    {payment : Option PaymentRecord} {why : Why}
    (he : s.db.paymentEvents.get eventId = some e)
    (hwhy : reportsSuccess e → FoundPaid Γ.permit (.processEvent eventId) eventId e s)
    (hh : Handled Γ eventId s₀ s) :
    Ensures Γ (.processEvent eventId) (carryOut eventId payment (.skip why))
      (EventDone Γ eventId s₀) (EventFailed Γ eventId s₀) idle s :=
  .bind (.skipEvent rfl he hwhy fun _ _ _ hs₁ hann => .pure ⟨hann, hh.grows hs₁⟩)

/-- A success that found its payment. -/
theorem decideSuccess_ensures {eventId : Id} {s₀ s : Shared} {e : PaymentEvent} {id : Id}
    {p₀ p : Payment} {i amount : Option Json} {currency : String}
    (hi : Γ.spec.inv s) (hgrow : Grows s₀ s)
    (he : s.db.paymentEvents.get eventId = some e)
    (hout : toOutcome e.payload = some (.succeeded i amount currency))
    (hnamed : p₀.named i) (hp : s.db.payments.get id = some p) (hev : p₀.Evolves p)
    (hpermit : Γ.permit.step (.processEvent eventId) (.query .pool (.order p.orderId)) idle s) :
    Ensures Γ (.processEvent eventId)
      (carryOut eventId (some (toRecord (id, p₀)))
        (decideSuccess amount currency (toRecord (id, p₀))
          ((s.db.orders.get p.orderId).map fun o => ⟨p.orderId, o.status⟩)))
      (EventDone Γ eventId s₀) (EventFailed Γ eventId s₀) idle s := by
  -- the payment the event captured when the call began is this one
  have hsame : ∀ e₀ id₀ q, s₀.db.paymentEvents.get eventId = some e₀ →
      s₀.db.payments.get id₀ = some q → captures e₀ q → q.orderId = p.orderId ∧ captures e p := by
    intro e₀ id₀ q he₀ hq hcap
    have hpay := (hgrow.db.paymentEvents.rel he₀ he).payload
    obtain ⟨q', hq', hevq⟩ := hgrow.payment hq
    have hcap' : captures e q' := by
      rw [captures_of_payload hpay, captures_of_evolves hevq]
      exact hcap
    obtain ⟨i', amount', hout', hnamed', -⟩ := captures_iff.mp hcap'
    rw [hout] at hout'
    cases hout'
    have hnamedp : p.named i := by
      rw [Payment.named, hev.providerIntentId]
      exact hnamed
    obtain rfl := hi.1.named hq' hp hnamed' hnamedp
    obtain rfl := Option.some.inj (hp.symm.trans hq')
    exact ⟨hevq.orderId.symm, hcap'⟩
  obtain ⟨row, hrow, -⟩ := hi.1.payment hp
  have hpast : row.status ≠ .pendingPayment → Handled Γ eventId s₀ s := by
    intro hne e₀ id₀ q he₀ hq hcap
    obtain ⟨ho, -⟩ := hsame e₀ id₀ q he₀ hq hcap
    exact ⟨s, hgrow, .refl s, Or.inr ⟨row, by rw [ho]; exact hrow, hne⟩⟩
  have hmismatch : ¬ captures e p → Handled Γ eventId s₀ s := by
    intro hno e₀ id₀ q he₀ hq hcap
    exact absurd (hsame e₀ id₀ q he₀ hq hcap).2 hno
  rw [hrow, Option.map_some, decideSuccess]
  by_cases hamount : (!Json.isNumber (toRecord (id, p₀)).amountMinor amount) = true
  · rw [if_pos hamount]
    refine .pure ⟨announces_idle, hmismatch fun hcap => ?_⟩
    obtain ⟨_, _, hout', -, hnum⟩ := captures_iff.mp hcap
    rw [hout] at hout'
    cases hout'
    rw [hev.amountMinor] at hnum
    simp [toRecord, hnum] at hamount
  · rw [if_neg hamount]
    by_cases hcurrency : (toRecord (id, p₀)).currency ≠ currency
    · rw [if_pos hcurrency]
      refine .pure ⟨announces_idle, hmismatch fun hcap => ?_⟩
      obtain ⟨_, _, hout', -⟩ := captures_iff.mp hcap
      rw [hout] at hout'
      cases hout'
      exact hcurrency hev.currency.symm
    · rw [if_neg hcurrency]
      have hcap : captures e p := by
        refine captures_iff.mpr ⟨i, amount, ?_, ?_, ?_⟩
        · rw [hout, hev.currency, ← not_not.mp hcurrency]
          rfl
        · rw [Payment.named, hev.providerIntentId]
          exact hnamed
        · rw [hev.amountMinor]
          simpa [toRecord] using hamount
      dsimp only
      by_cases hpaid : row.status = .paid
      · rw [if_pos hpaid]
        refine carryOut_skip he (fun _ => ?_) (hpast (by rw [hpaid]; decide))
        exact ⟨s, idle, e, id, p, row, .refl s, hpermit, he, rfl, hp, hcap, hrow, hpaid⟩
      · rw [if_neg hpaid]
        by_cases hne : row.status ≠ .pendingPayment
        · rw [if_pos hne]
          exact .pure ⟨announces_idle, hpast hne⟩
        · rw [if_neg hne]
          refine .markPaid rfl he hp hcap rfl ?_ ?_
          · intro s₁ l' hs₁ hann hrow₁
            refine ⟨hann, fun e₀ id₀ q he₀ hq hcap => ?_⟩
            obtain ⟨ho, -⟩ := hsame e₀ id₀ q he₀ hq hcap
            exact ⟨s₁, hgrow.trans hs₁, .refl s₁, Or.inr (by rw [ho]; exact hrow₁)⟩
          · intro s₁ s₂ err hs₁ hs₂ hrow₁
            refine ⟨rfl, fun e₀ id₀ q he₀ hq hcap => ?_⟩
            obtain ⟨ho, -⟩ := hsame e₀ id₀ q he₀ hq hcap
            exact ⟨s₁, hgrow.trans hs₁, hs₂, Or.inr (by rw [ho]; exact hrow₁)⟩

/-- `apply`. -/
theorem applyEvent_ensures {eventId : Id} {s : Shared} :
    Ensures Γ (.processEvent eventId) (applyEvent eventId) (EventDone Γ eventId s)
      (EventFailed Γ eventId s) idle s := by
  refine .bind (.select fun s₁ hs₁ _ => ?_)
  simp only [Query.answer]
  split
  · -- nothing unprocessed under this id
    rename_i hnone
    refine .pure ⟨announces_idle, fun e id p he hp hcap => ⟨s₁, hs₁.rely, .refl _, Or.inl ?_⟩⟩
    obtain ⟨e₁, he₁, hev⟩ := hs₁.rely.event he
    refine ⟨e₁, hs₁.inv, he₁, Option.isSome_iff_ne_none.mpr ?_⟩
    rw [he₁] at hnone
    simpa [Option.filter] using hnone
  · rename_i event hevent
    have hevent₁ : s₁.db.paymentEvents.get eventId = some event :=
      (Option.filter_eq_some_iff.mp hevent).1
    have hpayload : ∀ e, s.db.paymentEvents.get eventId = some e → event.payload = e.payload :=
      fun e he => (hs₁.rely.db.paymentEvents.rel he hevent₁).payload
    -- whatever is no success is handled by doing nothing
    have hminor : ¬ reportsSuccess event → ∀ s', Handled Γ eventId s s' := by
      intro hno s'
      refine handled_of_not_success fun e he => ?_
      rw [← reportsSuccess_of_payload (hpayload e he)]
      exact hno
    split
    · -- an unreadable payload throws
      rename_i hout
      refine .throw ⟨rfl, hminor ?_ _⟩
      rw [reportsSuccess, hout]
      exact Bool.false_ne_true
    · rename_i outcome hout
      refine .bind (.load hs₁.inv ?_ ?_)
      · intro s₂ hs₂ hno
        obtain ⟨e₂, he₂, hev₂⟩ := hs₂.rely.event hevent₁
        cases outcome with
        | ignored =>
          have hnosuccess : ¬ reportsSuccess event := by
            rw [reportsSuccess, hout]
            exact Bool.false_ne_true
          refine carryOut_skip he₂ (fun hs => ?_) (hminor hnosuccess s₂)
          rw [reportsSuccess_of_payload hev₂.payload] at hs
          exact absurd hs hnosuccess
        | succeeded i amount currency =>
          -- a payment it captured would have been found
          refine .pure ⟨announces_idle, fun e id p he hp hcap => ?_⟩
          obtain ⟨i', amount', hout', hnamed, -⟩ := captures_iff.mp hcap
          rw [← hpayload e he, hout] at hout'
          cases hout'
          obtain ⟨p', hp', hev⟩ := (hs₁.rely.trans hs₂.rely).payment hp
          refine absurd ?_ (hno i rfl id p' hp')
          rw [Payment.named, hev.providerIntentId]
          exact hnamed
        | failed i reason =>
          refine .pure ⟨announces_idle, hminor ?_ _⟩
          rw [reportsSuccess, hout]
          exact Bool.false_ne_true
        | cancelled i =>
          refine .pure ⟨announces_idle, hminor ?_ _⟩
          rw [reportsSuccess, hout]
          exact Bool.false_ne_true
      · intro s₂ i id p₀ p hs₂ hintent hnamed hp hev hpermit
        obtain ⟨e₂, he₂, hev₂⟩ := hs₂.rely.event hevent₁
        have hgrow := hs₁.rely.trans hs₂.rely
        -- a failure or a cancellation: the payment is there, was settled, or takes the status
        have hclosed : ∀ status, status = .failed ∨ status = .cancelled → ¬ reportsSuccess event →
            Ensures Γ (.processEvent eventId) (carryOut eventId (some (toRecord (id, p₀)))
              (decideClosed status (toRecord (id, p₀)))) (EventDone Γ eventId s)
              (EventFailed Γ eventId s) idle s₂ := by
          intro status hstatus hno
          have hno₂ : ¬ reportsSuccess e₂ := by
            rw [reportsSuccess_of_payload hev₂.payload]
            exact hno
          rw [decideClosed]
          by_cases hthere : (toRecord (id, p₀)).status = status
          · rw [if_pos hthere]
            exact carryOut_skip he₂ (fun hs => absurd hs hno₂) (hminor hno s₂)
          · rw [if_neg hthere]
            by_cases hsettled : (toRecord (id, p₀)).status = .succeeded
            · rw [if_pos hsettled]
              exact .pure ⟨announces_idle, hminor hno s₂⟩
            · rw [if_neg hsettled]
              exact .markPayment rfl he₂ hno₂ hp hstatus
                fun s₃ l' _ hann => ⟨hann, hminor hno s₃⟩
        cases outcome with
        | ignored => cases hintent
        | succeeded i' amount currency =>
          obtain rfl := Option.some.inj hintent
          refine decideSuccess_ensures hs₂.inv hgrow he₂ ?_ hnamed hp hev hpermit
          rw [hev₂.payload]
          exact hout
        | failed i' reason =>
          refine hclosed .failed (Or.inl rfl) ?_
          rw [reportsSuccess, hout]
          exact Bool.false_ne_true
        | cancelled i' =>
          refine hclosed .cancelled (Or.inr rfl) ?_
          rw [reportsSuccess, hout]
          exact Bool.false_ne_true

/-- `PaymentEventProcessor.processEvent`: an error is answered `false`. -/
theorem processEvent_ensures {eventId : Id} {s : Shared} :
    Ensures Γ (.processEvent eventId) (processEvent eventId) (EventDone Γ eventId s) Untouched
      idle s := by
  refine .tryCatch (applyEvent_ensures.mono (fun _ _ _ _ h => h) ?_)
  rintro e l s' - ⟨rfl, hh⟩
  exact .pure ⟨announces_idle, hh⟩

end CafePos
