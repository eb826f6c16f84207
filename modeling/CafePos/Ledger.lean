import CafePos.Evolution
import CafePos.System

/-!
# What a call may commit

Every change of the database is a redo log that became visible in one step. `Commits`
lists the logs the doors can commit, each with what is known of the committed state at
that moment; it is the only thing later modules know about the doors' writes. `Move`
says the same of a single operation: it is quiet, it moves the gateway, it announces
what was committed, or it commits.
-/

namespace CafePos

open Interleaving

/-! ## Parts of a redo log -/

/-- The log of a transaction under an idempotency key: the key is reserved first and
completed last. -/
def underKey (reservation : Option (String × String)) (expiry : Instant) (body : ResponseBody)
    (ws : List Write) : List Write :=
  match reservation with
  | none => ws
  | some (k, h) => .key k ⟨h, none, none, expiry⟩ ::
      (ws ++ [.key k ⟨h, some 201, some body, expiry⟩])

/-- Nobody has answered under the key. -/
def KeyFree (db : Db) (reservation : Option (String × String)) : Prop :=
  ∀ r, reservation = some r → db.idempotencyKeys.get r.1 = none

/-- The log of `transitionOrder`. -/
def moveWrites (r : TransitionRequest) (row : Order) : List Write :=
  [.order r.orderId (Statement.moved row r.source r.target), .history r.history]

/-- The log of an update of a payment's status. -/
def settleWrites (id : Id) (p : Payment) (status : PaymentStatus) (method : Option PaymentMethod)
    (guarded : Bool) : List Write :=
  if guarded && p.status == .succeeded then []
  else [.payment id { p with status, method := method.or p.method }]

/-- The log of `settleLive`. -/
def liveWrites (live : Option (Id × Payment)) (guarded : Bool) : List Write :=
  match live with
  | none => []
  | some q => settleWrites q.1 q.2 .cancelled none guarded

/-- The log of `markProcessed`. -/
def stampWrites (id : Id) (e : PaymentEvent) (paymentId : Option Id) (now : Instant) :
    List Write :=
  if e.processedAt.isNone then
    [.event id { e with processedAt := some now, paymentId := paymentId.or e.paymentId }]
  else []

/-- The order row `checkout` leaves behind. -/
def queued (row : Order) (orderNumber : String) (expiresAt : Instant) : Order :=
  { Statement.moved row .draft .pendingPayment with
    orderNumber := some orderNumber, expiresAt := some expiresAt }

/-- The number a creation claims: none for a draft. -/
def claimed (input : CreateOrderInput) (n : ℕ) : Option String :=
  if input.draft then none else some (formatOrderNumber n)

/-- The log of `persist`. -/
def createWrites (principal : Principal) (input : CreateOrderInput) (priced : PricedOrder)
    (id : Id) (row : Order) (n : ℕ) : List Write :=
  (if input.draft then [] else [.counter row.businessDay n]) ++ .order id row ::
    ((itemRows id priced).map .orderItem ++ [.history (createdRow id row.status principal)])

/-! What holds of every write of a part of a log. -/

section forall_writes

variable {φ : Write → Prop} {ws : List Write}

theorem forall_underKey (hkey : ∀ k row, φ (.key k row)) (h : ∀ w ∈ ws, φ w)
    (reservation : Option (String × String)) (expiry : Instant) (body : ResponseBody) :
    ∀ w ∈ underKey reservation expiry body ws, φ w := by
  intro w hw
  match reservation with
  | none => exact h w hw
  | some (k, hash) =>
    simp only [underKey, List.mem_cons, List.mem_append, List.not_mem_nil, or_false] at hw
    rcases hw with rfl | hw | rfl
    · exact hkey _ _
    · exact h w hw
    · exact hkey _ _

theorem forall_moveWrites {r : TransitionRequest} {row : Order}
    (horder : φ (.order r.orderId (Statement.moved row r.source r.target)))
    (hhistory : φ (.history r.history)) : ∀ w ∈ moveWrites r row, φ w := by
  intro w hw
  simp only [moveWrites, List.mem_cons, List.not_mem_nil, or_false] at hw
  rcases hw with rfl | rfl
  · exact horder
  · exact hhistory

theorem forall_settleWrites {id : Id} {p : Payment} {status : PaymentStatus}
    {method : Option PaymentMethod} {guarded : Bool}
    (h : φ (.payment id { p with status, method := method.or p.method })) :
    ∀ w ∈ settleWrites id p status method guarded, φ w := by
  intro w hw
  rw [settleWrites] at hw
  split at hw
  · cases hw
  · rw [List.mem_singleton.mp hw]
    exact h

theorem forall_liveWrites {live : Option (Id × Payment)} {guarded : Bool}
    (h : ∀ q, live = some q → φ (.payment q.1 { q.2 with status := .cancelled })) :
    ∀ w ∈ liveWrites live guarded, φ w := by
  cases live with
  | none => exact fun w hw => absurd hw List.not_mem_nil
  | some q => exact forall_settleWrites (h q rfl)

theorem forall_stampWrites {id : Id} {e : PaymentEvent} {paymentId : Option Id} {now : Instant}
    (h : ∀ e', φ (.event id e')) : ∀ w ∈ stampWrites id e paymentId now, φ w := by
  intro w hw
  rw [stampWrites] at hw
  split at hw
  · rw [List.mem_singleton.mp hw]
    exact h _
  · cases hw

theorem forall_createWrites {principal : Principal} {input : CreateOrderInput}
    {priced : PricedOrder} {id : Id} {row : Order} {n : ℕ}
    (hcounter : φ (.counter row.businessDay n)) (horder : φ (.order id row))
    (hitem : ∀ item, φ (.orderItem item))
    (hhistory : φ (.history (createdRow id row.status principal))) :
    ∀ w ∈ createWrites principal input priced id row n, φ w := by
  intro w hw
  rw [createWrites] at hw
  simp only [List.mem_append, List.mem_cons, List.mem_map, List.not_mem_nil, or_false] at hw
  rcases hw with hw | rfl | ⟨item, -, rfl⟩ | rfl
  · split at hw
    · cases hw
    · rw [List.mem_singleton.mp hw]
      exact hcounter
  · exact horder
  · exact hitem item
  · exact hhistory

end forall_writes

/-! ## Events and payments -/

/-- The row passes the checks of the `payments` table. -/
def Payment.storable (p : Payment) : Bool :=
  int4 p.amountMinor && p.cashTenderedMinor.all int4 && decide (0 < p.amountMinor)

/-- The payment is the one an event's intent names. -/
def Payment.named (p : Payment) (intentId : Option Json) : Bool :=
  p.providerIntentId.any fun i => Json.isString i intentId

/-- The event reports that money was captured for the payment, all of it. -/
def captures (e : PaymentEvent) (p : Payment) : Bool :=
  match toOutcome e.payload with
  | some (.succeeded intentId amountMinor currency) =>
    p.named intentId && Json.isNumber p.amountMinor amountMinor && p.currency == currency
  | _ => false

/-- The event reports a success, whatever it is about. -/
def reportsSuccess (e : PaymentEvent) : Bool :=
  match toOutcome e.payload with
  | some (.succeeded ..) => true
  | _ => false

/-- The intent is cancelled at the gateway. -/
def Gateway.Cancelled (g : Gateway) (i : String) : Prop :=
  ∃ it, g.intents.get i = some it ∧ it.status = .canceled

/-- The intent was opened at the gateway for this payment. -/
def Gateway.OpenedFor (g : Gateway) (i : String) (p : Payment) : Prop :=
  ∃ it, g.intents.get i = some it ∧ it.orderId = p.orderId ∧ it.amount = p.amountMinor ∧
    it.currency = toLowerCase p.currency ∧ it.idempotencyKey = p.idempotencyKey

/-- A success was skipped because its order was found `PAID` by a permitted read. -/
def FoundPaid (P : PosPermit) (c : Call) (eventId : Id) (e : PaymentEvent) (s : Shared) : Prop :=
  ∃ s₀ l₀ e₀ id p row, Grows s₀ s ∧ P.step c (.query .pool (.order p.orderId)) l₀ s₀ ∧
    s₀.db.paymentEvents.get eventId = some e₀ ∧ e₀.payload = e.payload ∧
    s₀.db.payments.get id = some p ∧ captures e p ∧
    s₀.db.orders.get p.orderId = some row ∧ row.status = .paid

/-! ## The logs -/

/-- The two doors that end an unpaid order: what they ask for, and whether their update
of the payment is guarded. -/
inductive Closes : Call → TransitionRequest → Bool → Prop
  | cancel {principal : Principal} {orderId : Id} {reason : Option String}
      {source : OrderStatus} : source ∈ cancellable →
      Closes (.cancel principal orderId reason)
        ⟨orderId, source, .cancelled, actorOf principal, reason⟩ true
  | expire {orderId : Id} : Closes (.expireOne orderId)
      ⟨orderId, .pendingPayment, .expired, systemActor, none⟩ false

/-- The redo logs a call can commit in a state. -/
inductive Commits (cfg : Config) (P : PosPermit) : Call → Shared → List Write → Prop
  /-- `OrdersService.create` -/
  | create {s : Shared} {principal : Principal} {input : CreateOrderInput} {key : Option String}
      {channel : OrderChannel} {catalog : List CatalogItem} {priced : PricedOrder}
      {now expiry : Instant} {id : Id} {n : ℕ} {row : Order} :
      KeyFree s.db (key.map (·, orderHash cfg principal input)) →
      priceOrder input.items catalog cfg.vatBasisPoints = .ok priced →
      (input.draft = false → n = s.db.lastValue row.businessDay + 1) →
      row = orderRow cfg principal channel input priced now (claimed input n) →
      s.db.orders.get id = none →
      Commits cfg P (.createOrder principal input key) s
        (underKey (key.map (·, orderHash cfg principal input)) expiry
          (.order (toView id row priced)) (createWrites principal input priced id row n))
  /-- `CheckoutOrderService.checkout` -/
  | checkout {s : Shared} {principal : Principal} {orderId : Id} {row : Order} {n : ℕ}
      {expiresAt : Instant} :
      s.db.orders.get orderId = some row → row.status = .draft →
      n = s.db.lastValue row.businessDay + 1 →
      Commits cfg P (.checkout principal orderId) s
        (moveWrites ⟨orderId, .draft, .pendingPayment, actorOf principal, none⟩ row ++
          [.counter row.businessDay n,
            .order orderId (queued row (formatOrderNumber n) expiresAt)])
  /-- `CreatePaymentService.create`, in cash -/
  | cash {s : Shared} {userId orderId id : Id} {tendered : ℤ} {input : CreatePaymentInput}
      {key : Option String} {row : Order} {expiry : Instant} {p : Payment} :
      input.method = .cash → input.cashTenderedMinor = some tendered →
      row.totalMinor ≤ tendered →
      KeyFree s.db (key.map (·, paymentHash cfg (.staff userId) orderId input)) →
      s.db.orders.get orderId = some row → row.status = .pendingPayment →
      p = cashRow ⟨orderId, row.totalMinor, row.currency⟩ tendered key →
      s.db.payments.get id = none → Statement.paymentConflicts s.db p = false →
      p.storable →
      Commits cfg P (.createPayment (.staff userId) orderId input key) s
        (underKey (key.map (·, paymentHash cfg (.staff userId) orderId input)) expiry
          (.payment (paymentView id p none))
          (.payment id p ::
            moveWrites ⟨orderId, .pendingPayment, .paid, ⟨.user, some userId⟩, none⟩ row))
  /-- `CreatePaymentService.create`, through the gateway -/
  | openPayment {s : Shared} {principal : Principal} {orderId id : Id} {i : String}
      {input : CreatePaymentInput} {key : Option String} {row : Order} {expiry : Instant}
      {p : Payment} :
      input.method ≠ .cash →
      KeyFree s.db (key.map (·, paymentHash cfg principal orderId input)) →
      s.db.orders.get orderId = some row → foreign principal row = false →
      p = gatewayRow ⟨orderId, row.totalMinor, row.currency⟩ i key →
      s.gateway.OpenedFor i p →
      s.db.payments.get id = none → Statement.paymentConflicts s.db p = false →
      p.storable →
      Commits cfg P (.createPayment principal orderId input key) s
        (underKey (key.map (·, paymentHash cfg principal orderId input)) expiry
          (.payment (paymentView id p none)) [.payment id p])
  /-- `WebhookInboxService.record` -/
  | record {s : Shared} {event : GatewayEvent} {id : Id} :
      s.db.paymentEvents.get id = none →
      (∀ id' e, s.db.paymentEvents.get id' = some e → e.providerEventId ≠ event.eventId) →
      Commits cfg P (.record event) s
        [.event id ⟨event.eventId, event.type, none, event.payload, none⟩]
  /-- `processEvent`, skipping: the stamp alone -/
  | skip {s : Shared} {eventId : Id} {e : PaymentEvent} {paymentId : Option Id} {now : Instant} :
      s.db.paymentEvents.get eventId = some e → e.processedAt = none →
      (reportsSuccess e → FoundPaid P (.processEvent eventId) eventId e s) →
      Commits cfg P (.processEvent eventId) s (stampWrites eventId e paymentId now)
  /-- `processEvent`, marking a payment failed or cancelled -/
  | markPayment {s : Shared} {eventId id : Id} {e : PaymentEvent} {p : Payment}
      {status : PaymentStatus} {now : Instant} :
      s.db.paymentEvents.get eventId = some e → ¬ reportsSuccess e →
      s.db.payments.get id = some p → status = .failed ∨ status = .cancelled →
      Commits cfg P (.processEvent eventId) s
        (settleWrites id p status none true ++ stampWrites eventId e (some id) now)
  /-- `processEvent`, marking an order paid -/
  | markPaid {s : Shared} {eventId id : Id} {e : PaymentEvent} {p : Payment} {row : Order}
      {method : Option PaymentMethod} {now : Instant} :
      s.db.paymentEvents.get eventId = some e → s.db.payments.get id = some p →
      captures e p → s.db.orders.get p.orderId = some row → row.status = .pendingPayment →
      Commits cfg P (.processEvent eventId) s
        (moveWrites ⟨p.orderId, .pendingPayment, .paid, systemActor, none⟩ row ++
          (settleWrites id p .succeeded method false ++ stampWrites eventId e (some id) now))
  /-- `CancelOrderService.cancel` and `OrderExpiryService.expireOne` -/
  | close {s : Shared} {c : Call} {r : TransitionRequest} {guarded : Bool} {row : Order}
      {live : Option (Id × Payment)} : Closes c r guarded →
      s.db.orders.get r.orderId = some row → row.status = r.source →
      (∀ q, live = some q → s.db.payments.get q.1 = some q.2 ∧ q.2.orderId = r.orderId ∧
        ∀ i, q.2.providerIntentId = some i → s.gateway.Cancelled i) →
      Commits cfg P c s (moveWrites r row ++ liveWrites live guarded)
  /-- `OrderStatusService.transition` -/
  | staff {s : Shared} {principal : Principal} {orderId : Id} {target : OrderStatus}
      {row : Order} :
      s.db.orders.get orderId = some row → isStaffTransition row.status target →
      Commits cfg P (.transition principal orderId target) s
        (moveWrites ⟨orderId, row.status, target, actorOf principal, none⟩ row)
  /-- `CreateRefundService.refund`, a part of what is left -/
  | refundPart {s : Shared} {userId id refundId : Id} {p : Payment} {input : CreateRefundInput} :
      s.db.payments.get id = some p → p.status = .succeeded → 0 < input.amountMinor →
      s.db.refunded id + input.amountMinor < p.amountMinor →
      Commits cfg P (.refund userId id input) s
        [.refund ⟨refundId, id, input.amountMinor, input.reason, .succeeded, userId⟩]
  /-- `CreateRefundService.refund`, all that is left -/
  | refundAll {s : Shared} {userId id refundId : Id} {p : Payment} {row : Order}
      {input : CreateRefundInput} :
      s.db.payments.get id = some p → p.status = .succeeded → 0 < input.amountMinor →
      s.db.refunded id + input.amountMinor = p.amountMinor →
      s.db.orders.get p.orderId = some row →
      Commits cfg P (.refund userId id input) s
        (.refund ⟨refundId, id, input.amountMinor, input.reason, .succeeded, userId⟩ ::
          moveWrites ⟨p.orderId, row.status, .refunded, ⟨.user, some userId⟩,
            some input.reason⟩ row)

/-! ## Single operations -/

/-- A request of ours moved the gateway. -/
def Gateway.Moves (g g' : Gateway) : Prop :=
  (∃ inp request r, stripeCreate inp request g = some (r, g')) ∨
    ∃ inp i, g' = (stripeCancel inp i g).2

theorem Gateway.Moves.grows {g g' : Gateway} (h : g.Moves g') : g.Grows g' := by
  rcases h with ⟨inp, request, r, h⟩ | ⟨inp, i, rfl⟩
  · exact .stripeCreate h
  · exact .stripeCancel inp i g

/-- The write is the history row of order `id` moving from `PENDING_PAYMENT` to `PAID`. -/
def Write.isPaidRow (id : Id) : Write → Bool
  | .history h => h.orderId == id && h.fromStatus == some .pendingPayment && h.toStatus == .paid
  | _ => false

/-- The write marks gateway payment `id` as `SUCCEEDED`. -/
def Write.isCapture (id : Id) : Write → Bool
  | .payment id' p => id' == id && p.status == .succeeded && p.providerIntentId.isSome
  | _ => false

/-- The announcement `order.paid` of order `id`. -/
def DomainEvent.isOrderPaid (id : Id) : DomainEvent → Bool
  | .orderPaid orderId _ => orderId == id
  | _ => false

/-- The announcement `payment.succeeded` of payment `id`. -/
def DomainEvent.isPaymentSucceeded (id : Id) : DomainEvent → Bool
  | .paymentSucceeded _ _ paymentId => paymentId == id
  | _ => false

/-- The announcements are those the committed logs call for: one `order.paid` for every
order paid, one `payment.succeeded` for every gateway payment captured. -/
structure Announces (published : List DomainEvent) (committed : List (List Write)) : Prop where
  orderPaid : ∀ id, published.countP (DomainEvent.isOrderPaid id) =
    committed.flatten.countP (Write.isPaidRow id)
  paymentSucceeded : ∀ id, published.countP (DomainEvent.isPaymentSucceeded id) =
    committed.flatten.countP (Write.isCapture id)

/-- What one operation of a call does to its session and to the shared state. -/
inductive Move (cfg : Config) (P : PosPermit) (c : Call) :
    Op → Sess → Shared → Sess → Shared → Prop
  /-- nothing anybody else could see -/
  | quiet {o : Op} {l l' : Sess} {s : Shared} : l'.committed = l.committed →
      l'.published = l.published → Move cfg P c o l s l' s
  /-- the committed log is announced -/
  | publish {events : List DomainEvent} {l : Sess} {s : Shared} :
      Announces (l.published ++ events) l.committed →
      Move cfg P c (.publish events) l s (l.publish events) s
  /-- the gateway moves -/
  | gateway {o : Op} {l : Sess} {s : Shared} {g : Gateway} : s.gateway.Moves g →
      Move cfg P c o l s l ⟨s.db, g⟩
  /-- a transaction commits -/
  | commit {l : Sess} {s : Shared} : Commits cfg P c s l.log →
      Move cfg P c .commit l s (l.release l.log) ⟨store.applyAll l.log s.db, s.gateway⟩
  /-- a statement outside a transaction commits by itself; only the inbox has those -/
  | inbox {st : Statement} {l : Sess} {s : Shared} {id : Id} {e : PaymentEvent} :
      Commits cfg P c s [.event id e] →
      Move cfg P c (.statement st) l s (l.release [.event id e])
        ⟨store.applyAll [.event id e] s.db, s.gateway⟩

/-- A property of the shared state that no commit and no move of the gateway breaks is
broken by no operation. -/
theorem Move.preserves {cfg : Config} {P : PosPermit} {c : Call} {o : Op} {l l' : Sess}
    {s s' : Shared} {J : Shared → Prop} (h : Move cfg P c o l s l' s') (hJ : J s)
    (gateway : ∀ g, s.gateway.Moves g → J ⟨s.db, g⟩)
    (commit : ∀ ws, Commits cfg P c s ws → (o = .commit → ws = l.log) →
      (o ≠ .commit → ∃ id e, ws = [.event id e]) → J ⟨store.applyAll ws s.db, s.gateway⟩) :
    J s' := by
  cases h with
  | quiet _ _ => exact hJ
  | publish _ => exact hJ
  | gateway hg => exact gateway _ hg
  | commit hc => exact commit _ hc (fun _ => rfl) (fun h => absurd rfl h)
  | inbox hc => exact commit _ hc (fun h => by cases h) (fun _ => ⟨_, _, rfl⟩)

end CafePos
