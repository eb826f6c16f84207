import CafePos.Payments

/-!
# The webhook inbox

`WebhookInboxService.record`, the pure `decidePaymentOutcome`, and
`PaymentEventProcessor.processEvent`, which reads the event, its payment and its
order one after the other and applies the decision later (`payments/webhooks`).
-/

namespace CafePos

open Door

/-! ## The decision -/

/-- `PaymentRecord`: our own side of the payment. -/
structure PaymentRecord where
  id : Id
  orderId : Id
  amountMinor : ℤ
  currency : String
  status : PaymentStatus
  deriving DecidableEq

/-- `OrderRecord`. -/
structure OrderRecord where
  id : Id
  status : OrderStatus
  deriving DecidableEq

/-- Why an event changes nothing; the texts are only ever logged. -/
inductive Why where
  /-- "Event type is not one this system acts on." -/
  | notActedOn
  /-- "No payment row for intent ..." -/
  | noPaymentRow (intentId : Option Json)
  /-- "Payment is already ..." -/
  | alreadyThere (status : PaymentStatus)
  /-- "Gateway reports ... for a payment already ..." -/
  | alreadySettled (reported status : PaymentStatus)
  /-- "Gateway captured ... but the payment is for ..." -/
  | amountDiffers (captured : Option Json) (expected : ℤ)
  /-- "Gateway captured ... but the payment is in ..." -/
  | currencyDiffers (captured expected : String)
  /-- "Payment ... names order ..., which does not exist." -/
  | orderMissing (paymentId orderId : Id)
  /-- "Order is already PAID." -/
  | alreadyPaid
  /-- "Gateway reports payment for order ..., which is ..." -/
  | notPending (orderId : Id) (status : OrderStatus)

/-- `PaymentDecision`: a skipped event is stamped processed, a refused one is not. -/
inductive PaymentDecision where
  | markPaid (paymentId orderId : Id)
  | markPayment (paymentId : Id) (status : PaymentStatus)
  | skip (why : Why)
  | refuse (why : Why)

/-- `decideSuccess`. -/
def decideSuccess (amountMinor : Option Json) (currency : String) (payment : PaymentRecord)
    (order : Option OrderRecord) : PaymentDecision :=
  if !Json.isNumber payment.amountMinor amountMinor then
    .refuse (.amountDiffers amountMinor payment.amountMinor)
  else if payment.currency ≠ currency then
    .refuse (.currencyDiffers currency payment.currency)
  else
    match order with
    | none => .refuse (.orderMissing payment.id payment.orderId)
    | some order =>
      if order.status = .paid then .skip .alreadyPaid
      else if order.status ≠ .pendingPayment then .refuse (.notPending order.id order.status)
      else .markPaid payment.id order.id

/-- What a failure or a cancellation means for the payment. -/
def decideClosed (status : PaymentStatus) (payment : PaymentRecord) : PaymentDecision :=
  if payment.status = status then .skip (.alreadyThere status)
  else if payment.status = .succeeded then .refuse (.alreadySettled status payment.status)
  else .markPayment payment.id status

/-- `decidePaymentOutcome`. -/
def decidePaymentOutcome (outcome : GatewayOutcome) (payment : Option PaymentRecord)
    (order : Option OrderRecord) : PaymentDecision :=
  match outcome, payment with
  | .ignored, _ => .skip .notActedOn
  | .succeeded intentId _ _, none => .refuse (.noPaymentRow intentId)
  | .failed intentId _, none => .refuse (.noPaymentRow intentId)
  | .cancelled intentId, none => .refuse (.noPaymentRow intentId)
  | .succeeded _ amountMinor currency, some payment =>
    decideSuccess amountMinor currency payment order
  | .failed _ _, some payment => decideClosed .failed payment
  | .cancelled _, some payment => decideClosed .cancelled payment

/-! ## The inbox -/

/-- `WebhookInboxService.record`: a redelivery is turned away by the unique index. -/
def record (event : GatewayEvent) : Door (Option Id) :=
  statement (.insertEvent event.eventId event.type event.payload)

/-! ## Processing an event -/

/-- The payment an event names, as `load` selects it. -/
def toRecord (p : Id × Payment) : PaymentRecord :=
  ⟨p.1, p.2.orderId, p.2.amountMinor, p.2.currency, p.2.status⟩

/-- The intent an outcome is about. -/
def GatewayOutcome.intent : GatewayOutcome → Option (Option Json)
  | .succeeded intentId _ _ => some intentId
  | .failed intentId _ => some intentId
  | .cancelled intentId => some intentId
  | .ignored => none

/-- `load`: the payment an event names, then its order. -/
def load (outcome : GatewayOutcome) : Door (Option PaymentRecord × Option OrderRecord) := do
  match outcome.intent with
  | none => pure (none, none)
  | some intentId =>
    match ← (select (.paymentByIntent intentId) : Door (Option (Id × Payment))) with
    | none => pure (none, none)
    | some payment => do
      let order : Option Order ← select (.order payment.2.orderId)
      pure (some (toRecord payment), order.map fun o => ⟨payment.2.orderId, o.status⟩)

/-- `markProcessed`: a replay, or another instance arriving later, updates nothing. -/
def markProcessed (eventId : Id) (paymentId : Option Id) : Door Bool :=
  statement (.stampEvent eventId paymentId)

/-- `resolveMethod` of the processor: the rail behind a payment's intent. -/
def methodOf (paymentId : Id) : Door (Option PaymentMethod) := do
  match ← (select (.payment paymentId) : Door (Option Payment)) with
  | none => pure none
  | some row =>
    match row.providerIntentId with
    | none => pure none
    | some intentId => resolveMethod intentId

/-- `markPaid`: the order's guarded move, then the unguarded update of the payment, then
the stamp. -/
def markPaid (eventId paymentId orderId : Id) : Door Bool := do
  let method ← methodOf paymentId
  afterCommit do
    let updated ← transitionOrder
      { orderId, source := .pendingPayment, target := .paid, actor := systemActor }
    let _ ← statement (.updatePayment paymentId .succeeded method false)
    let _ ← markProcessed eventId (some paymentId)
    pure ((), [.orderPaid orderId updated.kioskDeviceId,
      .paymentSucceeded orderId updated.kioskDeviceId paymentId])
  pure true

/-- The `payment.failed` announcement: only for a write that landed. -/
def announceFailure (settled : Option Id) (status : PaymentStatus) (paymentId : Id) :
    Door (List DomainEvent) :=
  match settled with
  | none => pure []
  | some orderId =>
    if status = .failed then do
      match ← (selectTx (.order orderId) : Door (Option Order)) with
      | none => pure []
      | some order => pure [.paymentFailed orderId order.kioskDeviceId paymentId]
    else pure []

/-- The `MARK_PAYMENT` branch: the payment's update is guarded on its status. -/
def markPayment (eventId paymentId : Id) (status : PaymentStatus) : Door Bool := do
  afterCommit do
    let settled : Option Id ← statement (.updatePayment paymentId status none true)
    let _ ← markProcessed eventId (some paymentId)
    let events ← announceFailure settled status paymentId
    pure ((), events)
  pure true

/-- Carry out a decision. A refused event keeps `processed_at` null. -/
def carryOut (eventId : Id) (payment : Option PaymentRecord) : PaymentDecision → Door Bool
  | .refuse _ => pure false
  | .skip _ => do
    let _ ← markProcessed eventId (payment.map PaymentRecord.id)
    pure false
  | .markPayment paymentId status => markPayment eventId paymentId status
  | .markPaid paymentId orderId => markPaid eventId paymentId orderId

/-- `apply`. -/
def applyEvent (eventId : Id) : Door Bool := do
  match ← (select (.unprocessedEvent eventId) : Door (Option PaymentEvent)) with
  | none => pure false
  | some event =>
    match toOutcome event.payload with
    | none => throw .typeError
    | some outcome => do
      let (payment, order) ← load outcome
      carryOut eventId payment (decidePaymentOutcome outcome payment order)

/-- `processEvent`: never throws; what it could not do is left for the sweep. -/
def processEvent (eventId : Id) : Door Bool :=
  tryCatch (applyEvent eventId) fun _ => pure false

end CafePos
