import CafePos.Idempotency

/-!
# Payment doors

The Stripe adapter (`payments/provider/stripe-payment.provider.ts`),
`CreatePaymentService.create` for cash and for the gateway, and
`CreateRefundService.refund` (`payments/create`, `payments/refunds`).
-/

namespace CafePos

open Door

/-! ## The Stripe adapter -/

/-- The wrapper `gateway`: an outage becomes a `DependencyUnavailableError`, a refusal
is left alone. -/
def gatewayError : StripeError → Err
  | .unreachable => .dependencyUnavailable
      "The payment gateway could not be reached. Try again shortly, or pay at the counter."
  | .invalidRequest => .stripe

/-- `createIntent`. -/
def createIntent (request : CreateIntentRequest) : Door (String × ClientSecret) := do
  match ← (perform (.stripeCreate request) :
      Door (Except StripeError (String × ClientSecret))) with
  | .ok created => pure created
  | .error e => throw (gatewayError e)

/-- `CancelIntentOutcome`. -/
inductive CancelIntentOutcome where
  | cancelled | alreadySucceeded
  deriving DecidableEq

/-- `cancelIntent`: a refused cancel is explained by reading the intent again. -/
def cancelIntent (intentId : String) : Door CancelIntentOutcome := do
  match ← (perform (.stripeCancel intentId) : Door (Except StripeError Unit)) with
  | .ok _ => pure .cancelled
  | .error .unreachable => throw .stripe
  | .error .invalidRequest =>
    match ← (perform (.stripeRetrieve intentId) : Door (Except StripeError RetrievedIntent)) with
    | .error _ => throw .stripe
    | .ok intent =>
      match intent.status with
      | .succeeded => pure .alreadySucceeded
      | .canceled => pure .cancelled
      | .confirmable => throw .stripe

/-- `clientSecretFor`. -/
def clientSecretFor (intentId : String) : Door ClientSecret := do
  match ← (perform (.stripeRetrieve intentId) : Door (Except StripeError RetrievedIntent)) with
  | .ok intent => pure intent.clientSecret
  | .error e => throw (gatewayError e)

/-- `METHOD_BY_STRIPE_TYPE`. -/
def methodByStripeType : String → Option PaymentMethod
  | "card" => some .card
  | "promptpay" => some .promptpay
  | _ => none

/-- `resolveMethod`: which rail was used, best effort. It never throws. -/
def resolveMethod (intentId : String) : Door (Option PaymentMethod) := do
  match ← (perform (.stripeRetrieve intentId) : Door (Except StripeError RetrievedIntent)) with
  | .ok intent => pure (intent.chargeType.bind methodByStripeType)
  | .error _ => pure none

/-! ## Creating a payment -/

/-- What `CreatePaymentService.create` answers; a replayed body is what was stored. -/
structure PaymentCreated where
  payment : ResponseBody
  replayed : Bool
  deriving DecidableEq

/-- What `loadPayableOrder` returns. -/
structure PayableOrder where
  id : Id
  totalMinor : ℤ
  currency : String

/-- A kiosk may only pay for its own orders. -/
def foreign (principal : Principal) (order : Order) : Bool :=
  match principal with
  | .device deviceId => order.kioskDeviceId != some deviceId
  | .staff _ => false

/-- `loadPayableOrder`: two reads outside any transaction. -/
def loadPayableOrder (principal : Principal) (orderId : Id) : Door PayableOrder := do
  match ← (select (.order orderId) : Door (Option Order)) with
  | none => throw (.resourceNotFound "order" orderId)
  | some order =>
    if foreign principal order then throw (.resourceNotFound "order" orderId)
    else if order.status = .expired then throw .orderExpired
    else if order.status ≠ .pendingPayment then throw (.orderNotPayable order.status)
    else
      match ← (select (.livePayments orderId) : Door (List (Id × Payment))) with
      | (live, _) :: _ => throw (.paymentAlreadyActive live)
      | [] => pure ⟨orderId, order.totalMinor, order.currency⟩

/-- `insertPayment`: a unique violation becomes a 409 that names the winner, re-read
through the pool. -/
def insertPayment (orderId : Id) (values : Payment) : Door Id :=
  tryCatch (raising (statement (.insertPayment values))) fun error =>
    if isUniqueViolation error then do
      let live : List (Id × Payment) ← select (.livePayments orderId)
      throw (.paymentAlreadyActive ((live.head?.map Prod.fst).getD orderId))
    else throw error

/-- `rehydrate`: put back the client secret the stored copy dropped, for a gateway
payment whose stored status is still `PENDING`. -/
def rehydrate : ResponseBody → Door ResponseBody
  | .order view => pure (.order view)
  | .payment view =>
    if view.provider ≠ .stripe ∨ view.status ≠ .pending then pure (.payment view)
    else do
      match ← (select (.payment view.id) : Door (Option Payment)) with
      | none => pure (.payment view)
      | some row =>
        match row.providerIntentId with
        | none => pure (.payment view)
        | some intentId => do
          let secret ← clientSecretFor intentId
          pure (.payment { view with clientAction := some secret })

/-- `write`: run the work under the key, or replay what the key already answered. -/
def write (reservation : Option (String × String))
    (work : Door (PaymentView × List DomainEvent)) : Door PaymentCreated :=
  match reservation with
  | none => do
    let view ← afterCommit work
    pure ⟨.payment view, false⟩
  | some (key, requestHash) =>
    tryCatch
      (do
        let view ← afterCommit do
          reserveKey key requestHash (← keyExpiry)
          let (view, events) ← work
          -- redacted before it is stored
          completeKey key 201 (.payment { view with clientAction := none })
          pure (view, events)
        pure ⟨.payment view, false⟩)
      fun error =>
        if isKeyAlreadyReserved error then do
          let body ← rehydrate (← replayKey key requestHash)
          pure ⟨body, true⟩
        else throw error

/-- The row of a cash payment: born `SUCCEEDED`. -/
def cashRow (order : PayableOrder) (tendered : ℤ) (idempotencyKey : Option String) : Payment :=
  { orderId := order.id
    provider := .cash
    providerIntentId := none
    method := some .cash
    status := .succeeded
    amountMinor := order.totalMinor
    currency := order.currency
    idempotencyKey
    cashTenderedMinor := some tendered }

/-- The row of a gateway payment: its method is unknown until the customer picks one. -/
def gatewayRow (order : PayableOrder) (intentId : String) (idempotencyKey : Option String) :
    Payment :=
  { orderId := order.id
    provider := .stripe
    providerIntentId := some intentId
    method := none
    status := .pending
    amountMinor := order.totalMinor
    currency := order.currency
    idempotencyKey
    cashTenderedMinor := none }

/-- The view of a payment that was just inserted. -/
def paymentView (id : Id) (row : Payment) (clientAction : Option ClientSecret) : PaymentView :=
  ⟨id, row.status, row.method, row.amountMinor, row.currency, row.provider, clientAction⟩

/-- `takeCash`: the payment and the order's move to `PAID`, in one transaction. -/
def takeCash (principal : Principal) (order : PayableOrder) (input : CreatePaymentInput)
    (reservation : Option (String × String)) : Door PaymentCreated :=
  match principal with
  | .device _ => throw .cashPaymentNotAllowed
  | .staff userId =>
    match input.cashTenderedMinor with
    | none => throw (.cashTenderInsufficient 0 order.totalMinor)
    | some tendered =>
      if tendered < order.totalMinor then
        throw (.cashTenderInsufficient tendered order.totalMinor)
      else
        write reservation do
          let row := cashRow order tendered (reservation.map Prod.fst)
          let paymentId ← insertPayment order.id row
          let updated ← transitionOrder
            { orderId := order.id, source := .pendingPayment, target := .paid
              actor := ⟨.user, some userId⟩ }
          pure (paymentView paymentId row none, [.orderPaid order.id updated.kioskDeviceId])

/-- `openGatewayPayment`: the intent first, then the row. -/
def openGatewayPayment (order : PayableOrder) (reservation : Option (String × String)) :
    Door PaymentCreated := do
  let (intentId, clientSecret) ← createIntent
    ⟨order.totalMinor, order.currency, reservation.map Prod.fst, order.id⟩
  write reservation do
    let row := gatewayRow order intentId (reservation.map Prod.fst)
    let paymentId ← insertPayment order.id row
    pure (paymentView paymentId row (some clientSecret), [])

/-- The fingerprint of a payment request. -/
def paymentHash (cfg : Config) (principal : Principal) (orderId : Id)
    (input : CreatePaymentInput) : String :=
  cfg.hashRequest (scopeOf principal ++ ":payments:" ++ toString orderId) (.payment input)

/-- What follows the replay check of `CreatePaymentService.create`. -/
def pay (principal : Principal) (orderId : Id) (input : CreatePaymentInput)
    (reservation : Option (String × String)) : Door PaymentCreated := do
  let order ← loadPayableOrder principal orderId
  if input.method = .cash then takeCash principal order input reservation
  else openGatewayPayment order reservation

/-- `CreatePaymentService.create`: a key that has answered is replayed before anything
is validated. -/
def createPayment (cfg : Config) (principal : Principal) (orderId : Id)
    (input : CreatePaymentInput) (idempotencyKey : Option String) : Door PaymentCreated :=
  match idempotencyKey with
  | none => pay principal orderId input none
  | some key => do
    let requestHash := paymentHash cfg principal orderId input
    match ← completedResponseFor key with
    | some (storedHash, body) =>
      if storedHash ≠ requestHash then throw .idempotencyConflict
      else do
        let payment ← rehydrate body
        pure ⟨payment, true⟩
    | none => pay principal orderId input (some (key, requestHash))

/-! ## Refunds -/

/-- `CreateRefundInput`. -/
structure CreateRefundInput where
  amountMinor : ℤ
  reason : String
  deriving DecidableEq

/-- `RefundView`. -/
structure RefundView where
  id : Id
  paymentId : Id
  amountMinor : ℤ
  reason : String
  status : RefundStatus
  fullyRefunded : Bool
  deriving DecidableEq

/-- `CreateRefundService.refund`: payment and order are read before the transaction, the
sum of earlier refunds behind the lock on the payment. -/
def refund (cfg : Config) (userId : Id) (paymentId : Id) (input : CreateRefundInput) :
    Door RefundView := do
  match ← (select (.payment paymentId) : Door (Option Payment)) with
  | none => throw (.resourceNotFound "payment" paymentId)
  | some payment =>
    if payment.status ≠ .succeeded then
      throw (.paymentNotRefundable ("Payment is " ++ payment.status.text ++
        "; only a SUCCEEDED payment can be refunded."))
    else
      match ← (select (.order payment.orderId) : Door (Option Order)) with
      | none => throw (.resourceNotFound "order" payment.orderId)
      | some order => do
        let now : Instant ← perform .now
        if order.businessDay ≠ cfg.businessDayOf now then
          throw (.paymentNotRefundable ("Order belongs to business day " ++ order.businessDay ++
            "; refunds are same-day only."))
        else
          afterCommit do
            statement (.lockPayment paymentId)
            let already : ℤ ← selectTx (.refunded paymentId)
            let remaining := payment.amountMinor - already
            if input.amountMinor > remaining then
              throw (.refundExceedsRemaining input.amountMinor remaining)
            else do
              let id : Id ← raising
                (statement (.insertRefund paymentId input.amountMinor input.reason userId))
              let view (fullyRefunded : Bool) : RefundView :=
                ⟨id, paymentId, input.amountMinor, input.reason, .succeeded, fullyRefunded⟩
              if already + input.amountMinor = payment.amountMinor then do
                let updated ← transitionOrder
                  { orderId := payment.orderId, source := order.status, target := .refunded
                    actor := ⟨.user, some userId⟩, reason := some input.reason }
                pure (view true, [.orderUpdated payment.orderId updated.kioskDeviceId])
              else pure (view false, [])

end CafePos
