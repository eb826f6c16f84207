import CafePos.Payments

/-!
# The doors that end an unpaid order

`CancelOrderService.cancel` and `OrderExpiryService.expireOne`
(`orders/cancel/cancel-order.service.ts`, `orders/expiry/order-expiry.service.ts`).
Both read the live payment and ask the gateway to cancel its intent before the
transaction that moves the order.
-/

namespace CafePos

open Door

/-- `CANCELLABLE`. -/
def cancellable : List OrderStatus := [.draft, .pendingPayment]

/-- The device a cancellation is scoped to. -/
def scopeDevice : Principal → Option Id
  | .device deviceId => some deviceId
  | .staff _ => none

/-- The `cancelIntent` of a cancellation: an unreachable gateway refuses the request. -/
def cancelIntentOrRefuse (intentId : String) : Door CancelIntentOutcome :=
  tryCatch (cancelIntent intentId) fun _ => throw (.dependencyUnavailable
    "The payment gateway could not be reached to cancel this order. Try again shortly.")

/-- The live payment's intent is dead before the order moves, or the cancellation is
refused. -/
def cancelLiveIntent (live : Option (Id × Payment)) : Door Unit :=
  match live.bind fun p => p.2.providerIntentId with
  | none => pure ()
  | some intentId => do
    match ← cancelIntentOrRefuse intentId with
    | .alreadySucceeded => throw .orderAlreadyPaid
    | .cancelled => pure ()

/-- The live payment's own update, in the transaction that moves the order. Only a
cancellation guards it. -/
def settleLive (live : Option (Id × Payment)) (guarded : Bool) : Door Unit :=
  match live with
  | none => pure ()
  | some (paymentId, _) => do
    let _ ← statement (.updatePayment paymentId .cancelled none guarded)
    pure ()

/-- `CancelOrderService.cancel`. -/
def cancel (principal : Principal) (orderId : Id) (reason : Option String) :
    Door OrderSummary := do
  match ← (select (.orderOf orderId (scopeDevice principal)) : Door (Option Order)) with
  | none => throw (.resourceNotFound "order" orderId)
  | some current =>
    if current.status ∉ cancellable then
      throw (.orderInvalidTransition current.status .cancelled)
    else do
      let rows : List (Id × Payment) ← select (.livePayments orderId)
      let live := rows.head?
      cancelLiveIntent live
      afterCommit do
        let updated ← transitionOrder
          { orderId, source := current.status, target := .cancelled
            actor := actorOf principal, reason }
        settleLive live true
        pure (toOrderSummary orderId updated, [.orderUpdated orderId updated.kioskDeviceId])

/-- What the gateway says of an overdue order's live payment; with none to cancel, there
is nothing to wait for. -/
def cancelOverdueIntent (live : Option (Id × Payment)) : Door CancelIntentOutcome :=
  match live.bind fun p => p.2.providerIntentId with
  | none => pure .cancelled
  | some intentId => cancelIntent intentId

/-- The body of `expireOne`, before its errors are swallowed. -/
def expire (orderId : Id) : Door Bool := do
  let rows : List (Id × Payment) ← select (.livePayments orderId)
  let live := rows.head?
  match ← cancelOverdueIntent live with
  | .alreadySucceeded => pure false
  | .cancelled => do
    transaction do
      let _ ← transitionOrder
        { orderId, source := .pendingPayment, target := .expired, actor := systemActor }
      settleLive live false
      pure ()
    pure true

/-- `expireOne`: losing the race and failing are both answered `false`. -/
def expireOne (orderId : Id) : Door Bool :=
  tryCatch (expire orderId) fun _ => pure false

end CafePos
