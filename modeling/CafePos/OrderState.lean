import CafePos.Operations

/-!
# The order state machine

`orders/state/order-state.ts` and `transition-order.ts`: which moves exist, which of
them staff may make, and the one function every door moves an order through. The
guard of that function is the `WHERE status = from` of its update; it does not
consult the table of legal moves.
-/

namespace CafePos

open Door

/-- `ORDER_TRANSITIONS`. -/
def orderTransitions : OrderStatus → List OrderStatus
  | .draft => [.pendingPayment, .cancelled]
  | .pendingPayment => [.paid, .expired, .cancelled]
  | .paid => [.inPreparation, .refunded]
  | .inPreparation => [.ready, .refunded]
  | .ready => [.completed, .refunded]
  | .completed => [.refunded]
  | .cancelled => []
  | .expired => []
  | .refunded => []

/-- `isLegalTransition`. -/
def isLegalTransition (source target : OrderStatus) : Bool :=
  (orderTransitions source).contains target

/-- `STAFF_TRANSITIONS`. -/
def staffTransitions : List (OrderStatus × OrderStatus) :=
  [(.paid, .inPreparation), (.inPreparation, .ready), (.ready, .completed)]

/-- `isStaffTransition`. -/
def isStaffTransition (source target : OrderStatus) : Bool :=
  staffTransitions.any fun t => t.1 == source && t.2 == target

/-- What staff may do, the machine permits. -/
theorem isLegalTransition_of_isStaffTransition {source target : OrderStatus}
    (h : isStaffTransition source target) : isLegalTransition source target := by
  revert h
  cases source <;> cases target <;> decide

/-- `Principal`: a signed-in staff member or a kiosk tablet. -/
inductive Principal where
  | staff (userId : Id)
  | device (deviceId : Id)
  deriving DecidableEq

/-- `TransitionActor`: who or what caused a move. -/
structure TransitionActor where
  actorType : ActorType
  actorId : Option Id
  deriving DecidableEq

/-- The actor a principal is recorded as. -/
def actorOf : Principal → TransitionActor
  | .staff userId => ⟨.user, some userId⟩
  | .device deviceId => ⟨.device, some deviceId⟩

/-- No user and no device: a job, or the gateway. -/
def systemActor : TransitionActor := ⟨.system, none⟩

/-- `TransitionRequest`. -/
structure TransitionRequest where
  orderId : Id
  /-- the status the caller believes the order is in -/
  source : OrderStatus
  target : OrderStatus
  actor : TransitionActor
  reason : Option String := none

/-- The history row of a move. -/
def TransitionRequest.history (r : TransitionRequest) : HistoryRow :=
  ⟨r.orderId, some r.source, r.target, r.actor.actorType, r.actor.actorId, r.reason⟩

/-- `explainFailure`: the order is gone, or it is not where we thought. -/
def explainFailure (orderId : Id) (requested : OrderStatus) : Door Err := do
  match ← (selectTx (.order orderId) : Door (Option Order)) with
  | none => pure (.resourceNotFound "order" orderId)
  | some current => pure (.orderInvalidTransition current.status requested)

/-- `transitionOrder`: the guarded move, and its history row in the same transaction. -/
def transitionOrder (r : TransitionRequest) : Door Order := do
  match ← (statement (.moveOrder r.orderId r.source r.target) : Door (Option Order)) with
  | none => throw (← explainFailure r.orderId r.target)
  | some updated => do
    statement (.insertHistory r.history)
    pure updated

/-- `isLostRace`: something else moved the order first. -/
def isLostRace : Err → Bool
  | .orderInvalidTransition .. => true
  | .resourceNotFound .. => true
  | _ => false

/-- `OrderSummary`, as `toOrderSummary` builds it. -/
structure OrderSummary where
  id : Id
  orderNumber : Option String
  status : OrderStatus
  channel : OrderChannel
  businessDay : String
  customerName : Option String
  subtotalMinor : ℤ
  vatMinor : ℤ
  totalMinor : ℤ
  currency : String
  expiresAt : Option Instant
  deriving DecidableEq

/-- `toOrderSummary`. -/
def toOrderSummary (id : Id) (o : Order) : OrderSummary :=
  { id
    orderNumber := o.orderNumber
    status := o.status
    channel := o.channel
    businessDay := o.businessDay
    customerName := o.customerName
    subtotalMinor := o.subtotalMinor
    vatMinor := o.vatMinor
    totalMinor := o.totalMinor
    currency := o.currency
    expiresAt := o.expiresAt }

/-- `OrderStatusService.transition`: the three moves of the KDS route. The status is
read inside the transaction, without a lock. -/
def transition (principal : Principal) (orderId : Id) (target : OrderStatus) :
    Door OrderSummary :=
  afterCommit do
    match ← (selectTx (.order orderId) : Door (Option Order)) with
    | none => throw (.resourceNotFound "order" orderId)
    | some current =>
      if isStaffTransition current.status target then do
        let updated ← transitionOrder
          { orderId, source := current.status, target, actor := actorOf principal }
        let event := if target = .ready then DomainEvent.orderReady orderId updated.kioskDeviceId
          else .orderUpdated orderId updated.kioskDeviceId
        pure (toOrderSummary orderId updated, [event])
      else throw (.orderInvalidTransition current.status target)

end CafePos
