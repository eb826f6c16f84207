import CafePos.Closing

/-!
# Looking an order up

`OrdersReadService.detail` and `OrderPaymentsService.listFor` (`orders/query`,
`payments/query`), the two doors that only read. The first scopes a kiosk to its own orders in
the lookup, the second by a comparison after it.
-/

namespace CafePos

open Door

/-- The column `created_at` of the rows that are shown with it. -/
structure Stamps where
  order : Id → Instant
  history : HistoryRow → Instant
  payment : Id → Instant

/-- `OrderStatusChange`. -/
structure OrderStatusChange where
  fromStatus : Option OrderStatus
  toStatus : OrderStatus
  actorType : ActorType
  actorId : Option Id
  createdAt : Instant
  deriving DecidableEq

/-- `OrderDetail`. -/
structure OrderDetail where
  summary : OrderSummary
  createdAt : Instant
  items : List OrderItemView
  statusHistory : List OrderStatusChange
  deriving DecidableEq

/-- `toOrderLines`. -/
def toOrderLines (lines : List OrderItem) : List OrderItemView :=
  lines.map fun line =>
    { nameSnapshot := line.nameSnapshot
      unitPriceMinor := line.unitPriceMinorSnapshot
      quantity := line.quantity
      lineTotalMinor := line.lineTotalMinor
      notes := line.notes
      options := line.options.map fun o =>
        (o.groupNameSnapshot, o.optionNameSnapshot, o.priceDeltaMinorSnapshot) }

/-- The history of an order, oldest first. -/
def toStatusHistory (stamps : Stamps) (rows : List HistoryRow) : List OrderStatusChange :=
  (rows.mergeSort fun a b => decide (stamps.history a ≤ stamps.history b)).map fun entry =>
    { fromStatus := entry.fromStatus
      toStatus := entry.toStatus
      actorType := entry.actorType
      actorId := entry.actorId
      createdAt := stamps.history entry }

/-- `OrdersReadService.detail`. -/
def detail (stamps : Stamps) (principal : Principal) (id : Id) : Door OrderDetail := do
  match ← (select (.orderDetail id (scopeDevice principal)) :
      Door (Option (Order × List OrderItem × List HistoryRow))) with
  | none => throw (.resourceNotFound "order" id)
  | some (row, items, history) =>
    pure
      { summary := toOrderSummary id row
        createdAt := stamps.order id
        items := toOrderLines items
        statusHistory := toStatusHistory stamps history }

/-- `PaymentAttemptView`. -/
structure PaymentAttemptView where
  id : Id
  status : PaymentStatus
  method : Option PaymentMethod
  amountMinor : ℤ
  currency : String
  provider : PaymentProvider
  providerIntentId : Option String
  cashTenderedMinor : Option ℤ
  createdAt : Instant
  deriving DecidableEq

/-- A payment as `listFor` shows it. -/
def toAttempt (stamps : Stamps) (row : Id × Payment) : PaymentAttemptView :=
  { id := row.1
    status := row.2.status
    method := row.2.method
    amountMinor := row.2.amountMinor
    currency := row.2.currency
    provider := row.2.provider
    providerIntentId := row.2.providerIntentId
    cashTenderedMinor := row.2.cashTenderedMinor
    createdAt := stamps.payment row.1 }

/-- `OrderPaymentsService.listFor`: the attempts behind an order, oldest first. -/
def listFor (stamps : Stamps) (principal : Principal) (orderId : Id) :
    Door (List PaymentAttemptView) := do
  match ← (select (.order orderId) : Door (Option Order)) with
  | none => throw (.resourceNotFound "order" orderId)
  | some order =>
    if foreign principal order then throw (.resourceNotFound "order" orderId)
    else do
      let rows : List (Id × Payment) ← select (.paymentsOf orderId)
      pure ((rows.mergeSort fun a b => decide (stamps.payment a.1 ≤ stamps.payment b.1)).map
        (toAttempt stamps))

end CafePos
