import CafePos.Gateway

/-!
# The data model

The enumerations of `database/schema/enums.ts` and the rows of the tables that the
order and payment services write (`database/schema/orders.ts`, `payments.ts`).
Identifiers are natural numbers where the schema has UUIDs, instants are
milliseconds, money is in minor units. A primary key is the key of its `Table`, not
a field of the row; tables that are only ever appended to are lists, in the order
the rows were committed.
-/

namespace CafePos

open Interleaving

/-! ## Enumerations -/

/-- `deviceStatuses`. -/
inductive DeviceStatus where
  | pending | active | paused | revoked
  deriving DecidableEq

/-- `orderChannels`. -/
inductive OrderChannel where
  | kiosk | counter
  deriving DecidableEq

/-- `orderStatuses`. -/
inductive OrderStatus where
  | draft | pendingPayment | paid | inPreparation | ready | completed | cancelled | expired
  | refunded
  deriving DecidableEq

/-- `actorTypes`. -/
inductive ActorType where
  | user | device | system
  deriving DecidableEq

/-- `paymentProviders`. -/
inductive PaymentProvider where
  | stripe | cash
  deriving DecidableEq

/-- `paymentMethods`. -/
inductive PaymentMethod where
  | card | promptpay | cash
  deriving DecidableEq

/-- `paymentStatuses`. -/
inductive PaymentStatus where
  | pending | processing | succeeded | failed | cancelled | expired
  deriving DecidableEq

/-- `refundStatuses`. -/
inductive RefundStatus where
  | pending | succeeded | failed
  deriving DecidableEq

/-- The text of an order status, as errors print it. -/
def OrderStatus.text : OrderStatus → String
  | draft => "DRAFT"
  | pendingPayment => "PENDING_PAYMENT"
  | paid => "PAID"
  | inPreparation => "IN_PREPARATION"
  | ready => "READY"
  | completed => "COMPLETED"
  | cancelled => "CANCELLED"
  | expired => "EXPIRED"
  | refunded => "REFUNDED"

/-- The text of a payment status. -/
def PaymentStatus.text : PaymentStatus → String
  | pending => "PENDING"
  | processing => "PROCESSING"
  | succeeded => "SUCCEEDED"
  | failed => "FAILED"
  | cancelled => "CANCELLED"
  | expired => "EXPIRED"

/-- `LIVE`, the set of the partial unique index `one_live_payment`. -/
def PaymentStatus.isLive : PaymentStatus → Bool
  | pending => true
  | processing => true
  | _ => false

/-! ## Rows -/

/-- Primary keys are UUIDs in the schema. -/
abbrev Id : Type := ℕ

/-- Milliseconds since the epoch. -/
abbrev Instant : Type := ℤ

/-- A row of `orders`. -/
structure Order where
  /-- null until checkout -/
  orderNumber : Option String
  businessDay : String
  channel : OrderChannel
  status : OrderStatus
  kioskDeviceId : Option Id
  createdByUserId : Option Id
  customerName : Option String
  subtotalMinor : ℤ
  vatMinor : ℤ
  totalMinor : ℤ
  currency : String
  expiresAt : Option Instant
  deriving DecidableEq

/-- A row of `order_item_options`. -/
structure OrderItemOption where
  optionId : Id
  groupNameSnapshot : String
  optionNameSnapshot : String
  priceDeltaMinorSnapshot : ℤ
  deriving DecidableEq

/-- A row of `order_items` with its option snapshots. -/
structure OrderItem where
  orderId : Id
  menuItemId : Id
  nameSnapshot : String
  unitPriceMinorSnapshot : ℤ
  quantity : ℤ
  lineTotalMinor : ℤ
  notes : Option String
  options : List OrderItemOption
  deriving DecidableEq

/-- A row of `order_status_history`. -/
structure HistoryRow where
  orderId : Id
  fromStatus : Option OrderStatus
  toStatus : OrderStatus
  actorType : ActorType
  actorId : Option Id
  reason : Option String
  deriving DecidableEq

/-- A row of `payments`. -/
structure Payment where
  orderId : Id
  provider : PaymentProvider
  providerIntentId : Option String
  /-- null until a gateway payment resolves -/
  method : Option PaymentMethod
  status : PaymentStatus
  amountMinor : ℤ
  currency : String
  idempotencyKey : Option String
  cashTenderedMinor : Option ℤ
  deriving DecidableEq

/-- A row of `refunds`. -/
structure Refund where
  id : Id
  paymentId : Id
  amountMinor : ℤ
  reason : String
  status : RefundStatus
  initiatedByUserId : Id
  deriving DecidableEq

/-- A row of `payment_events`, the webhook inbox. -/
structure PaymentEvent where
  providerEventId : String
  eventType : String
  paymentId : Option Id
  payload : Json
  processedAt : Option Instant

/-! ## The bodies an idempotency key stands for -/

/-- One line of an order as the API returns it. -/
structure OrderItemView where
  nameSnapshot : String
  unitPriceMinor : ℤ
  quantity : ℤ
  lineTotalMinor : ℤ
  notes : Option String
  /-- group, name and price delta -/
  options : List (String × String × ℤ)
  deriving DecidableEq

/-- `OrderView`: an order as the API returns it. -/
structure OrderView where
  id : Id
  orderNumber : Option String
  status : OrderStatus
  channel : OrderChannel
  businessDay : String
  customerName : Option String
  expiresAt : Option Instant
  items : List OrderItemView
  subtotalMinor : ℤ
  vatMinor : ℤ
  totalMinor : ℤ
  currency : String
  deriving DecidableEq

/-- `PaymentView`: a payment as the API returns it. `clientAction` is the
`CONFIRM_WITH_CLIENT_SECRET` action, if there is one. -/
structure PaymentView where
  id : Id
  status : PaymentStatus
  method : Option PaymentMethod
  amountMinor : ℤ
  currency : String
  provider : PaymentProvider
  clientAction : Option ClientSecret
  deriving DecidableEq

/-- `response_body`: one table of keys serves both services. -/
inductive ResponseBody where
  /-- what `OrdersService.create` stores -/
  | order (view : OrderView)
  /-- what `CreatePaymentService.create` stores -/
  | payment (view : PaymentView)
  deriving DecidableEq

/-- A row of `idempotency_keys`. -/
structure IdempotencyKey where
  requestHash : String
  responseStatus : Option ℕ
  responseBody : Option ResponseBody
  expiresAt : Instant
  deriving DecidableEq

/-! ## The database -/

/-- The tables. -/
structure Db where
  orders : Table Id Order
  orderItems : List OrderItem
  orderStatusHistory : List HistoryRow
  orderNumberCounters : Table String ℕ
  payments : Table Id Payment
  refunds : List Refund
  paymentEvents : Table Id PaymentEvent
  idempotencyKeys : Table String IdempotencyKey

namespace Db

/-- No rows anywhere. -/
def empty : Db := ⟨∅, [], [], ∅, ∅, [], ∅, ∅⟩

/-- The history rows of an order, in commit order. -/
def historyOf (db : Db) (orderId : Id) : List HistoryRow :=
  db.orderStatusHistory.filter fun h => h.orderId == orderId

/-- The stored lines of an order. -/
def itemsOf (db : Db) (orderId : Id) : List OrderItem :=
  db.orderItems.filter fun i => i.orderId == orderId

/-- The sum of an order's stored line totals. -/
def lineTotal (db : Db) (orderId : Id) : ℤ :=
  ((db.itemsOf orderId).map OrderItem.lineTotalMinor).sum

/-- The refund rows of a payment. -/
def refundsOf (db : Db) (paymentId : Id) : List Refund :=
  db.refunds.filter fun r => r.paymentId == paymentId

/-- `sum(refunds.amount_minor)`, 0 where there is none. -/
def refunded (db : Db) (paymentId : Id) : ℤ :=
  ((db.refundsOf paymentId).map Refund.amountMinor).sum

/-- The payments of an order in a live status. -/
def livePayments (db : Db) (orderId : Id) : List (Id × Payment) :=
  db.payments.select fun _ p => p.orderId == orderId && p.status.isLive

/-- The day's `lastValue`, 0 when there is no row. -/
def lastValue (db : Db) (businessDay : String) : ℕ :=
  (db.orderNumberCounters.get businessDay).getD 0

end Db

/-- What all calls share: our database and the gateway. -/
structure Shared where
  db : Db
  gateway : Gateway

end CafePos
