import CafePos.Relational.Grouping
import CafePos.Operations
import CafePos.Idempotency

/-!
# Reports over the live tables

What a business day totalled (`reporting/rollup/aggregate-day.ts`,
`build-rollup-row.ts`) and the hourly view of the same money
(`reporting/reports/reports.service.ts`). `aggregateDay` runs its five queries in one
`REPEATABLE READ` transaction, so they read one state of the database.

Two things the tables do not hold are parameters: `createdAt`, which Postgres fills in and
nobody changes, and the wall clock of the business time zone, which is any function of the
instant (so a day may repeat an hour or skip one). So is `localeCompare`, which only
decides the order of `topItems`.
-/

namespace CafePos

open Interleaving Relational

/-! ## One business day -/

/-- `UNKNOWN_METHOD`. -/
def unknownMethod : String := "UNKNOWN"

/-- The text of a payment method. -/
def PaymentMethod.text : PaymentMethod → String
  | card => "CARD"
  | promptpay => "PROMPTPAY"
  | cash => "CASH"

/-- `RollupItem`. -/
structure RollupItem where
  menuItemId : Id
  name : String
  quantity : ℤ
  revenueMinor : ℤ
  deriving DecidableEq

/-- `RollupParts`: the five queries' results. -/
structure RollupParts where
  statusCounts : List (OrderStatus × ℕ)
  revenueByMethod : List (Option PaymentMethod × ℤ)
  refundsMinor : ℤ
  vatMinor : ℤ
  /-- orders that took money -/
  ordersSettled : ℕ
  items : List RollupItem

/-- `RollupRow`. -/
structure RollupRow where
  businessDay : String
  ordersCompleted : ℕ
  ordersRefunded : ℕ
  ordersCancelled : ℕ
  ordersExpired : ℕ
  ordersSettled : ℕ
  revenueMinor : ℤ
  /-- an object of JavaScript, by method -/
  revenueByMethod : Table String ℤ
  refundsMinor : ℤ
  vatMinor : ℤ
  topItems : List RollupItem

namespace Db

variable (db : Db)

/-- The orders of a business day. -/
def ordersOn (businessDay : String) : List (Id × Order) :=
  db.orders.select fun _ o => o.businessDay == businessDay

/-- The row joins an order of the business day. -/
def isOn (businessDay : String) (orderId : Id) : Bool :=
  (db.orders.get orderId).any fun o => o.businessDay == businessDay

/-- `settled`: the order took money. -/
def settled (orderId : Id) : Bool :=
  !(db.payments.select fun _ p => p.orderId == orderId && p.status == .succeeded).isEmpty

/-- The payments that took the money of a business day. -/
def takingsOn (businessDay : String) : List (Id × Payment) :=
  db.payments.select fun _ p => p.status == .succeeded && db.isOn businessDay p.orderId

/-- The orders of a business day that took money. -/
def settledOn (businessDay : String) : List (Id × Order) :=
  (db.ordersOn businessDay).filter fun e => db.settled e.1

/-- The lines sold on a business day. -/
def soldOn (businessDay : String) : List OrderItem :=
  db.orderItems.filter fun i => db.isOn businessDay i.orderId && db.settled i.orderId

/-- The refunds given on the orders of a business day. -/
def refundsOn (businessDay : String) : List Refund :=
  db.refunds.filter fun r => r.status == .succeeded &&
    (db.payments.get r.paymentId).any fun p => db.isOn businessDay p.orderId

end Db

/-- `aggregateDay`: what one business day totalled, straight from the live tables. -/
def aggregateDay (db : Db) (businessDay : String) : RollupParts where
  statusCounts := (groupBy (fun e => e.2.status) (db.ordersOn businessDay)).map fun g =>
    (g.1, g.2.length)
  revenueByMethod := (groupBy (fun e => e.2.method) (db.takingsOn businessDay)).map fun g =>
    (g.1, (g.2.map fun e => e.2.amountMinor).sum)
  refundsMinor := ((db.refundsOn businessDay).map Refund.amountMinor).sum
  vatMinor := ((db.settledOn businessDay).map fun e => e.2.vatMinor).sum
  ordersSettled := (db.settledOn businessDay).length
  items := (groupBy (fun i => (i.menuItemId, i.nameSnapshot)) (db.soldOn businessDay)).map
    fun g => ⟨g.1.1, g.1.2, (g.2.map OrderItem.quantity).sum, (g.2.map OrderItem.lineTotalMinor).sum⟩

/-- `revenueByMethod[key] = (revenueByMethod[key] ?? 0) + amount`. -/
def addTo (m : Table String ℤ) (key : String) (amount : ℤ) : Table String ℤ :=
  m.put key ((m.get key).getD 0 + amount)

/-- The `Map` of the status counts, read at a status. -/
def countOf (counts : List (OrderStatus × ℕ)) (status : OrderStatus) : ℕ :=
  ((counts.foldl (fun m e => m.put e.1 e.2) (∅ : Table OrderStatus ℕ)).get status).getD 0

/-- The buckets of the revenue: money whose rail could not be resolved has its own. -/
def bucketRevenue (revenue : List (Option PaymentMethod × ℤ)) : Table String ℤ :=
  revenue.foldl (fun m e => addTo m ((e.1.map PaymentMethod.text).getD unknownMethod) e.2) ∅

/-- The order of `topItems`: the most sold first, then by name. -/
def topFirst (localeCompare : String → String → Ordering) (a b : RollupItem) : Bool :=
  b.quantity < a.quantity || (a.quantity == b.quantity && (localeCompare a.name b.name).isLE)

/-- `buildRollupRow`: assembles one business day from its aggregate parts. -/
def buildRollupRow (localeCompare : String → String → Ordering) (businessDay : String)
    (parts : RollupParts) : RollupRow where
  businessDay := businessDay
  ordersCompleted := countOf parts.statusCounts .completed
  ordersRefunded := countOf parts.statusCounts .refunded
  ordersCancelled := countOf parts.statusCounts .cancelled
  ordersExpired := countOf parts.statusCounts .expired
  ordersSettled := parts.ordersSettled
  revenueMinor := (bucketRevenue parts.revenueByMethod).values.sum
  revenueByMethod := bucketRevenue parts.revenueByMethod
  refundsMinor := parts.refundsMinor
  vatMinor := parts.vatMinor
  topItems := parts.items.mergeSort (topFirst localeCompare)

/-! ## Hour by hour -/

/-- `avgTicketMinor`: revenue per sale, rounded; nothing sold has no average. -/
def avgTicketMinor (revenueMinor : ℤ) (ordersSettled : ℕ) : Option ℤ :=
  if ordersSettled = 0 then none else some (roundDiv revenueMinor ordersSettled)

/-- `SalesBucket`. -/
structure SalesBucket where
  bucket : String
  revenueMinor : ℤ
  ordersSettled : ℕ
  avgTicketMinor : Option ℤ
  deriving DecidableEq

/-- An hour of the wall clock, `HH24`. -/
def hh24 (hour : Fin 24) : String :=
  String.ofList [Nat.digitChar (hour / 10), Nat.digitChar (hour % 10)]

/-- The label of an hourly bucket: the business day, not the calendar date. -/
def hourLabel (businessDay : String) (hour : Fin 24) : String :=
  businessDay ++ "T" ++ hh24 hour

/-- When the first order of a group was created. -/
def firstCreated (createdAt : Id → Instant) (orders : List (Id × Order)) : Option Instant :=
  (orders.map fun e => createdAt e.1).min?

/-- `hourlyBuckets`: the orders that took money, by business day and hour of the wall clock
at which they were created. -/
def hourlyBuckets (createdAt : Id → Instant) (wallClock : Instant → Fin 24) (db : Db)
    (first last : String) : List SalesBucket :=
  let rows := db.orders.select fun id o => first ≤ o.businessDay && o.businessDay ≤ last &&
    db.settled id
  let groups := groupBy (fun e => hourLabel e.2.businessDay (wallClock (createdAt e.1))) rows
  let sorted := groups.mergeSort fun g g' =>
    (firstCreated createdAt g.2).getD 0 ≤ (firstCreated createdAt g'.2).getD 0
  sorted.map fun g =>
    let revenueMinor := (g.2.map fun e => e.2.totalMinor).sum
    ⟨g.1, revenueMinor, g.2.length, avgTicketMinor revenueMinor g.2.length⟩

/-- The bucket is one of the hours of a business day. -/
def SalesBucket.isOf (b : SalesBucket) (businessDay : String) : Bool :=
  decide (∃ hour, b.bucket = hourLabel businessDay hour)

/-! ## Stored days -/

/-- A row of `daily_sales_rollups`, under its business day. -/
structure DailySalesRollup where
  row : RollupRow
  finalizedAt : Option Instant

/-- What the reporting endpoints refuse a request with. -/
inductive ReportError where
  /-- `UnprocessableRangeError` -/
  | unprocessableRange (detail : String)
  /-- `DependencyUnavailableError` -/
  | dependencyUnavailable (detail : String)
  deriving DecidableEq

/-- `MAX_LIVE_DAYS`. -/
def maxLiveDays : ℕ := 31

/-- `ReportsService.dayTotals`: a finalized rollup is read, anything else is aggregated live. -/
def dayTotals (localeCompare : String → String → Ordering)
    (rollups : Table String DailySalesRollup) (db : Db) (days : List String) :
    Except ReportError (Table String RollupRow) :=
  let stored := rollups.select fun day r => r.finalizedAt.isSome &&
    (days.head?.any fun first => first ≤ day) && (days.getLast?.any fun last => day ≤ last)
  let totals := stored.foldl (fun m e => m.put e.1 e.2.row) (∅ : Table String RollupRow)
  let missing := days.filter fun day => (totals.get day).isNone
  if maxLiveDays < missing.length then
    .error (.dependencyUnavailable
      (s!"{missing.length} of the {days.length} days requested have no finalized rollup, " ++
        s!"which is past the {maxLiveDays}-day limit this endpoint will compute on demand. " ++
        "The nightly rollup has not been running."))
  else
    .ok (missing.foldl
      (fun m day => m.put day (buildRollupRow localeCompare day (aggregateDay db day))) totals)

/-! ## Reconciliation and the Z-report -/

/-- `ReconciliationReport`. -/
structure ReconciliationReport where
  businessDay : String
  gatewayCapturedMinor : ℤ
  dbRecordedMinor : ℤ
  deltaMinor : ℤ
  /-- inbox rows this system never acted on -/
  unmatchedEvents : List String
  notCaptured : List String
  deriving DecidableEq

/-- `StripePaymentProvider.capturedTotalFor`: one intent after the other, and no answer at all
when one of them cannot be retrieved. -/
def capturedTotalFor (reachable : Bool) (g : Gateway) :
    List String → Except StripeError (ℤ × List String)
  | [] => .ok (0, [])
  | i :: ids =>
    if !reachable then .error .unreachable
    else
      match g.intents.get i with
      | none => .error .invalidRequest
      | some it =>
        match capturedTotalFor reachable g ids with
        | .error e => .error e
        | .ok (totalMinor, notCaptured) =>
          if it.status = .succeeded then .ok (it.amount + totalMinor, notCaptured)
          else .ok (totalMinor, i :: notCaptured)

/-- The gateway money our books have for a business day. -/
def Db.recordedOn (db : Db) (businessDay : String) : List (Id × Payment) :=
  db.payments.select fun _ p => db.isOn businessDay p.orderId && p.provider == .stripe &&
    p.status == .succeeded

/-- The inbox rows that were never acted on. -/
def Db.unprocessed (db : Db) : List (Id × PaymentEvent) :=
  db.paymentEvents.select fun _ e => e.processedAt.isNone

/-- `ReconciliationService.reconcile`. -/
def reconcile (reachable : Bool) (s : Shared) (businessDay : String) :
    Except StripeError ReconciliationReport := do
  let recorded := s.db.recordedOn businessDay
  let dbRecordedMinor := (recorded.map fun e => e.2.amountMinor).sum
  let intentIds := recorded.filterMap fun e => e.2.providerIntentId
  let (totalMinor, notCaptured) ← capturedTotalFor reachable s.gateway intentIds
  .ok ⟨businessDay, totalMinor, dbRecordedMinor, totalMinor - dbRecordedMinor,
    s.db.unprocessed.map fun e => e.2.providerEventId, notCaptured⟩

/-- `unmatchedEventsForDay`: the candidates that join an order of the day through
`payment_events.payment_id`. -/
def unmatchedEventsForDay (db : Db) (businessDay : String) (candidateIds : List String) :
    List String :=
  if candidateIds.isEmpty then []
  else
    (db.paymentEvents.select fun _ e => candidateIds.contains e.providerEventId &&
      e.paymentId.any fun id => (db.payments.get id).any fun p =>
        db.isOn businessDay p.orderId).map fun e => e.2.providerEventId

/-- `ReconciliationUnavailable`. -/
inductive ReconciliationUnavailable where
  | dayStillTrading | gatewayUnreachable | databaseUnavailable
  deriving DecidableEq

/-- `ZReport`. -/
structure ZReport where
  businessDay : String
  provisional : Bool
  ordersCompleted : ℕ
  ordersRefunded : ℕ
  ordersCancelled : ℕ
  ordersExpired : ℕ
  revenueMinor : ℤ
  revenueByMethod : Table String ℤ
  refundsMinor : ℤ
  vatMinor : ℤ
  reconciliation : Option ReconciliationReport
  reconciliationUnavailable : Option ReconciliationUnavailable

/-- What the outside decides of one request for a Z-report. -/
structure ZInput where
  /-- the clock -/
  now : Instant
  /-- Stripe answers -/
  reachable : Bool
  /-- before the deadline -/
  inTime : Bool
  /-- the query that scopes the events goes through -/
  scoping : Bool

/-- `reconcileWithDeadline`: `none` when the gateway failed or took too long. -/
def reconcileWithDeadline (inp : ZInput) (s : Shared) (businessDay : String) :
    Option ReconciliationReport :=
  if inp.inTime then (reconcile inp.reachable s businessDay).toOption else none

/-- The block of a Z-report that compares with the gateway, or why it is missing. -/
def reconciliationBlock (inp : ZInput) (s : Shared) (businessDay : String) (provisional : Bool) :
    Option ReconciliationReport × Option ReconciliationUnavailable :=
  if provisional then (none, some .dayStillTrading)
  else
    match reconcileWithDeadline inp s businessDay with
    | none => (none, some .gatewayUnreachable)
    | some report =>
      if inp.scoping then
        (some { report with
          unmatchedEvents := unmatchedEventsForDay s.db businessDay report.unmatchedEvents }, none)
      else (none, some .databaseUnavailable)

/-- `ReportsService.zReport`, read in one state. `none` stands for the `TypeError` of a day
that `dayTotals` left out. -/
def zReport (cfg : Config) (localeCompare : String → String → Ordering) (inp : ZInput)
    (rollups : Table String DailySalesRollup) (s : Shared) (businessDay : String) :
    Except ReportError (Option ZReport) :=
  let current := cfg.businessDayOf inp.now
  if current < businessDay then
    .error (.unprocessableRange
      s!"businessDay must not be after the current business day ({current})")
  else do
    let provisional := businessDay == current
    let totals ← dayTotals localeCompare rollups s.db [businessDay]
    let block := reconciliationBlock inp s businessDay provisional
    .ok ((totals.get businessDay).map fun row =>
      ⟨businessDay, provisional, row.ordersCompleted, row.ordersRefunded, row.ordersCancelled,
        row.ordersExpired, row.revenueMinor, row.revenueByMethod, row.refundsMinor, row.vatMinor,
        block.1, block.2⟩)

end CafePos
