import CafePos.Interleaving.Session
import CafePos.Schema

/-!
# The statements the services send

Every statement of the modelled services, as Postgres evaluates it on the state a
session sees: the answer it returns, the rows it writes and locks. A guarded
`UPDATE ... WHERE` that matches nothing writes nothing and locks nothing; one that
matches waits for the row and is evaluated again. An `INSERT` that meets a committed
row under a unique index fails at once; one that meets an uncommitted row waits for
its transaction. Those waits are `Session.execute`'s.
-/

namespace CafePos

open Interleaving

/-! ## Writes and rows -/

/-- What can be locked: rows, and entries of unique indexes. -/
inductive Row where
  | order (id : Id)
  | payment (id : Id)
  /-- the entry of `one_live_payment` for an order -/
  | livePayment (orderId : Id)
  /-- the entry of `payments.provider_intent_id` -/
  | intent (intentId : String)
  /-- the entry of `payments.idempotency_key` -/
  | paymentKey (key : String)
  | event (id : Id)
  | key (key : String)
  | counter (businessDay : String)
  deriving DecidableEq

/-- One entry of a redo log: a new row image. -/
inductive Write where
  | order (id : Id) (row : Order)
  | orderItem (row : OrderItem)
  | history (row : HistoryRow)
  | payment (id : Id) (row : Payment)
  | refund (row : Refund)
  | event (id : Id) (row : PaymentEvent)
  | key (key : String) (row : IdempotencyKey)
  | counter (businessDay : String) (lastValue : ℕ)

namespace Write

/-- The rows a write touches. A child row of an append-only table belongs to its
parent: it is only ever inserted by a transaction that holds the parent. -/
def rows : Write → List Row
  | order id _ => [.order id]
  | orderItem row => [.order row.orderId]
  | history row => [.order row.orderId]
  | payment id row => .payment id :: (row.providerIntentId.map Row.intent).toList ++
      (row.idempotencyKey.map Row.paymentKey).toList ++
      if row.status.isLive then [.livePayment row.orderId] else []
  | refund row => [.payment row.paymentId]
  | event id _ => [.event id]
  | key k _ => [.key k]
  | counter day _ => [.counter day]

/-- Put a row image into its table. -/
def apply (w : Write) (db : Db) : Db :=
  match w with
  | order id row => { db with orders := db.orders.put id row }
  | orderItem row => { db with orderItems := db.orderItems ++ [row] }
  | history row => { db with orderStatusHistory := db.orderStatusHistory ++ [row] }
  | payment id row => { db with payments := db.payments.put id row }
  | refund row => { db with refunds := db.refunds ++ [row] }
  | event id row => { db with paymentEvents := db.paymentEvents.put id row }
  | key k row => { db with idempotencyKeys := db.idempotencyKeys.put k row }
  | counter day n => { db with orderNumberCounters := db.orderNumberCounters.put day n }

end Write

/-- What it means that a row was left alone. For an index entry: if it was free, it
still is. -/
def Row.Keeps (db db' : Db) : Row → Prop
  | .order id => db'.orders.get id = db.orders.get id
  | .payment id => db'.payments.get id = db.payments.get id ∧ db'.refundsOf id = db.refundsOf id
  | .livePayment o => (∀ id p, db.payments.get id = some p → p.orderId = o → ¬ p.status.isLive) →
      ∀ id p, db'.payments.get id = some p → p.orderId = o → ¬ p.status.isLive
  | .intent i => (∀ id p, db.payments.get id = some p → p.providerIntentId ≠ some i) →
      ∀ id p, db'.payments.get id = some p → p.providerIntentId ≠ some i
  | .paymentKey k => (∀ id p, db.payments.get id = some p → p.idempotencyKey ≠ some k) →
      ∀ id p, db'.payments.get id = some p → p.idempotencyKey ≠ some k
  | .event id => db'.paymentEvents.get id = db.paymentEvents.get id
  | .key k => db'.idempotencyKeys.get k = db.idempotencyKeys.get k
  | .counter day => db'.orderNumberCounters.get day = db.orderNumberCounters.get day

theorem Row.keeps_refl (x : Row) (db : Db) : x.Keeps db db := by
  cases x <;> simp [Row.Keeps]

theorem Row.keeps_trans (x : Row) (db₁ db₂ db₃ : Db) (h₁ : x.Keeps db₁ db₂)
    (h₂ : x.Keeps db₂ db₃) : x.Keeps db₁ db₃ := by
  cases x with
  | order id => exact h₂.trans h₁
  | payment id => exact ⟨h₂.1.trans h₁.1, h₂.2.trans h₁.2⟩
  | livePayment o => exact fun h => h₂ (h₁ h)
  | intent i => exact fun h => h₂ (h₁ h)
  | paymentKey k => exact fun h => h₂ (h₁ h)
  | event id => exact h₂.trans h₁
  | key k => exact h₂.trans h₁
  | counter day => exact h₂.trans h₁

/-- A payment image that does not touch an index entry leaves the entry free if it
was. -/
theorem Write.payment_keeps (bad : Payment → Prop) {id : Id} {row : Payment} {db : Db}
    (hrow : ¬ bad row) (h : ∀ id' p, db.payments.get id' = some p → ¬ bad p) :
    ∀ id' p, ((Write.payment id row).apply db).payments.get id' = some p → ¬ bad p := by
  intro id' p hp
  simp only [Write.apply, Table.get_put] at hp
  split at hp
  · obtain rfl := Option.some.inj hp
    exact hrow
  · exact h id' p hp

theorem Write.apply_keeps (w : Write) (db : Db) (x : Row) (hx : x ∉ w.rows) :
    x.Keeps db (w.apply db) := by
  cases w with
  | payment id row =>
    simp only [Write.rows, List.cons_append, List.mem_cons, List.mem_append, not_or,
      Option.mem_toList, Option.map_eq_some_iff, not_exists, not_and] at hx
    obtain ⟨hid, ⟨hintent, hkey⟩, hlive⟩ := hx
    cases x with
    | payment id' =>
      have hne : id' ≠ id := fun h => hid (by rw [h])
      exact ⟨Table.get_put_ne _ _ hne, rfl⟩
    | livePayment o =>
      intro h id' p hp ho hl
      refine Write.payment_keeps (fun p => p.orderId = o ∧ p.status.isLive = true)
        ?_ (fun id' p hp hb => h id' p hp hb.1 hb.2) id' p hp ⟨ho, hl⟩
      rintro ⟨rfl, hrow⟩
      simp [hrow] at hlive
    | intent i =>
      intro h id' p hp
      exact Write.payment_keeps (fun p => p.providerIntentId = some i)
        (fun hrow => hintent i hrow rfl) h id' p hp
    | paymentKey k =>
      intro h id' p hp
      exact Write.payment_keeps (fun p => p.idempotencyKey = some k)
        (fun hrow => hkey k hrow rfl) h id' p hp
    | _ => rfl
  | refund row =>
    cases x with
    | payment id =>
      refine ⟨rfl, ?_⟩
      have hne : row.paymentId ≠ id := fun h => hx (by simp [Write.rows, h])
      simp [Write.apply, Db.refundsOf, hne]
    | _ => first | exact fun h => h | rfl
  | order id row | event id row | key k row | counter day n =>
    cases x <;> first
      | exact Table.get_put_ne _ _ (fun h => hx (by simp [Write.rows, h]))
      | rfl
      | exact fun h => h
      | exact ⟨rfl, rfl⟩
  | orderItem row | history row =>
    cases x <;> first | rfl | exact fun h => h | exact ⟨rfl, rfl⟩

/-- The database as its transactions see it. -/
def store : Store Db Write Row where
  apply := Write.apply
  rows := Write.rows
  keeps x db db' := x.Keeps db db'
  keeps_refl := Row.keeps_refl
  keeps_trans := Row.keeps_trans
  apply_keeps := Write.apply_keeps

/-! ## Queries -/

/-- Every `SELECT` of the modelled services. -/
inductive Query where
  /-- `orders`, by id -/
  | order (id : Id)
  /-- `orders`, by id and owning device -/
  | orderOf (id : Id) (deviceId : Option Id)
  /-- the payments of an order whose status is in `LIVE` -/
  | livePayments (orderId : Id)
  /-- `payments`, by id -/
  | payment (id : Id)
  /-- `payments`, by `provider_intent_id` -/
  | paymentByIntent (intentId : Option Json)
  /-- `payment_events`, by id, unless `processed_at` is set -/
  | unprocessedEvent (id : Id)
  /-- `idempotency_keys`, by key -/
  | key (key : String)
  /-- `sum(refunds.amount_minor)` over a payment -/
  | refunded (paymentId : Id)
  /-- `orders`, by id and owning device, with its lines and its history -/
  | orderDetail (id : Id) (deviceId : Option Id)
  /-- the payments of an order -/
  | paymentsOf (orderId : Id)

namespace Query

/-- What a query returns. -/
def Answer : Query → Type
  | order _ => Option Order
  | orderOf _ _ => Option Order
  | livePayments _ => List (Id × Payment)
  | payment _ => Option Payment
  | paymentByIntent _ => Option (Id × Payment)
  | unprocessedEvent _ => Option PaymentEvent
  | key _ => Option IdempotencyKey
  | refunded _ => ℤ
  | orderDetail _ _ => Option (Order × List OrderItem × List HistoryRow)
  | paymentsOf _ => List (Id × Payment)

/-- Evaluate a query. -/
def answer (db : Db) : (q : Query) → q.Answer
  | order id => db.orders.get id
  | orderOf id deviceId => (db.orders.get id).filter fun o =>
      deviceId == none || o.kioskDeviceId == deviceId
  | livePayments orderId => db.livePayments orderId
  | payment id => db.payments.get id
  | paymentByIntent intentId => (db.payments.select fun _ p =>
      p.providerIntentId.any fun i => Json.isString i intentId).head?
  | unprocessedEvent id => (db.paymentEvents.get id).filter fun e => e.processedAt.isNone
  | key k => db.idempotencyKeys.get k
  | refunded paymentId => db.refunded paymentId
  | orderDetail id deviceId => ((db.orders.get id).filter fun o =>
      deviceId == none || o.kioskDeviceId == deviceId).map fun o =>
        (o, db.itemsOf id, db.historyOf id)
  | paymentsOf orderId => db.payments.select fun _ p => p.orderId == orderId

end Query

/-! ## Statements -/

/-- The SQLSTATEs a modelled statement can raise. -/
inductive SqlState where
  /-- 23505 -/
  | uniqueViolation
  /-- 23514 -/
  | checkViolation
  /-- 22003 -/
  | numericValueOutOfRange
  deriving DecidableEq

/-- The value fits an `integer` column. -/
def int4 (n : ℤ) : Bool := decide (-2147483648 ≤ n ∧ n ≤ 2147483647)

/-- Every statement of the modelled services that writes or locks. -/
inductive Statement where
  /-- `UPDATE orders SET status = to WHERE id AND status = from RETURNING *`, clearing
  `expires_at` when `from` is `PENDING_PAYMENT` -/
  | moveOrder (id : Id) (source target : OrderStatus)
  /-- `UPDATE orders SET order_number, expires_at WHERE id RETURNING *` -/
  | queueOrder (id : Id) (orderNumber : String) (expiresAt : Instant)
  /-- `INSERT INTO orders RETURNING *` -/
  | insertOrder (row : Order)
  /-- `INSERT INTO order_items`, and their options -/
  | insertOrderItems (rows : List OrderItem)
  /-- `INSERT INTO order_status_history` -/
  | insertHistory (row : HistoryRow)
  /-- the upsert of `order_number_counters`, `RETURNING last_value` -/
  | nextCounter (businessDay : String)
  /-- `INSERT INTO payments RETURNING id` -/
  | insertPayment (row : Payment)
  /-- `UPDATE payments SET status, method WHERE id`, and `AND status NOT IN
  ('SUCCEEDED')` when guarded, `RETURNING order_id` -/
  | updatePayment (id : Id) (status : PaymentStatus) (method : Option PaymentMethod)
      (guarded : Bool)
  /-- `SELECT id FROM payments WHERE id FOR UPDATE` -/
  | lockPayment (id : Id)
  /-- `INSERT INTO refunds RETURNING id` -/
  | insertRefund (paymentId : Id) (amountMinor : ℤ) (reason : String) (initiatedByUserId : Id)
  /-- `UPDATE payment_events SET processed_at, payment_id WHERE id AND processed_at IS
  NULL RETURNING id` -/
  | stampEvent (id : Id) (paymentId : Option Id)
  /-- `INSERT INTO payment_events ON CONFLICT (provider_event_id) DO NOTHING RETURNING id` -/
  | insertEvent (providerEventId eventType : String) (payload : Json)
  /-- `INSERT INTO idempotency_keys` -/
  | insertKey (key requestHash : String) (expiresAt : Instant)
  /-- `UPDATE idempotency_keys SET response_status, response_body WHERE key` -/
  | updateKey (key : String) (responseStatus : ℕ) (responseBody : ResponseBody)

namespace Statement

/-- What a statement returns, or the SQLSTATE it raises. -/
def Answer : Statement → Type
  | moveOrder .. => Option Order
  | queueOrder .. => Except SqlState (Option Order)
  | insertOrder _ => Except SqlState Id
  | insertOrderItems _ => Except SqlState Unit
  | insertHistory _ => Unit
  | nextCounter _ => ℕ
  | insertPayment _ => Except SqlState Id
  | updatePayment .. => Option Id
  | lockPayment _ => Unit
  | insertRefund .. => Except SqlState Id
  | stampEvent .. => Bool
  | insertEvent .. => Option Id
  | insertKey .. => Except SqlState Unit
  | updateKey .. => Unit

/-- `orders_business_day_number_unique`: another order of the day has the number. -/
def numberTaken (db : Db) (id : Id) (businessDay orderNumber : String) : Bool :=
  !(db.orders.select fun id' o => id' != id && o.businessDay == businessDay &&
    o.orderNumber == some orderNumber).isEmpty

/-- The unique indexes of `payments`: intent, idempotency key, one live payment. -/
def paymentConflicts (db : Db) (row : Payment) : Bool :=
  !(db.payments.select fun _ p =>
    (p.providerIntentId.isSome && p.providerIntentId == row.providerIntentId) ||
    (p.idempotencyKey.isSome && p.idempotencyKey == row.idempotencyKey) ||
    (row.status.isLive && p.status.isLive && p.orderId == row.orderId)).isEmpty

/-- The row after `moveOrder`. -/
def moved (row : Order) (source target : OrderStatus) : Order :=
  { row with
    status := target
    expiresAt := if source = .pendingPayment then none else row.expiresAt }

/-- Evaluate a statement on the state the session sees. `fresh` is the id that
`primaryId()` generates, `now` the clock. -/
def effect (fresh : Id) (now : Instant) (db : Db) :
    (st : Statement) → Effect Write Row st.Answer
  | moveOrder id source target =>
    match db.orders.get id with
    | some row =>
      if row.status = source then
        let row' := moved row source target
        ⟨some row', [.order id row'], []⟩
      else ⟨none, [], []⟩
    | none => ⟨none, [], []⟩
  | queueOrder id orderNumber expiresAt =>
    match db.orders.get id with
    | some row =>
      if numberTaken db id row.businessDay orderNumber then ⟨.error .uniqueViolation, [], []⟩
      else
        let row' := { row with orderNumber := some orderNumber, expiresAt := some expiresAt }
        ⟨.ok (some row'), [.order id row'], []⟩
    | none => ⟨.ok none, [], []⟩
  | insertOrder row =>
    if !(int4 row.subtotalMinor && int4 row.vatMinor && int4 row.totalMinor) then
      ⟨.error .numericValueOutOfRange, [], []⟩
    else if row.orderNumber.any (numberTaken db fresh row.businessDay) then
      ⟨.error .uniqueViolation, [], []⟩
    else ⟨.ok fresh, [.order fresh row], []⟩
  | insertOrderItems rows =>
    if rows.any fun i => !(int4 i.unitPriceMinorSnapshot && int4 i.lineTotalMinor) then
      ⟨.error .numericValueOutOfRange, [], []⟩
    else if rows.any fun i => !(decide (1 ≤ i.quantity) && decide (i.quantity ≤ 50)) then
      ⟨.error .checkViolation, [], []⟩
    else ⟨.ok (), rows.map .orderItem, []⟩
  | insertHistory row => ⟨(), [.history row], []⟩
  | nextCounter day =>
    let n := db.lastValue day + 1
    ⟨n, [.counter day n], []⟩
  | insertPayment row =>
    if !(int4 row.amountMinor && row.cashTenderedMinor.all int4) then
      ⟨.error .numericValueOutOfRange, [], []⟩
    else if row.amountMinor ≤ 0 then ⟨.error .checkViolation, [], []⟩
    else if paymentConflicts db row then ⟨.error .uniqueViolation, [], []⟩
    else ⟨.ok fresh, [.payment fresh row], []⟩
  | updatePayment id status method guarded =>
    match db.payments.get id with
    | some row =>
      if guarded && row.status == .succeeded then ⟨none, [], []⟩
      else
        let row' := { row with status, method := method.or row.method }
        -- leaving `one_live_payment` holds the entry until the transaction ends
        ⟨some row.orderId, [.payment id row'],
          if row.status.isLive then [.livePayment row.orderId] else []⟩
    | none => ⟨none, [], []⟩
  | lockPayment id => ⟨(), [], [.payment id]⟩
  | insertRefund paymentId amountMinor reason initiatedByUserId =>
    if !int4 amountMinor then ⟨.error .numericValueOutOfRange, [], []⟩
    else if amountMinor ≤ 0 then ⟨.error .checkViolation, [], []⟩
    else ⟨.ok fresh, [.refund ⟨fresh, paymentId, amountMinor, reason, .succeeded,
      initiatedByUserId⟩], []⟩
  | stampEvent id paymentId =>
    match db.paymentEvents.get id with
    | some row =>
      if row.processedAt.isNone then
        ⟨true, [.event id { row with
          processedAt := some now
          paymentId := paymentId.or row.paymentId }], []⟩
      else ⟨false, [], []⟩
    | none => ⟨false, [], []⟩
  | insertEvent providerEventId eventType payload =>
    if (db.paymentEvents.select fun _ e => e.providerEventId == providerEventId).isEmpty then
      ⟨some fresh, [.event fresh ⟨providerEventId, eventType, none, payload, none⟩], []⟩
    else ⟨none, [], []⟩
  | insertKey k requestHash expiresAt =>
    match db.idempotencyKeys.get k with
    | some _ => ⟨.error .uniqueViolation, [], []⟩
    | none => ⟨.ok (), [.key k ⟨requestHash, none, none, expiresAt⟩], []⟩
  | updateKey k responseStatus responseBody =>
    match db.idempotencyKeys.get k with
    | some row => ⟨(), [.key k { row with
        responseStatus := some responseStatus, responseBody := some responseBody }], []⟩
    | none => ⟨(), [], []⟩

/-- A generated id has never been used before. -/
def idUnused (fresh : Id) (db : Db) : Statement → Bool
  | insertOrder _ => (db.orders.get fresh).isNone
  | insertPayment _ => (db.payments.get fresh).isNone
  | insertEvent .. => (db.paymentEvents.get fresh).isNone
  | _ => true

end Statement

end CafePos
