import CafePos.Idempotency

/-!
# Order doors

`OrdersService.create`, `CheckoutOrderService.checkout` and the queue numbers they
claim (`orders/orders.service.ts`, `checkout/checkout-order.service.ts`,
`order-number.ts`).
-/

namespace CafePos

open Door

/-! ## Queue numbers -/

/-- `formatOrderNumber`: `A-` and the sequence, padded to three digits. -/
def formatOrderNumber (sequence : ℕ) : String :=
  String.ofList ('A' :: '-' :: List.leftpad 3 '0' (Nat.toDigits 10 sequence))

/-- `nextOrderNumber`: claim the day's next number. -/
def nextOrderNumber (businessDay : String) : Door String := do
  let lastValue : ℕ ← statement (.nextCounter businessDay)
  pure (formatOrderNumber lastValue)

/-! ## Creating an order -/

/-- `resolveChannel`: the channel matches the principal, a kiosk parks nothing, and a
paused device orders nothing. -/
def resolveChannel (principal : Principal) (input : CreateOrderInput) : Door OrderChannel := do
  let expected : OrderChannel := match principal with
    | .device _ => .kiosk
    | .staff _ => .counter
  if input.channel ≠ expected then throw (.orderChannelMismatch input.channel expected)
  else
    match principal with
    | .staff _ => pure expected
    | .device deviceId =>
      if input.draft then throw .orderDraftNotAllowed
      else do
        let status : Option DeviceStatus ← perform (.deviceStatus deviceId)
        if status = some .paused then throw .devicePaused else pure expected

/-- `readCatalog`: the rows the basket names; an item of a deactivated category is
unavailable. -/
def readCatalog (menuItemIds : List Id) : Door (List CatalogItem) := do
  let rows : List MenuItemRow ← perform (.menuItems menuItemIds)
  pure (rows.map fun item =>
    { id := item.id
      name := item.name
      basePriceMinor := item.basePriceMinor
      isAvailable := item.isAvailable && item.categoryIsActive
      optionGroups := item.optionGroups })

/-- The order row `persist` inserts. -/
def orderRow (cfg : Config) (principal : Principal) (channel : OrderChannel)
    (input : CreateOrderInput) (priced : PricedOrder) (now : Instant)
    (orderNumber : Option String) : Order :=
  { orderNumber
    businessDay := cfg.businessDayOf now
    channel
    status := if input.draft then .draft else .pendingPayment
    kioskDeviceId := match principal with
      | .device deviceId => some deviceId
      | .staff _ => none
    createdByUserId := match principal with
      | .device _ => none
      | .staff userId => some userId
    customerName := input.customerName
    subtotalMinor := priced.subtotalMinor
    vatMinor := priced.vatMinor
    totalMinor := priced.totalMinor
    currency := cfg.currency
    expiresAt := if input.draft then none else some (now + cfg.orderExpirySeconds * 1000) }

/-- The line rows `persist` inserts. -/
def itemRows (orderId : Id) (priced : PricedOrder) : List OrderItem :=
  priced.lines.map fun line =>
    { orderId
      menuItemId := line.menuItemId
      nameSnapshot := line.nameSnapshot
      unitPriceMinorSnapshot := line.unitPriceMinorSnapshot
      quantity := line.quantity
      lineTotalMinor := line.lineTotalMinor
      notes := line.notes
      options := line.options }

/-- The history row of a creation: there was no previous state. -/
def createdRow (orderId : Id) (status : OrderStatus) (principal : Principal) : HistoryRow :=
  ⟨orderId, none, status, (actorOf principal).actorType, (actorOf principal).actorId, none⟩

/-- `toView`. -/
def toView (id : Id) (order : Order) (priced : PricedOrder) : OrderView :=
  { id
    orderNumber := order.orderNumber
    status := order.status
    channel := order.channel
    businessDay := order.businessDay
    customerName := order.customerName
    expiresAt := order.expiresAt
    items := priced.lines.map fun line =>
      { nameSnapshot := line.nameSnapshot
        unitPriceMinor := line.unitPriceMinorSnapshot
        quantity := line.quantity
        lineTotalMinor := line.lineTotalMinor
        notes := line.notes
        options := line.options.map fun o =>
          (o.groupNameSnapshot, o.optionNameSnapshot, o.priceDeltaMinorSnapshot) }
    subtotalMinor := order.subtotalMinor
    vatMinor := order.vatMinor
    totalMinor := order.totalMinor
    currency := order.currency }

/-- The number a creation claims: a draft claims none. -/
def claimNumber (cfg : Config) (input : CreateOrderInput) (now : Instant) :
    Door (Option String) :=
  if input.draft then pure none else some <$> nextOrderNumber (cfg.businessDayOf now)

/-- `persist`: the order, its lines and its opening history row. A draft claims neither
a queue number nor a payment window. -/
def persist (cfg : Config) (principal : Principal) (channel : OrderChannel)
    (input : CreateOrderInput) (priced : PricedOrder) : Door OrderView := do
  let now : Instant ← perform .now
  let orderNumber ← claimNumber cfg input now
  let order := orderRow cfg principal channel input priced now orderNumber
  let id : Id ← raising (statement (.insertOrder order))
  raising (statement (.insertOrderItems (itemRows id priced)))
  statement (.insertHistory (createdRow id order.status principal))
  pure (toView id order priced)

/-- `build`: price it, refuse it, or write it. -/
def build (cfg : Config) (principal : Principal) (input : CreateOrderInput) :
    Door OrderView := do
  let channel ← resolveChannel principal input
  let catalog ← readCatalog (input.items.map RequestedItem.menuItemId)
  match priceOrder input.items catalog cfg.vatBasisPoints with
  | .error e => throw (.pricing e)
  | .ok priced =>
    if input.expectedTotalMinor.any fun expected => expected ≠ priced.totalMinor then
      throw (.priceMismatch (input.expectedTotalMinor.getD 0) priced.totalMinor)
    else persist cfg principal channel input priced

/-- What `OrdersService.create` answers: the order, or what the key stands for. The
cast of `replayKey<OrderView>` is unchecked, so the body stays what was stored. -/
structure OrderCreated where
  order : ResponseBody
  replayed : Bool
  deriving DecidableEq

/-- The fingerprint of an order request. -/
def orderHash (cfg : Config) (principal : Principal) (input : CreateOrderInput) : String :=
  cfg.hashRequest (scopeOf principal) (.order input)

/-- `OrdersService.create`: the reservation, the work and the stored response share one
transaction; a reserved key is replayed outside it. -/
def create (cfg : Config) (principal : Principal) (input : CreateOrderInput)
    (idempotencyKey : Option String) : Door OrderCreated :=
  match idempotencyKey with
  | none => do
    let view ← transaction (build cfg principal input)
    pure ⟨.order view, false⟩
  | some key =>
    let requestHash := orderHash cfg principal input
    tryCatch
      (do
        let view ← transaction do
          reserveKey key requestHash (← keyExpiry)
          let view ← build cfg principal input
          completeKey key 201 (.order view)
          pure view
        pure ⟨.order view, false⟩)
      fun error =>
        if isKeyAlreadyReserved error then do
          let body ← replayKey key requestHash
          pure ⟨body, true⟩
        else throw error

/-! ## Checking out a parked order -/

/-- `CheckoutOrderService.checkout`: the number and the payment window are claimed after
the guarded move, for the business day stamped at creation. -/
def checkout (cfg : Config) (principal : Principal) (orderId : Id) : Door OrderSummary :=
  transaction do
    match ← (selectTx (.order orderId) : Door (Option Order)) with
    | none => throw (.resourceNotFound "order" orderId)
    | some current =>
      if current.status ≠ .draft then
        throw (.orderInvalidTransition current.status .pendingPayment)
      else do
        let _ ← transitionOrder
          { orderId, source := .draft, target := .pendingPayment, actor := actorOf principal }
        let orderNumber ← nextOrderNumber current.businessDay
        let now : Instant ← perform .now
        match ← raising (statement (.queueOrder orderId orderNumber
            (now + cfg.orderExpirySeconds * 1000))) with
        | none => throw .typeError
        | some queued => pure (toOrderSummary orderId queued)

end CafePos
