import CafePos.Interleaving.World
import CafePos.Database
import CafePos.Pricing

/-!
# Operations: what a service call asks of the outside

The operations of a call, the answers they get, and their meaning on the shared
state (`machine`). A call talks to Postgres through its session, to Stripe, to the
clock, and to two tables other services write (the menu and the devices), whose rows
are whatever the outside supplies.
-/

namespace CafePos

open Interleaving

/-! ## Errors -/

/-- What a call can throw: the application's exceptions, with the arguments their
constructors take, the private signal of `idempotency.store.ts`, and faults of the
parties it talks to. -/
inductive Err where
  /-- `ResourceNotFoundError` -/
  | resourceNotFound (resource : String) (id : Id)
  /-- `OrderInvalidTransitionError` -/
  | orderInvalidTransition (currentStatus requested : OrderStatus)
  /-- `OrderChannelMismatchError` -/
  | orderChannelMismatch (submitted expected : OrderChannel)
  /-- `OrderDraftNotAllowedError` -/
  | orderDraftNotAllowed
  /-- `DevicePausedError` -/
  | devicePaused
  /-- `OptionSelectionInvalidError` or `OrderItemUnavailableError` -/
  | pricing (error : PricingError)
  /-- `PriceMismatchError` -/
  | priceMismatch (expectedTotalMinor actualTotalMinor : ℤ)
  /-- `IdempotencyConflictError` -/
  | idempotencyConflict
  /-- `KeyAlreadyReserved`, never seen by a client -/
  | keyAlreadyReserved
  /-- `OrderExpiredError` -/
  | orderExpired
  /-- `OrderNotPayableError` -/
  | orderNotPayable (currentStatus : OrderStatus)
  /-- `PaymentAlreadyActiveError` -/
  | paymentAlreadyActive (activePaymentId : Id)
  /-- `CashPaymentNotAllowedError` -/
  | cashPaymentNotAllowed
  /-- `CashTenderInsufficientError` -/
  | cashTenderInsufficient (tenderedMinor requiredMinor : ℤ)
  /-- `OrderAlreadyPaidError` -/
  | orderAlreadyPaid
  /-- `DependencyUnavailableError` -/
  | dependencyUnavailable (detail : String)
  /-- `PaymentNotRefundableError` -/
  | paymentNotRefundable (reason : String)
  /-- `RefundExceedsRemainingError` -/
  | refundExceedsRemaining (requestedMinor remainingMinor : ℤ)
  /-- an error of the Stripe SDK that nothing above translates -/
  | stripe
  /-- a driver error that nothing above translates -/
  | sql (state : SqlState)
  /-- a JavaScript `TypeError` -/
  | typeError
  deriving DecidableEq

/-- The public error code of an exception; what no filter recognises is `INTERNAL`. -/
def Err.code : Err → String
  | resourceNotFound .. => "RESOURCE_NOT_FOUND"
  | orderInvalidTransition .. => "ORDER_INVALID_TRANSITION"
  | orderChannelMismatch .. => "VALIDATION_FAILED"
  | orderDraftNotAllowed => "VALIDATION_FAILED"
  | devicePaused => "DEVICE_PAUSED"
  | pricing (.optionSelectionInvalid _) => "OPTION_SELECTION_INVALID"
  | pricing (.orderItemUnavailable ..) => "ORDER_ITEM_UNAVAILABLE"
  | priceMismatch .. => "PRICE_MISMATCH"
  | idempotencyConflict => "IDEMPOTENCY_CONFLICT"
  | orderExpired => "ORDER_EXPIRED"
  | orderNotPayable _ => "ORDER_NOT_PAYABLE"
  | paymentAlreadyActive _ => "PAYMENT_ALREADY_ACTIVE"
  | cashPaymentNotAllowed => "FORBIDDEN_ROLE"
  | cashTenderInsufficient .. => "CASH_TENDER_INSUFFICIENT"
  | orderAlreadyPaid => "ORDER_ALREADY_PAID"
  | dependencyUnavailable _ => "DEPENDENCY_UNAVAILABLE"
  | paymentNotRefundable _ => "PAYMENT_NOT_REFUNDABLE"
  | refundExceedsRemaining .. => "REFUND_EXCEEDS_REMAINING"
  | keyAlreadyReserved => "INTERNAL"
  | stripe => "INTERNAL"
  | sql _ => "INTERNAL"
  | typeError => "INTERNAL"

/-! ## Operations -/

/-- `DomainEvent`: what is announced once a transaction has committed. -/
inductive DomainEvent where
  | orderPaid (orderId : Id) (deviceId : Option Id)
  | orderUpdated (orderId : Id) (deviceId : Option Id)
  | orderReady (orderId : Id) (deviceId : Option Id)
  | paymentSucceeded (orderId : Id) (deviceId : Option Id) (paymentId : Id)
  | paymentFailed (orderId : Id) (deviceId : Option Id) (paymentId : Id)
  deriving DecidableEq

/-- A row of `menu_items` with its category's publish switch and its groups. -/
structure MenuItemRow where
  id : Id
  name : String
  basePriceMinor : ℤ
  isAvailable : Bool
  categoryIsActive : Bool
  optionGroups : List CatalogOptionGroup

/-- How a request to Stripe can fail. -/
inductive StripeError where
  /-- no connection, its own 5xx, or its rate limit -/
  | unreachable
  /-- `StripeInvalidRequestError` -/
  | invalidRequest
  deriving DecidableEq

/-- `CreateIntentRequest`. -/
structure CreateIntentRequest where
  amountMinor : ℤ
  currency : String
  idempotencyKey : Option String
  /-- `metadata.orderId` -/
  orderId : Id

/-- What `paymentIntents.retrieve` shows of an intent. -/
structure RetrievedIntent where
  status : IntentStatus
  clientSecret : ClientSecret
  /-- `latest_charge.payment_method_details.type`, if the charge is there -/
  chargeType : Option String

/-- Which connection a `SELECT` uses: the pool (`this.db`) or the transaction. -/
inductive Conn where
  | pool | tx

/-- An operation of a call. -/
inductive Op where
  /-- `new Date()` -/
  | now
  /-- `BEGIN` -/
  | begin
  /-- `COMMIT` -/
  | commit
  /-- `ROLLBACK` -/
  | rollback
  /-- a `SELECT` on our tables -/
  | query (conn : Conn) (q : Query)
  /-- a statement that writes or locks -/
  | statement (st : Statement)
  /-- the rows of `menu_items` among the given ids -/
  | menuItems (ids : List Id)
  /-- `kiosk_devices.status`, by id -/
  | deviceStatus (deviceId : Id)
  /-- `stripe.paymentIntents.create` -/
  | stripeCreate (request : CreateIntentRequest)
  /-- `stripe.paymentIntents.cancel` -/
  | stripeCancel (intentId : String)
  /-- `stripe.paymentIntents.retrieve` -/
  | stripeRetrieve (intentId : String)
  /-- `publisher.publish` -/
  | publish (events : List DomainEvent)

/-- What an operation returns. -/
def Op.Res : Op → Type
  | now => Instant
  | begin => Unit
  | commit => Unit
  | rollback => Unit
  | query _ q => q.Answer
  | statement st => st.Answer
  | menuItems _ => List MenuItemRow
  | deviceStatus _ => Option DeviceStatus
  | stripeCreate _ => Except StripeError (String × ClientSecret)
  | stripeCancel _ => Except StripeError Unit
  | stripeRetrieve _ => Except StripeError RetrievedIntent
  | publish _ => Unit

/-- What the outside supplies to one operation. -/
structure Input where
  /-- the id `primaryId()` generates -/
  fresh : Id := 0
  /-- the ids Stripe generates, for an intent or an event -/
  stripeId : String := ""
  /-- the clock -/
  now : Instant := 0
  /-- the table of menu items -/
  menu : List MenuItemRow := []
  /-- the device's row -/
  device : Option DeviceStatus := none
  /-- Stripe answers -/
  reachable : Bool := true
  /-- the charge of a retrieved intent -/
  chargeType : Option String := none

/-- A connection of one call. -/
abbrev Sess : Type := Session Write Row DomainEvent store.rows

/-! ## Stripe -/

/-- `paymentIntents.create`: under a key seen before, the first intent again if the
parameters agree, a refusal otherwise. -/
def stripeCreate (inp : Input) (request : CreateIntentRequest) (g : Gateway) :
    Option (Except StripeError (String × ClientSecret) × Gateway) :=
  let currency := toLowerCase request.currency
  if !inp.reachable then some (.error .unreachable, g)
  else
    match g.byKey request.idempotencyKey with
    | some (i, it) =>
      if it.amount = request.amountMinor ∧ it.currency = currency ∧ it.orderId = request.orderId
      then some (.ok (i, ⟨i⟩), g)
      else some (.error .invalidRequest, g)
    | none =>
      match g.intents.get inp.stripeId with
      | some _ => none
      | none => some (.ok (inp.stripeId, ⟨inp.stripeId⟩), { g with
          intents := g.intents.put inp.stripeId
            ⟨request.amountMinor, currency, request.orderId, request.idempotencyKey,
              .confirmable⟩ })

/-- `paymentIntents.cancel`: refused unless the intent is unpaid and not cancelled. -/
def stripeCancel (inp : Input) (i : String) (g : Gateway) : Except StripeError Unit × Gateway :=
  if !inp.reachable then (.error .unreachable, g)
  else
    match g.intents.get i with
    | some it =>
      if it.status = .confirmable then
        (.ok (), (g.setStatus i it .canceled).raise inp.stripeId "payment_intent.canceled" i it)
      else (.error .invalidRequest, g)
    | none => (.error .invalidRequest, g)

/-- `paymentIntents.retrieve`. -/
def stripeRetrieve (inp : Input) (i : String) (g : Gateway) :
    Except StripeError RetrievedIntent :=
  if !inp.reachable then .error .unreachable
  else
    match g.intents.get i with
    | some it => .ok ⟨it.status, ⟨i⟩, inp.chargeType⟩
    | none => .error .invalidRequest

/-! ## The machine -/

/-- What a `SELECT` sees: the transaction's own writes too, on its connection. -/
def Conn.sees (conn : Conn) (l : Sess) (db : Db) : Db :=
  match conn with
  | .pool => db
  | .tx => l.view store db

/-- Perform one operation. -/
def exec (inp : Input) (locked : Row → Bool) (l : Sess) (s : Shared) :
    (o : Op) → Option (o.Res × Sess × Shared)
  | .now => some (inp.now, l, s)
  | .begin => some ((), l.begin, s)
  | .commit =>
    let r := l.commit store s.db
    some ((), r.1, { s with db := r.2 })
  | .rollback => some ((), l.rollback, s)
  | .query conn q => some (q.answer (conn.sees l s.db), l, s)
  | .statement st =>
    if st.idUnused inp.fresh (l.view store s.db) then
      (l.execute store (fun db => st.effect inp.fresh inp.now db) locked s.db).map fun r =>
        (r.1, r.2.1, { s with db := r.2.2 })
    else none
  | .menuItems ids => some (inp.menu.filter fun m => ids.contains m.id, l, s)
  | .deviceStatus _ => some (inp.device, l, s)
  | .stripeCreate request =>
    (stripeCreate inp request s.gateway).map fun r => (r.1, l, { s with gateway := r.2 })
  | .stripeCancel i =>
    let r := stripeCancel inp i s.gateway
    some (r.1, l, { s with gateway := r.2 })
  | .stripeRetrieve i => some (stripeRetrieve inp i s.gateway, l, s)
  | .publish events => some ((), l.publish events, s)

theorem exec_held {o : Op} {inp : Input} {locked : Row → Bool} {l l' : Sess} {s s' : Shared}
    {r : o.Res} (h : exec inp locked l s o = some (r, l', s')) :
    ∀ x ∈ l'.held, x ∈ l.held ∨ locked x = false := by
  cases o with
  | statement st =>
    simp only [exec] at h
    split at h
    · obtain ⟨r', hr, hr'⟩ := Option.map_eq_some_iff.mp h
      obtain ⟨-, rfl, -⟩ := Prod.mk.inj hr' |>.imp_right Prod.mk.inj
      exact Session.execute_held hr
    · cases h
  | stripeCreate request =>
    obtain ⟨r', -, hr'⟩ := Option.map_eq_some_iff.mp h
    obtain ⟨-, rfl, -⟩ := Prod.mk.inj hr' |>.imp_right Prod.mk.inj
    exact fun x hx => Or.inl hx
  | begin | commit | rollback =>
    obtain ⟨-, rfl, -⟩ := Option.some.inj h |> Prod.mk.inj |>.imp_right Prod.mk.inj
    exact fun x hx => absurd hx List.not_mem_nil
  | now | query | menuItems | deviceStatus | stripeCancel | stripeRetrieve | publish =>
    obtain ⟨-, rfl, -⟩ := Option.some.inj h |> Prod.mk.inj |>.imp_right Prod.mk.inj
    exact fun x hx => Or.inl hx

theorem exec_keeps {o : Op} {inp : Input} {locked : Row → Bool} {l l' : Sess} {s s' : Shared}
    {r : o.Res} (h : exec inp locked l s o = some (r, l', s'))
    (hfree : ∀ x ∈ l.held, locked x = false) (x : Row) (hx : locked x = true) :
    x.Keeps s.db s'.db := by
  cases o with
  | statement st =>
    simp only [exec] at h
    split at h
    · obtain ⟨r', hr, hr'⟩ := Option.map_eq_some_iff.mp h
      obtain ⟨-, -, rfl⟩ := Prod.mk.inj hr' |>.imp_right Prod.mk.inj
      exact Session.execute_keeps hr hx
    · cases h
  | commit =>
    obtain ⟨-, -, rfl⟩ := Option.some.inj h |> Prod.mk.inj |>.imp_right Prod.mk.inj
    refine Session.commit_keeps (D := store) (fun hheld => ?_) s.db
    rw [hfree x hheld] at hx
    cases hx
  | stripeCreate request =>
    obtain ⟨r', -, hr'⟩ := Option.map_eq_some_iff.mp h
    obtain ⟨-, -, rfl⟩ := Prod.mk.inj hr' |>.imp_right Prod.mk.inj
    exact x.keeps_refl _
  | now | begin | rollback | query | menuItems | deviceStatus | stripeCancel | stripeRetrieve
  | publish =>
    obtain ⟨-, -, rfl⟩ := Option.some.inj h |> Prod.mk.inj |>.imp_right Prod.mk.inj
    exact x.keeps_refl _

/-- The database changes by commits only, and a session's record keeps every log it
committed. -/
theorem exec_db {o : Op} {inp : Input} {locked : Row → Bool} {l l' : Sess} {s s' : Shared}
    {r : o.Res} (h : exec inp locked l s o = some (r, l', s')) :
    l'.committed = l.committed ∧ s'.db = s.db ∨
      ∃ ws, l'.committed = l.committed ++ [ws] ∧ s'.db = store.applyAll ws s.db := by
  cases o with
  | statement st =>
    simp only [exec] at h
    split at h
    · obtain ⟨r', hr, hr'⟩ := Option.map_eq_some_iff.mp h
      obtain ⟨-, rfl, rfl⟩ := Prod.mk.inj hr' |>.imp_right Prod.mk.inj
      simp only [Session.execute] at hr
      split at hr
      · cases hr
      · split at hr
        · obtain rfl := Option.some.inj hr
          exact Or.inl ⟨rfl, rfl⟩
        · split at hr
          · obtain rfl := Option.some.inj hr
            exact Or.inl ⟨rfl, rfl⟩
          · obtain rfl := Option.some.inj hr
            exact Or.inr ⟨_, rfl, rfl⟩
    · cases h
  | commit =>
    obtain ⟨-, rfl, rfl⟩ := Option.some.inj h |> Prod.mk.inj |>.imp_right Prod.mk.inj
    exact Or.inr ⟨l.log, rfl, rfl⟩
  | stripeCreate request =>
    obtain ⟨r', -, hr'⟩ := Option.map_eq_some_iff.mp h
    obtain ⟨-, rfl, rfl⟩ := Prod.mk.inj hr' |>.imp_right Prod.mk.inj
    exact Or.inl ⟨rfl, rfl⟩
  | now | begin | rollback | query | menuItems | deviceStatus | stripeCancel | stripeRetrieve
  | publish =>
    obtain ⟨-, rfl, rfl⟩ := Option.some.inj h |> Prod.mk.inj |>.imp_right Prod.mk.inj
    exact Or.inl ⟨rfl, rfl⟩

/-- The meaning of the operations. -/
def machine : Machine Shared Sess Row Op Op.Res Input where
  idle := Session.idle store.rows
  held := Session.held
  abort := Session.rollback
  exec o inp locked l s := exec inp locked l s o
  keeps x s s' := x.Keeps s.db s'.db
  idle_held := rfl
  abort_held _ := rfl
  keeps_refl x s := x.keeps_refl s.db
  keeps_trans x _ _ _ h₁ h₂ := x.keeps_trans _ _ _ h₁ h₂
  exec_held := exec_held
  exec_keeps := exec_keeps

/-! ## Doors -/

/-- A service call: a program that may throw. -/
abbrev Door (α : Type) : Type := ExceptT Err (Prog Op Op.Res) α

namespace Door

/-- Perform one operation. -/
def perform (o : Op) : Door o.Res := ExceptT.lift (Prog.perform o)

/-- A `SELECT` through the pool. -/
def select (q : Query) : Door q.Answer := perform (.query .pool q)

/-- A `SELECT` inside the transaction. -/
def selectTx (q : Query) : Door q.Answer := perform (.query .tx q)

/-- A statement. -/
def statement (st : Statement) : Door st.Answer := perform (.statement st)

/-- A statement that may raise an SQLSTATE. -/
def raising {α : Type} (m : Door (Except SqlState α)) : Door α := do
  match ← m with
  | .ok a => pure a
  | .error state => throw (.sql state)

/-- `db.transaction(work)`: commit what `work` did, or roll it back and rethrow. -/
def transaction {α : Type} (work : Door α) : Door α := ExceptT.mk do
  Prog.perform Op.begin
  match ← work.run with
  | .ok a =>
    Prog.perform Op.commit
    pure (.ok a)
  | .error e =>
    Prog.perform Op.rollback
    pure (.error e)

/-- `AfterCommit.run(work)`: what `work` emitted is published once it has committed. -/
def afterCommit {α : Type} (work : Door (α × List DomainEvent)) : Door α := do
  let (result, pending) ← transaction work
  if pending.isEmpty then pure result
  else do
    perform (.publish pending)
    pure result

end Door

end CafePos
