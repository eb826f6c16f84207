import CafePos.Interleaving.RelyGuarantee
import CafePos.Orders
import CafePos.Closing
import CafePos.Webhooks

/-!
# The system: every door, any number of calls

`Call` lists the doors that write orders, payments, refunds, the inbox and the
history. A world of the `system` is the database, the gateway, and all calls ever
made; a run interleaves their operations in any order. What happens by itself is the
customer at the gateway: confirming an intent, or being declined.
-/

namespace CafePos

open Interleaving

/-- A call of one of the doors. `OrderExpiryService.expireOverdue` and
`PaymentEventProcessor.drainInbox` are loops over `expireOne` and `processEvent`. -/
inductive Call where
  /-- `OrdersService.create` -/
  | createOrder (principal : Principal) (input : CreateOrderInput) (key : Option String)
  /-- `CheckoutOrderService.checkout` -/
  | checkout (principal : Principal) (orderId : Id)
  /-- `CreatePaymentService.create` -/
  | createPayment (principal : Principal) (orderId : Id) (input : CreatePaymentInput)
      (key : Option String)
  /-- `WebhookInboxService.record`, for a delivery whose signature was verified -/
  | record (event : GatewayEvent)
  /-- `PaymentEventProcessor.processEvent` -/
  | processEvent (eventId : Id)
  /-- `CancelOrderService.cancel` -/
  | cancel (principal : Principal) (orderId : Id) (reason : Option String)
  /-- `OrderExpiryService.expireOne` -/
  | expireOne (orderId : Id)
  /-- `OrderStatusService.transition` -/
  | transition (principal : Principal) (orderId : Id) (target : OrderStatus)
  /-- `CreateRefundService.refund` -/
  | refund (userId : Id) (paymentId : Id) (input : CreateRefundInput)

/-- What a call returns. -/
inductive Reply where
  | order (created : OrderCreated)
  | payment (created : PaymentCreated)
  | summary (summary : OrderSummary)
  | refund (view : RefundView)
  | recorded (eventRowId : Option Id)
  | flag (b : Bool)
  deriving DecidableEq

/-- What a call answers: its result, or what it threw. -/
abbrev Answer : Type := Except Err Reply

/-- What a call does. -/
def program (cfg : Config) : Call → Prog Op Op.Res Answer
  | .createOrder principal input key => (Reply.order <$> create cfg principal input key).run
  | .checkout principal orderId => (Reply.summary <$> checkout cfg principal orderId).run
  | .createPayment principal orderId input key =>
    (Reply.payment <$> createPayment cfg principal orderId input key).run
  | .record event => (Reply.recorded <$> record event).run
  | .processEvent eventId => (Reply.flag <$> processEvent eventId).run
  | .cancel principal orderId reason => (Reply.summary <$> cancel principal orderId reason).run
  | .expireOne orderId => (Reply.flag <$> expireOne orderId).run
  | .transition principal orderId target =>
    (Reply.summary <$> transition principal orderId target).run
  | .refund userId paymentId input => (Reply.refund <$> refund cfg userId paymentId input).run

/-- What happens without a call of ours: the customer, at the gateway. -/
inductive Happening where
  /-- the customer confirms an intent; the gateway raises a success -/
  | confirm (intentId eventId : String)
  /-- an attempt is declined; the gateway raises a failure -/
  | decline (intentId eventId : String)

/-- Carry out what happens by itself. -/
def happen (h : Happening) (s : Shared) : Option Shared :=
  match h with
  | .confirm i eventId => (s.gateway.confirm i eventId).map fun g => { s with gateway := g }
  | .decline i eventId => (s.gateway.decline i eventId).map fun g => { s with gateway := g }

theorem happen_db {h : Happening} {s s' : Shared} (hs : happen h s = some s') :
    s'.db = s.db := by
  cases h with
  | confirm i eventId | decline i eventId =>
    obtain ⟨g, -, rfl⟩ := Option.map_eq_some_iff.mp hs
    rfl

/-- The system. -/
def system (cfg : Config) : System Shared Sess Row Op Op.Res Input Call Happening Answer where
  machine := machine
  program := program cfg
  world := happen
  world_keeps {_ s s'} hs x := by
    have hdb : s'.db = s.db := happen_db hs
    change x.Keeps s.db s'.db
    rw [hdb]
    exact x.keeps_refl _

/-- A world of the system. -/
abbrev PosWorld : Type := World Shared Sess Op Op.Res Call Answer

/-- A call of the system, under way or answered. -/
abbrev PosThread : Type := Thread Sess Op Op.Res Call Answer

/-- A condition on runs of the system. -/
abbrev PosPermit : Type := Permit Shared Sess Op Call Happening

/-- An action of the system. -/
abbrev PosAct : Type := Act Input Call Happening

/-- Nothing stored, nothing at the gateway, nobody calling. -/
def opening : PosWorld := .initial ⟨.empty, .empty⟩

/-- The worlds some run reaches. -/
def Reachable (cfg : Config) (w : PosWorld) : Prop := Runs (system cfg) .all opening w

end CafePos
