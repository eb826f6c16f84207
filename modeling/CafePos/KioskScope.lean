import CafePos.Interleaving.Alone
import CafePos.Secrets
import CafePos.Lookups

/-!
# What a kiosk learns about other orders

A kiosk that asks about an order of another device, or of the counter, is answered as if there
were no such order. Four doors take an order's id from a kiosk (`Probe`). Each is run twice: in
a reachable state, and in the same state without the order (`Db.without`). What it answers and
what it asks of the outside is the same.
-/

namespace CafePos

open Interleaving

variable {cfg : Config}

/-! ## The state without an order -/

/-- The payment belongs to the order. -/
def Db.isPaymentOf (db : Db) (orderId paymentId : Id) : Bool :=
  (db.payments.get paymentId).any fun p => p.orderId == orderId

/-- Everything but an order, its lines, its history, its payments and their refunds. -/
def Db.without (db : Db) (orderId : Id) : Db :=
  { db with
    orders := db.orders.keep fun id _ => id != orderId
    orderItems := db.orderItems.filter fun i => i.orderId != orderId
    orderStatusHistory := db.orderStatusHistory.filter fun h => h.orderId != orderId
    payments := db.payments.keep fun _ p => p.orderId != orderId
    refunds := db.refunds.filter fun r => !db.isPaymentOf orderId r.paymentId }

/-- The shared state without an order. -/
def Shared.without (s : Shared) (orderId : Id) : Shared := ⟨s.db.without orderId, s.gateway⟩

theorem Db.without_order (db : Db) (orderId : Id) :
    (db.without orderId).orders.get orderId = none := by
  rw [Db.without, Table.get_keep]
  cases db.orders.get orderId <;> simp

/-! ## Probes -/

/-- What a kiosk can ask about an order's id. -/
inductive Probe where
  /-- `OrdersReadService.detail` -/
  | detail
  /-- `CancelOrderService.cancel` -/
  | cancel (reason : Option String)
  /-- `CreatePaymentService.create` -/
  | createPayment (input : CreatePaymentInput) (key : Option String)
  /-- `OrderPaymentsService.listFor` -/
  | listFor

/-- What it can be told. -/
inductive ProbeReply where
  | detail (detail : OrderDetail)
  | summary (summary : OrderSummary)
  | payment (created : PaymentCreated)
  | attempts (attempts : List PaymentAttemptView)
  deriving DecidableEq

/-- The door behind a probe. -/
def Probe.door (cfg : Config) (stamps : Stamps) (deviceId orderId : Id) : Probe → Door ProbeReply
  | .detail => ProbeReply.detail <$> CafePos.detail stamps (.device deviceId) orderId
  | .cancel reason => ProbeReply.summary <$> CafePos.cancel (.device deviceId) orderId reason
  | .createPayment input key =>
    ProbeReply.payment <$> CafePos.createPayment cfg (.device deviceId) orderId input key
  | .listFor => ProbeReply.attempts <$> CafePos.listFor stamps (.device deviceId) orderId

/-- Run a probe on a fresh connection. -/
def Probe.run (cfg : Config) (stamps : Stamps) (deviceId orderId : Id) (inp : ℕ → Input)
    (locked : Row → Bool) (p : Probe) (s : Shared) :
    Option (List Op × Except Err ProbeReply × Sess × Shared) :=
  (p.door cfg stamps deviceId orderId).run.traced machine locked inp idle s

/-- A request to the gateway. -/
def Op.isGateway : Op → Bool
  | stripeCreate _ => true
  | stripeCancel _ => true
  | stripeRetrieve _ => true
  | _ => false

/-- The door `m` ends in `r` after the operations `ops`, whatever the others hold, and leaves
everything as it was. -/
def Reads {α : Type} (m : Door α) (s : Shared) (ops : List Op) (r : Except Err α) : Prop :=
  ∀ inp locked, m.run.traced machine locked inp idle s = some (ops, r, idle, s)

namespace Reads

variable {α β : Type} {s : Shared} {ops ops' : List Op} {e : Err}

theorem pure (a : α) : Reads (Pure.pure a : Door α) s [] (.ok a) := fun _ _ => rfl

theorem throw (e : Err) : Reads (MonadExcept.throw e : Door α) s [] (.error e) := fun _ _ => rfl

theorem select (q : Query) :
    Reads (Door.select q) s [.query .pool q] (.ok (q.answer s.db)) := fun _ _ => rfl

theorem bind {m : Door α} {f : α → Door β} {a : α} {r : Except Err β}
    (hm : Reads m s ops (.ok a)) (hf : Reads (f a) s ops' r) :
    Reads (m >>= f) s (ops ++ ops') r := by
  intro inp locked
  refine (Prog.traced_bind (hm inp locked)).trans ?_
  change Option.map _ ((f a).run.traced machine locked _ idle s) = _
  rw [hf]
  rfl

/-- A read, and what is done with its answer. -/
theorem select_bind {q : Query} {f : q.Answer → Door β} {r : Except Err β}
    (hf : Reads (f (q.answer s.db)) s ops r) :
    Reads (Door.select q >>= f) s (.query .pool q :: ops) r := (select q).bind hf

/-- What follows a door that throws is not performed. -/
theorem bind_error {m : Door α} {f : α → Door β} (hm : Reads m s ops (.error e)) :
    Reads (m >>= f) s ops (.error e) := by
  intro inp locked
  refine (Prog.traced_bind (hm inp locked)).trans ?_
  change some (ops ++ [], Except.error e, idle, s) = _
  rw [List.append_nil]

theorem map_error {m : Door α} {f : α → β} (hm : Reads m s ops (.error e)) :
    Reads (f <$> m) s ops (.error e) := hm.bind_error

end Reads

/-! ## Each door -/

section doors

variable {deviceId orderId : Id} {s : Shared}

/-- The order is another device's, or the counter's, or there is none. -/
def Db.hides (db : Db) (deviceId orderId : Id) : Prop :=
  ∀ o, db.orders.get orderId = some o → o.kioskDeviceId ≠ some deviceId

theorem Db.hides.foreign {db : Db} (h : db.hides deviceId orderId) {o : Order}
    (ho : db.orders.get orderId = some o) : foreign (.device deviceId) o = true := by
  simpa [CafePos.foreign] using h o ho

/-- The lookup that names the device finds nothing. -/
theorem Db.hides.filter_eq_none {db : Db} (h : db.hides deviceId orderId) :
    ((db.orders.get orderId).filter fun o =>
      some deviceId == none || o.kioskDeviceId == some deviceId) = none := by
  cases ho : db.orders.get orderId with
  | none => rfl
  | some o => simp [h o ho]

theorem detail_refuses (stamps : Stamps) (h : s.db.hides deviceId orderId) :
    Reads (detail stamps (.device deviceId) orderId) s
      [.query .pool (.orderDetail orderId (some deviceId))]
      (.error (.resourceNotFound "order" orderId)) := by
  have hnone : Query.answer s.db (.orderDetail orderId (some deviceId)) = none := by
    simp only [Query.answer, h.filter_eq_none]
    rfl
  refine Reads.select_bind ?_
  simp only [scopeDevice, hnone]
  exact .throw _

theorem cancel_refuses (reason : Option String) (h : s.db.hides deviceId orderId) :
    Reads (cancel (.device deviceId) orderId reason) s
      [.query .pool (.orderOf orderId (some deviceId))]
      (.error (.resourceNotFound "order" orderId)) := by
  have hnone : Query.answer s.db (.orderOf orderId (some deviceId)) = none := h.filter_eq_none
  refine Reads.select_bind ?_
  simp only [scopeDevice, hnone]
  exact .throw _

theorem listFor_refuses (stamps : Stamps) (h : s.db.hides deviceId orderId) :
    Reads (listFor stamps (.device deviceId) orderId) s [.query .pool (.order orderId)]
      (.error (.resourceNotFound "order" orderId)) := by
  refine Reads.select_bind ?_
  cases ho : s.db.orders.get orderId with
  | none =>
    simp only [Query.answer, ho]
    exact .throw _
  | some o =>
    simp only [Query.answer, ho, h.foreign ho, if_true]
    exact .throw _

theorem loadPayableOrder_refuses (h : s.db.hides deviceId orderId) :
    Reads (loadPayableOrder (.device deviceId) orderId) s [.query .pool (.order orderId)]
      (.error (.resourceNotFound "order" orderId)) := by
  refine Reads.select_bind ?_
  cases ho : s.db.orders.get orderId with
  | none =>
    simp only [Query.answer, ho]
    exact .throw _
  | some o =>
    simp only [Query.answer, ho, h.foreign ho, if_true]
    exact .throw _

/-- What follows the replay check refuses, whatever is asked for. -/
theorem pay_refuses (input : CreatePaymentInput) (reservation : Option (String × String))
    (h : s.db.hides deviceId orderId) :
    Reads (pay (.device deviceId) orderId input reservation) s [.query .pool (.order orderId)]
      (.error (.resourceNotFound "order" orderId)) :=
  (loadPayableOrder_refuses h).bind_error

/-- What a key has already answered. -/
def answeredUnder (db : Db) (k : String) : Option (String × ResponseBody) :=
  (db.idempotencyKeys.get k).bind fun row => row.responseBody.map fun body =>
    (row.requestHash, body)

theorem completedResponseFor_reads (k : String) :
    Reads (completedResponseFor k) s [.query .pool (.key k)] (.ok (answeredUnder s.db k)) := by
  refine Reads.select_bind ?_
  cases hrow : s.db.idempotencyKeys.get k with
  | none =>
    simp only [Query.answer, answeredUnder, hrow]
    exact .pure _
  | some row =>
    simp only [Query.answer, answeredUnder, hrow]
    exact .pure _

/-- What `CreatePaymentService.create` answers a kiosk about an order that is hidden from it,
and what it reads after the key. -/
def paymentRefusal (orderId : Id) (answered : Option (String × ResponseBody)) : List Op × Err :=
  match answered with
  | some _ => ([], .idempotencyConflict)
  | none => ([.query .pool (.order orderId)], .resourceNotFound "order" orderId)

theorem createPayment_refuses {input : CreatePaymentInput} {k : String}
    (h : s.db.hides deviceId orderId)
    (hkey : ∀ hash body, answeredUnder s.db k = some (hash, body) →
      hash ≠ paymentHash cfg (.device deviceId) orderId input) :
    Reads (createPayment cfg (.device deviceId) orderId input (some k)) s
      (.query .pool (.key k) :: (paymentRefusal orderId (answeredUnder s.db k)).1)
      (.error (paymentRefusal orderId (answeredUnder s.db k)).2) := by
  refine (completedResponseFor_reads k).bind ?_
  cases hans : answeredUnder s.db k with
  | none => exact pay_refuses input _ h
  | some answered =>
    obtain ⟨hash, body⟩ := answered
    have hne := hkey hash body hans
    simp only [ne_eq, hne, not_false_eq_true, if_true]
    exact .throw _

end doors

/-- The operations and the error with which a probe of a hidden order ends. -/
def Probe.refusal (deviceId orderId : Id) (db : Db) : Probe → List Op × Err
  | .detail => ([.query .pool (.orderDetail orderId (some deviceId))],
      .resourceNotFound "order" orderId)
  | .cancel _ => ([.query .pool (.orderOf orderId (some deviceId))],
      .resourceNotFound "order" orderId)
  | .createPayment _ none => ([.query .pool (.order orderId)], .resourceNotFound "order" orderId)
  | .createPayment _ (some k) =>
    (.query .pool (.key k) :: (paymentRefusal orderId (answeredUnder db k)).1,
      (paymentRefusal orderId (answeredUnder db k)).2)
  | .listFor => ([.query .pool (.order orderId)], .resourceNotFound "order" orderId)

/-- A refusal does not ask the gateway. -/
theorem Probe.refusal_not_gateway (deviceId orderId : Id) (db : Db) (p : Probe) :
    ∀ o ∈ (p.refusal deviceId orderId db).1, o.isGateway = false := by
  cases p with
  | createPayment input key =>
    cases key with
    | none => simp [Probe.refusal, Op.isGateway]
    | some k =>
      simp only [Probe.refusal, paymentRefusal, List.forall_mem_cons]
      cases answeredUnder db k <;> simp [Op.isGateway]
  | _ => simp [Probe.refusal, Op.isGateway]

/-- No key that has answered has the fingerprint of a payment request of the kiosk for the
order. -/
def KeysElsewhere (cfg : Config) (db : Db) (deviceId orderId : Id) : Prop :=
  ∀ k input hash body, answeredUnder db k = some (hash, body) →
    hash ≠ paymentHash cfg (.device deviceId) orderId input

/-- A probe of a hidden order is refused. -/
theorem Probe.refuses {deviceId orderId : Id} {s : Shared} (stamps : Stamps)
    (h : s.db.hides deviceId orderId) (hkeys : KeysElsewhere cfg s.db deviceId orderId)
    (p : Probe) : Reads (p.door cfg stamps deviceId orderId) s (p.refusal deviceId orderId s.db).1
      (.error (p.refusal deviceId orderId s.db).2) := by
  cases p with
  | detail => exact (detail_refuses stamps h).map_error
  | cancel reason => exact (cancel_refuses reason h).map_error
  | listFor => exact (listFor_refuses stamps h).map_error
  | createPayment input key =>
    cases key with
    | none => exact (pay_refuses input none h).map_error
    | some k => exact (createPayment_refuses h (hkeys k input)).map_error

/-! ## Two runs -/

/-- In a reachable state no key that has answered has the fingerprint of a payment request for
an order that is hidden from the kiosk. -/
theorem Reachable.keysElsewhere {w : PosWorld} (h : Reachable cfg w) (hcfg : cfg.HashesApart)
    {deviceId orderId : Id} {o : Order} (ho : w.shared.db.orders.get orderId = some o)
    (hforeign : foreign (.device deviceId) o = true) :
    KeysElsewhere cfg w.shared.db deviceId orderId := by
  intro k input hash body hans hhash
  obtain ⟨row, hrow, hbody⟩ := Option.bind_eq_some_iff.mp hans
  obtain ⟨body', -, hpair⟩ := Option.map_eq_some_iff.mp hbody
  obtain ⟨rfl, -⟩ := Prod.mk.inj hpair
  obtain ⟨view, p, o', -, -, -, ho', hmine⟩ := h.keyMeaning_payment hcfg hrow hhash
  obtain rfl := Option.some.inj (ho.symm.trans ho')
  rw [hforeign] at hmine
  cases hmine

/-- A kiosk asks about an order that is not its own, in any reachable state and whatever the
others are doing. It gets the same error as in the state without that order, by the same reads;
the gateway is not asked, and nothing changes. -/
theorem kiosk_learns_nothing (hcfg : cfg.HashesApart) {w : PosWorld} (h : Reachable cfg w)
    {deviceId orderId : Id} {o : Order} (ho : w.shared.db.orders.get orderId = some o)
    (hforeign : o.kioskDeviceId ≠ some deviceId) (stamps : Stamps) (p : Probe) :
    ∃ ops e, (∀ o ∈ ops, o.isGateway = false) ∧ ∀ inp locked,
      p.run cfg stamps deviceId orderId inp locked w.shared =
        some (ops, .error e, idle, w.shared) ∧
      p.run cfg stamps deviceId orderId inp locked (w.shared.without orderId) =
        some (ops, .error e, idle, w.shared.without orderId) := by
  have hhides : w.shared.db.hides deviceId orderId := by
    intro o' ho'
    obtain rfl := Option.some.inj (ho.symm.trans ho')
    exact hforeign
  have hwithout : (w.shared.without orderId).db.hides deviceId orderId := by
    intro o' ho'
    rw [Shared.without, Db.without_order] at ho'
    cases ho'
  -- the keys are not part of an order: both states have the same ones
  have hkeys := h.keysElsewhere hcfg ho (hhides.foreign ho)
  refine ⟨_, (p.refusal deviceId orderId w.shared.db).2,
    p.refusal_not_gateway deviceId orderId w.shared.db, fun inp locked => ⟨?_, ?_⟩⟩
  · exact p.refuses stamps hhides hkeys inp locked
  · exact p.refuses stamps hwithout hkeys inp locked

/-- An order of the counter was paid under key `k`; kiosk 3 presents the key. -/
theorem kiosk_learns_nothing_key : ∃ w o, Reachable carefulCafe w ∧
    w.shared.db.orders.get 100 = some o ∧ (answeredUnder w.shared.db "k").isSome ∧
    ∃ ops e, ∀ inp locked,
      Probe.run carefulCafe ⟨fun _ => 0, fun _ => 0, fun _ => 0⟩ 3 100 inp locked
        (.createPayment ⟨.card, none⟩ (some "k")) w.shared =
          some (ops, .error e, idle, w.shared) := by
  obtain ⟨w, hw, horder, hkey⟩ := Reachable.exists_of_runIf carefulCafe (takeOrder ++ payTwice)
    (fun w => (w.shared.db.orders.get 100).any (fun o => o.kioskDeviceId != some 3) ∧
      (answeredUnder w.shared.db "k").isSome) (by decide)
  obtain ⟨o, ho, hforeign⟩ := (Option.any_eq_true _ _).mp horder
  obtain ⟨ops, e, -, hrun⟩ := kiosk_learns_nothing carefulCafe_hashesApart hw ho
    (by simpa using hforeign) ⟨fun _ => 0, fun _ => 0, fun _ => 0⟩
    (.createPayment ⟨.card, none⟩ (some "k"))
  exact ⟨w, o, hw, ho, hkey, ops, e, fun inp locked => (hrun inp locked).1⟩

end CafePos
