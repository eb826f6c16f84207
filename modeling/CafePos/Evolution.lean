import CafePos.OrderState

/-!
# How the shared state may move

`Grows s s'` is the order every change of the shared state stays inside, whoever makes
it: rows are never removed, an order keeps its bill and moves only forward, a payment
keeps what it is for and a `SUCCEEDED` one stays so, a stored key is never rewritten,
and an intent that is paid or cancelled stays so. It is what a call may count on
between two of its operations.
-/

namespace CafePos

open Interleaving

/-! ## Statuses -/

/-- The statuses of an order that has been paid for. -/
def OrderStatus.isSettled : OrderStatus → Bool
  | paid => true
  | inPreparation => true
  | ready => true
  | completed => true
  | refunded => true
  | _ => false

/-- Staff only move orders that have been paid for. -/
theorem isSettled_of_isStaffTransition {source target : OrderStatus} :
    isStaffTransition source target → source.isSettled ∧ target.isSettled := by
  cases source <;> cases target <;> decide

/-- Staff move an order forward, and never back to `PAID` or out to `REFUNDED`. -/
theorem target_of_isStaffTransition {source target : OrderStatus} :
    isStaffTransition source target →
      target = .inPreparation ∨ target = .ready ∨ target = .completed := by
  cases source <;> cases target <;> decide

/-- What was paid for can be refunded, once. -/
theorem isLegalTransition_refunded {source : OrderStatus} : source.isSettled →
    source ≠ .refunded → isLegalTransition source .refunded := by
  cases source <;> decide

/-- The statuses an order can still be in after it was in the given one. -/
def OrderStatus.onward : OrderStatus → List OrderStatus
  | draft => [draft, pendingPayment, paid, inPreparation, ready, completed, cancelled, expired,
      refunded]
  | pendingPayment => [pendingPayment, paid, inPreparation, ready, completed, cancelled, expired,
      refunded]
  | paid => [paid, inPreparation, ready, completed, refunded]
  | inPreparation => [inPreparation, ready, completed, refunded]
  | ready => [ready, completed, refunded]
  | completed => [completed, refunded]
  | cancelled => [cancelled]
  | expired => [expired]
  | refunded => [refunded]

/-- An order in status `a` may be found in status `b` later. -/
def OrderStatus.Leads (a b : OrderStatus) : Prop := b ∈ a.onward

instance (a b : OrderStatus) : Decidable (a.Leads b) := inferInstanceAs (Decidable (_ ∈ _))

namespace OrderStatus.Leads

theorem refl (a : OrderStatus) : a.Leads a := by
  cases a <;> decide

theorem trans {a b c : OrderStatus} : a.Leads b → b.Leads c → a.Leads c := by
  cases a <;> cases b <;> first
    | exact fun h => absurd h (by decide)
    | (cases c <;> decide)

/-- A legal move leads onward. -/
theorem of_isLegalTransition {a b : OrderStatus} : isLegalTransition a b → a.Leads b := by
  cases a <;> cases b <;> decide

/-- A pending order may be paid. -/
theorem pay : OrderStatus.pendingPayment.Leads .paid := by decide

/-- What was paid for stays paid for. -/
theorem isSettled {a b : OrderStatus} : a.Leads b → a.isSettled → b.isSettled := by
  cases a <;> cases b <;> decide

/-- Any paid order may end refunded. -/
theorem refunded {a : OrderStatus} : a.isSettled → a.Leads .refunded := by
  cases a <;> decide

/-- What was paid for is not pending any more. -/
theorem past_pending {b : OrderStatus} : OrderStatus.paid.Leads b → b ≠ .pendingPayment := by
  cases b <;> decide

/-- An order that was pending and is not any more never is again. -/
theorem stays_past_pending {a b : OrderStatus} : OrderStatus.pendingPayment.Leads a →
    a ≠ .pendingPayment → a.Leads b → b ≠ .pendingPayment := by
  cases a <;> cases b <;> decide

end OrderStatus.Leads

/-! ## Rows -/

/-- The same order later: only its number, its status and its payment window moved. -/
structure Order.Evolves (o o' : Order) : Prop where
  bill : { o' with orderNumber := o.orderNumber, status := o.status, expiresAt := o.expiresAt } = o
  status : o.status.Leads o'.status

namespace Order.Evolves

theorem refl (o : Order) : o.Evolves o := ⟨rfl, .refl _⟩

theorem trans {o₁ o₂ o₃ : Order} (h₁ : o₁.Evolves o₂) (h₂ : o₂.Evolves o₃) : o₁.Evolves o₃ := by
  obtain ⟨hb₁, hs₁⟩ := h₁
  obtain ⟨hb₂, hs₂⟩ := h₂
  refine ⟨?_, hs₁.trans hs₂⟩
  rw [← hb₂] at hb₁
  exact hb₁

variable {o o' : Order}

theorem totalMinor (h : o.Evolves o') : o'.totalMinor = o.totalMinor := by rw [← h.bill]

theorem currency (h : o.Evolves o') : o'.currency = o.currency := by rw [← h.bill]

theorem businessDay (h : o.Evolves o') : o'.businessDay = o.businessDay := by rw [← h.bill]

theorem kioskDeviceId (h : o.Evolves o') : o'.kioskDeviceId = o.kioskDeviceId := by
  rw [← h.bill]

/-- A guarded move along `Leads`. -/
theorem moved {source target : OrderStatus} (hs : o.status = source) (h : source.Leads target) :
    o.Evolves (Statement.moved o source target) :=
  ⟨rfl, hs ▸ h⟩

end Order.Evolves

/-- The same payment later: only its status and its method moved. -/
structure Payment.Evolves (p p' : Payment) : Prop where
  terms : { p' with status := p.status, method := p.method } = p
  succeeded : p.status = .succeeded → p'.status = .succeeded

namespace Payment.Evolves

theorem refl (p : Payment) : p.Evolves p := ⟨rfl, fun h => h⟩

theorem trans {p₁ p₂ p₃ : Payment} (h₁ : p₁.Evolves p₂) (h₂ : p₂.Evolves p₃) :
    p₁.Evolves p₃ := by
  obtain ⟨ht₁, hs₁⟩ := h₁
  obtain ⟨ht₂, hs₂⟩ := h₂
  refine ⟨?_, fun h => hs₂ (hs₁ h)⟩
  rw [← ht₂] at ht₁
  exact ht₁

variable {p p' : Payment}

theorem orderId (h : p.Evolves p') : p'.orderId = p.orderId := by rw [← h.terms]

theorem providerIntentId (h : p.Evolves p') : p'.providerIntentId = p.providerIntentId := by
  rw [← h.terms]

theorem amountMinor (h : p.Evolves p') : p'.amountMinor = p.amountMinor := by rw [← h.terms]

theorem currency (h : p.Evolves p') : p'.currency = p.currency := by rw [← h.terms]

theorem idempotencyKey (h : p.Evolves p') : p'.idempotencyKey = p.idempotencyKey := by
  rw [← h.terms]

theorem provider (h : p.Evolves p') : p'.provider = p.provider := by rw [← h.terms]

end Payment.Evolves

/-- The same event later: only its stamp and its payment moved. -/
structure PaymentEvent.Evolves (e e' : PaymentEvent) : Prop where
  providerEventId : e'.providerEventId = e.providerEventId
  eventType : e'.eventType = e.eventType
  payload : e'.payload = e.payload
  processedAt : e.processedAt.isSome → e'.processedAt = e.processedAt

namespace PaymentEvent.Evolves

theorem refl (e : PaymentEvent) : e.Evolves e := ⟨rfl, rfl, rfl, fun _ => rfl⟩

theorem trans {e₁ e₂ e₃ : PaymentEvent} (h₁ : e₁.Evolves e₂) (h₂ : e₂.Evolves e₃) :
    e₁.Evolves e₃ where
  providerEventId := h₂.providerEventId.trans h₁.providerEventId
  eventType := h₂.eventType.trans h₁.eventType
  payload := h₂.payload.trans h₁.payload
  processedAt h := by
    have h₁₂ := h₁.processedAt h
    rw [← h₁₂] at h
    exact (h₂.processedAt h).trans h₁₂

end PaymentEvent.Evolves

/-- The same intent later: only its status moved, and only away from confirmable. -/
structure Intent.Evolves (i i' : Intent) : Prop where
  terms : { i' with status := i.status } = i
  dead : i.status ≠ .confirmable → i'.status = i.status

namespace Intent.Evolves

theorem refl (i : Intent) : i.Evolves i := ⟨rfl, fun _ => rfl⟩

theorem trans {i₁ i₂ i₃ : Intent} (h₁ : i₁.Evolves i₂) (h₂ : i₂.Evolves i₃) : i₁.Evolves i₃ := by
  obtain ⟨ht₁, hd₁⟩ := h₁
  obtain ⟨ht₂, hd₂⟩ := h₂
  refine ⟨?_, fun h => ?_⟩
  · rw [← ht₂] at ht₁
    exact ht₁
  · have hs := hd₁ h
    rw [← hs] at h
    exact (hd₂ h).trans hs

variable {i i' : Intent}

theorem amount (h : i.Evolves i') : i'.amount = i.amount := by rw [← h.terms]

theorem currency (h : i.Evolves i') : i'.currency = i.currency := by rw [← h.terms]

theorem orderId (h : i.Evolves i') : i'.orderId = i.orderId := by rw [← h.terms]

theorem idempotencyKey (h : i.Evolves i') : i'.idempotencyKey = i.idempotencyKey := by
  rw [← h.terms]

/-- An intent that can still be confirmed could be confirmed before. -/
theorem confirmable (h : i.Evolves i') (hi : i'.status = .confirmable) :
    i.status = .confirmable := by
  by_contra hne
  exact hne ((h.dead hne).symm.trans hi)

end Intent.Evolves

/-! ## Tables -/

/-- How the database may move. -/
structure Db.Grows (db db' : Db) : Prop where
  orders : Table.Grows Order.Evolves db.orders db'.orders
  payments : Table.Grows Payment.Evolves db.payments db'.payments
  paymentEvents : Table.Grows PaymentEvent.Evolves db.paymentEvents db'.paymentEvents
  idempotencyKeys : Table.Grows Eq db.idempotencyKeys db'.idempotencyKeys

/-- How the gateway may move. -/
def Gateway.Grows (g g' : Gateway) : Prop := Table.Grows Intent.Evolves g.intents g'.intents

/-- How the shared state may move. -/
structure Grows (s s' : Shared) : Prop where
  db : s.db.Grows s'.db
  gateway : s.gateway.Grows s'.gateway

theorem Db.Grows.refl (db : Db) : db.Grows db where
  orders := .refl .refl _
  payments := .refl .refl _
  paymentEvents := .refl .refl _
  idempotencyKeys := .refl Eq.refl _

theorem Db.Grows.trans {db₁ db₂ db₃ : Db} (h₁ : db₁.Grows db₂) (h₂ : db₂.Grows db₃) :
    db₁.Grows db₃ where
  orders := h₁.orders.trans .trans h₂.orders
  payments := h₁.payments.trans .trans h₂.payments
  paymentEvents := h₁.paymentEvents.trans .trans h₂.paymentEvents
  idempotencyKeys := h₁.idempotencyKeys.trans Eq.trans h₂.idempotencyKeys

theorem Gateway.Grows.refl (g : Gateway) : g.Grows g := Table.Grows.refl .refl _

theorem Gateway.Grows.trans {g₁ g₂ g₃ : Gateway} (h₁ : g₁.Grows g₂) (h₂ : g₂.Grows g₃) :
    g₁.Grows g₃ := Table.Grows.trans .trans h₁ h₂

namespace Grows

theorem refl (s : Shared) : Grows s s := ⟨.refl _, .refl _⟩

theorem trans {s₁ s₂ s₃ : Shared} (h₁ : Grows s₁ s₂) (h₂ : Grows s₂ s₃) : Grows s₁ s₃ :=
  ⟨h₁.db.trans h₂.db, h₁.gateway.trans h₂.gateway⟩

variable {s s' : Shared}

theorem order (h : Grows s s') {id : Id} {o : Order} (ho : s.db.orders.get id = some o) :
    ∃ o', s'.db.orders.get id = some o' ∧ o.Evolves o' := h.db.orders id o ho

theorem payment (h : Grows s s') {id : Id} {p : Payment} (hp : s.db.payments.get id = some p) :
    ∃ p', s'.db.payments.get id = some p' ∧ p.Evolves p' := h.db.payments id p hp

theorem event (h : Grows s s') {id : Id} {e : PaymentEvent}
    (he : s.db.paymentEvents.get id = some e) :
    ∃ e', s'.db.paymentEvents.get id = some e' ∧ e.Evolves e' := h.db.paymentEvents id e he

theorem key (h : Grows s s') {k : String} {row : IdempotencyKey}
    (hk : s.db.idempotencyKeys.get k = some row) : s'.db.idempotencyKeys.get k = some row := by
  obtain ⟨row', hrow', rfl⟩ := h.db.idempotencyKeys k row hk
  exact hrow'

theorem intent (h : Grows s s') {i : String} {it : Intent}
    (hi : s.gateway.intents.get i = some it) :
    ∃ it', s'.gateway.intents.get i = some it' ∧ it.Evolves it' := h.gateway i it hi

end Grows

/-! ## The gateway's own moves -/

namespace Gateway.Grows

variable {g g' : Gateway} {i eventId : String} {it : Intent}

/-- A confirmable intent may take any status. -/
theorem setStatus (hi : g.intents.get i = some it) (hc : it.status = .confirmable)
    (status : IntentStatus) : g.Grows (g.setStatus i it status) := by
  refine Table.Grows.put .refl fun u hu => ?_
  obtain rfl := Option.some.inj (hi.symm.trans hu)
  exact ⟨rfl, fun h => absurd hc h⟩

theorem confirm (h : g.confirm i eventId = some g') : g.Grows g' := by
  simp only [Gateway.confirm] at h
  split at h
  · rename_i it hi
    split at h
    · rename_i hc
      obtain rfl := Option.some.inj h
      exact setStatus hi hc _
    · cases h
  · cases h

theorem decline (h : g.decline i eventId = some g') : g.Grows g' := by
  simp only [Gateway.decline] at h
  split at h
  · split at h
    · obtain rfl := Option.some.inj h
      exact .refl _
    · cases h
  · cases h

theorem stripeCancel (inp : Input) (i : String) (g : Gateway) :
    g.Grows (stripeCancel inp i g).2 := by
  simp only [CafePos.stripeCancel]
  split
  · exact .refl _
  · split
    · rename_i it hi
      split
      · rename_i hc
        exact setStatus hi hc _
      · exact .refl _
    · exact .refl _

theorem stripeCreate {inp : Input} {request : CreateIntentRequest}
    {r : Except StripeError (String × ClientSecret)}
    (h : stripeCreate inp request g = some (r, g')) : g.Grows g' := by
  simp only [CafePos.stripeCreate] at h
  split at h
  · obtain ⟨-, rfl⟩ := Prod.mk.inj (Option.some.inj h)
    exact .refl _
  · split at h
    · split at h
      · obtain ⟨-, rfl⟩ := Prod.mk.inj (Option.some.inj h)
        exact .refl _
      · obtain ⟨-, rfl⟩ := Prod.mk.inj (Option.some.inj h)
        exact .refl _
    · split at h
      · cases h
      · rename_i hnone
        obtain ⟨-, rfl⟩ := Prod.mk.inj (Option.some.inj h)
        refine Table.Grows.put .refl fun u hu => ?_
        rw [hnone] at hu
        cases hu

end Gateway.Grows

end CafePos
