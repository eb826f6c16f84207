import CafePos.Capture
import CafePos.History
import CafePos.PaymentSteps
import Mathlib

/-!
# Webhooks converge

Any number of deliveries about one intent, in any order, with duplicates, processed by any
number of concurrent calls: once a success among them has been processed, the payment is
`SUCCEEDED` and the order is `PAID`, by exactly one move. What is announced is counted over
all calls: never more than once, and exactly once as soon as the call that committed the
payment has returned. Until then a duplicate may well have been processed to completion while
nothing has been announced.
-/

namespace CafePos

open Interleaving

variable {cfg : Config}

/-! ## Counting -/

/-- The history rows of an order that move it from `PENDING_PAYMENT` to `PAID`. -/
def Db.paidRows (db : Db) (orderId : Id) : ℕ :=
  db.orderStatusHistory.countP fun h => (Write.history h).isPaidRow orderId

/-- 1 if the payment was captured at the gateway, 0 if not. -/
def Db.captured (db : Db) (id : Id) : ℕ :=
  if (db.payments.get id).any fun p => (Write.payment id p).isCapture id then 1 else 0

theorem paidRows_applyAll (ws : List Write) (db : Db) (id : Id) :
    (store.applyAll ws db).paidRows id = db.paidRows id + ws.countP (Write.isPaidRow id) := by
  induction ws generalizing db with
  | nil => rfl
  | cons w ws ih =>
    have hw : (w.apply db).paidRows id = db.paidRows id + if w.isPaidRow id then 1 else 0 := by
      cases w with
      | history row => simp [Db.paidRows, Write.apply, List.countP_append, List.countP_cons]
      | _ => rfl
    rw [Store.applyAll_cons, ih, store_apply, hw, List.countP_cons]
    omega

/-- The captures of a log are among its payment rows. -/
theorem countP_isCapture (ws : List Write) (id : Id) : ws.countP (Write.isCapture id) =
    (paymentWrites ws).countP fun q => (Write.payment q.1 q.2).isCapture id := by
  induction ws with
  | nil => rfl
  | cons w ws ih =>
    rw [List.countP_cons, ih]
    cases w with
    | payment id' p => rw [paymentWrites_cons_payment, List.countP_cons]
    | _ => rfl

/-- A payment is captured once. -/
theorem Commits.captured {P : PosPermit} {c : Call} {s : Shared} {ws : List Write}
    (h : Commits cfg P c s ws) (hs : Settled s.db) (id : Id) :
    (store.applyAll ws s.db).captured id = s.db.captured id + ws.countP (Write.isCapture id) := by
  rw [countP_isCapture, Db.captured, payments_applyAll]
  -- the row written, if any, replaces none or one that was not captured
  have hput : ∀ {id' : Id} {p' : Payment}, paymentWrites ws = [(id', p')] →
      (∀ p, s.db.payments.get id' = some p → p.status ≠ .succeeded) →
      (if ((s.db.payments.put id' p').get id).any fun p => (Write.payment id p).isCapture id
        then 1 else 0) = s.db.captured id +
          [(id', p')].countP fun q => (Write.payment q.1 q.2).isCapture id := by
    intro id' p' _ hold
    by_cases hid : id = id'
    · subst hid
      have hzero : s.db.captured id = 0 := by
        rw [Db.captured, if_neg]
        simp only [Option.any_eq_true, not_exists, not_and]
        intro p hp hcap
        simp only [Write.isCapture, Bool.and_eq_true, beq_iff_eq] at hcap
        exact hold p hp hcap.1.2
      rw [hzero, Table.get_put_self, List.countP_singleton]
      simp
    · have hne : ¬ id' = id := fun h => hid h.symm
      rw [Table.get_put_ne _ _ hid, List.countP_singleton]
      simp [Db.captured, Write.isCapture, hne]
  cases h.paymentStep hs with
  | stays hws => rw [hws]; rfl
  | inserts hws hfree hconf hintent hcash =>
    rw [hws]
    refine hput hws fun p hp => ?_
    rw [hfree] at hp
    cases hp
  | settles hws hp hne hlive =>
    rw [hws]
    refine hput hws fun q hq => ?_
    obtain rfl := Option.some.inj (hp.symm.trans hq)
    exact hne

/-! ## One move to `PAID` -/

/-- An order that was paid for was moved to `PAID` once, any other never. -/
def PaidOnce (db : Db) : Prop :=
  ∀ id o, db.orders.get id = some o → db.paidRows id = if o.status.isSettled then 1 else 0

/-- A legal move pays for an order exactly when it leads from `PENDING_PAYMENT` to `PAID`. -/
theorem isSettled_move {source target : OrderStatus} : isLegalTransition source target →
    (if target.isSettled then 1 else 0) = (if source.isSettled then 1 else 0) +
      if source = .pendingPayment ∧ target = .paid then 1 else 0 := by
  cases source <;> cases target <;> decide

theorem PaidOnce.step {db db' : Db} (h : PaidOnce db) (hh : Historied db)
    (hstep : OrderStep db db') : PaidOnce db' := by
  intro x o ho
  cases hstep with
  | stays horders hhistory =>
    rw [horders] at ho
    rw [Db.paidRows, hhistory]
    exact h x o ho
  | @opens id row principal hfree hstatus horders hhistory =>
    have hrows : db'.paidRows x = db.paidRows x := by
      simp [Db.paidRows, hhistory, List.countP_append, Write.isPaidRow, createdRow]
    rw [hrows]
    rw [horders, Table.get_put] at ho
    split at ho
    · rename_i hx
      obtain rfl := Option.some.inj ho
      have hzero : db.paidRows x = 0 := by
        refine List.countP_eq_zero.mpr fun r hr hpaid => ?_
        simp only [Write.isPaidRow, Bool.and_eq_true, beq_iff_eq] at hpaid
        obtain ⟨o, ho⟩ := hh.row r hr
        rw [hpaid.1.1, hx, hfree] at ho
        cases ho
      rw [hzero]
      rcases hstatus with hstatus | hstatus <;> rw [hstatus] <;> rfl
    · exact h x o ho
  | @moves r row row' hrow hsrc htgt hlegal horders hhistory =>
    have hrows : db'.paidRows x = db.paidRows x +
        if r.orderId = x ∧ r.source = .pendingPayment ∧ r.target = .paid then 1 else 0 := by
      simp [Db.paidRows, hhistory, List.countP_append, Write.isPaidRow, TransitionRequest.history,
        List.countP_singleton, and_assoc]
    rw [hrows]
    rw [horders, Table.get_put] at ho
    split at ho
    · rename_i hx
      obtain rfl := Option.some.inj ho
      subst hx
      rw [h _ row hrow, hsrc, htgt, isSettled_move hlegal]
      simp
    · rename_i hx
      have hother : ¬ (r.orderId = x ∧ r.source = .pendingPayment ∧ r.target = .paid) :=
        fun hr => hx hr.1.symm
      rw [if_neg hother, Nat.add_zero]
      exact h x o ho

theorem Reachable.paidOnce {w : PosWorld} (h : Reachable cfg w) : PaidOnce w.shared.db := by
  have hall : Refunds w.shared.db ∧ Historied w.shared.db ∧ PaidOnce w.shared.db := by
    refine h.db_invariant (J := fun db => Refunds db ∧ Historied db ∧ PaidOnce db)
      ⟨.empty, .empty, fun _ _ ho => by cases ho⟩ ?_
    intro c s ws hs hJ hc
    have hstep := hc.orderStep hs hJ.1
    exact ⟨hc.refunds hs hJ.1, hJ.2.1.step hstep, hJ.2.2.step hJ.2.1 hstep⟩
  exact hall.2.2

/-! ## A stamped success found its order paid -/

/-- The order of a stamped success was paid for. -/
def SuccessesSettled (db : Db) : Prop :=
  ∀ eventId e, db.paymentEvents.get eventId = some e → e.processedAt.isSome → reportsSuccess e →
    ∃ id p o, db.payments.get id = some p ∧ captures e p ∧
      db.orders.get p.orderId = some o ∧ o.status.isSettled

theorem SuccessesSettled.commit {P : PosPermit} {c : Call} {s : Shared} {ws : List Write}
    (h : SuccessesSettled s.db) (hs : Settled s.db) (hc : Commits cfg P c s ws) :
    SuccessesSettled (store.applyAll ws s.db) := by
  have hg : Grows s (s.commit ws) := hc.commit_grows hs
  have hkeep : ∀ {s₀ : Shared} {e e' : PaymentEvent} {id : Id} {p : Payment} {o : Order},
      Grows s₀ (s.commit ws) → e.payload = e'.payload → s₀.db.payments.get id = some p →
      captures e p → s₀.db.orders.get p.orderId = some o → o.status.isSettled →
      ∃ id p o, (store.applyAll ws s.db).payments.get id = some p ∧ captures e' p ∧
        (store.applyAll ws s.db).orders.get p.orderId = some o ∧ o.status.isSettled := by
    intro s₀ e e' id p o hgrow hpayload hp hcap ho hsettled
    obtain ⟨p', hp', hev⟩ := hgrow.payment hp
    obtain ⟨o', ho', hevo⟩ := hgrow.order ho
    refine ⟨id, p', o', hp', ?_, ?_, hevo.status.isSettled hsettled⟩
    · rw [captures_of_evolves hev, ← captures_of_payload hpayload]
      exact hcap
    · rw [hev.orderId]
      exact ho'
  intro eventId e' he' hdone hsuccess
  rcases hc.stamped he' hdone hsuccess with ⟨e, he, hdone₀, hpayload⟩ | ⟨id, p, hp, hcap, hsucc⟩ |
    ⟨e, hpayload, s₀, l₀, e₀, id, p, row, hgrow, -, -, -, hp, hcap, hrow, hpaid⟩
  · obtain ⟨id, p, o, hp, hcap, ho, hsettled⟩ := h eventId e he hdone₀
      (by rw [reportsSuccess_of_payload hpayload]; exact hsuccess)
    exact hkeep hg hpayload hp hcap ho hsettled
  · obtain ⟨o, ho, hfits⟩ := (hc.settled hs).payment hp
    exact ⟨id, p, o, hp, hcap, ho, hfits.settled hsucc⟩
  · refine hkeep (hgrow.trans hg) hpayload hp hcap hrow ?_
    rw [hpaid]
    rfl

/-- Every run; a stamped success found its order paid. -/
def inboxContext (cfg : Config) : Context cfg where
  permit := .all
  extra s := SuccessesSettled s.db
  move _ hs h hm := hm.preserves (J := fun s => SuccessesSettled s.db) h (fun _ _ => h)
    fun _ hc _ _ => h.commit hs hc
  happen _ _ h hs := by
    rw [happen_db hs]
    exact h

/-! ## Deliveries about one intent -/

/-- The event is about the intent. -/
def PaymentEvent.isAbout (e : PaymentEvent) (i : String) : Bool :=
  ((toOutcome e.payload).bind GatewayOutcome.intent).any (Json.isString i)

/-- The write changes the order. -/
def Write.touches (orderId : Id) : Write → Bool
  | .order id _ => id == orderId
  | _ => false

/-- Only calls that process an event about the intent touch the order. -/
def onlyEventsAbout (orderId : Id) (i : String) : Call → Op → Sess → Shared → Bool
  | .processEvent eventId, .commit, l, s => !l.log.any (Write.touches orderId) ||
      (s.db.paymentEvents.get eventId).any fun e => e.isAbout i
  | _, .commit, l, _ => !l.log.any (Write.touches orderId)
  | _, _, _, _ => true

/-- What the condition says of a commit. -/
theorem onlyEventsAbout_commit {orderId : Id} {i : String} {c : Call} {l : Sess} {s : Shared}
    (h : onlyEventsAbout orderId i c .commit l s) :
    (∀ w ∈ l.log, w.touches orderId = false) ∨ ∃ eventId e, c = .processEvent eventId ∧
      s.db.paymentEvents.get eventId = some e ∧ e.isAbout i := by
  by_cases hlog : l.log.any (Write.touches orderId)
  · right
    cases c with
    | processEvent eventId =>
      simp only [onlyEventsAbout, hlog, Bool.not_true, Bool.false_or, Option.any_eq_true] at h
      obtain ⟨e, he, habout⟩ := h
      exact ⟨eventId, e, rfl, he, habout⟩
    | _ => simp [onlyEventsAbout, hlog] at h
  · left
    simpa using hlog

/-- The order waits for the payment, or was paid by it. -/
def WaitsFor (orderId pid : Id) (i : String) (db : Db) : Prop :=
  ∃ o p, db.orders.get orderId = some o ∧ db.payments.get pid = some p ∧ p.orderId = orderId ∧
    p.providerIntentId = some i ∧
    (o.status = .pendingPayment ∨ o.status = .paid ∧ p.status = .succeeded)

/-- An event that captures a payment is about its intent. -/
theorem intent_of_isAbout {e : PaymentEvent} {p : Payment} {i : String} (hcap : captures e p)
    (he : e.isAbout i) : p.providerIntentId = some i := by
  obtain ⟨j, a, hout, hnamed, -⟩ := captures_iff.mp hcap
  obtain ⟨x, hx, rfl⟩ := Payment.named_iff.mp hnamed
  simp only [PaymentEvent.isAbout, hout, Option.bind_some, GatewayOutcome.intent, Option.any_some,
    Json.isString, beq_iff_eq] at he
  rw [hx, he]

theorem isAbout_of_captures {e : PaymentEvent} {p : Payment} {i : String} (hcap : captures e p)
    (hi : p.providerIntentId = some i) : e.isAbout i := by
  obtain ⟨j, a, hout, hnamed, -⟩ := captures_iff.mp hcap
  obtain ⟨x, hx, rfl⟩ := Payment.named_iff.mp hnamed
  obtain rfl := Option.some.inj (hi.symm.trans hx)
  simp [PaymentEvent.isAbout, hout, GatewayOutcome.intent, Json.isString]

/-- A log that does not touch the order leaves it alone. -/
theorem get_order_untouched {orderId : Id} {ws : List Write}
    (h : ∀ w ∈ ws, w.touches orderId = false) (db : Db) :
    (store.applyAll ws db).orders.get orderId = db.orders.get orderId := by
  refine applyAll_frame (fun db => db.orders.get orderId) (fun w hw db => ?_) db
  cases w with
  | order id row =>
    have hne : ¬ id = orderId := by simpa [Write.touches] using h _ hw
    exact Table.get_put_ne _ _ fun heq => hne heq.symm
  | _ => rfl

/-- An order that is left alone waits on: its payment keeps what it is for, and a `SUCCEEDED`
one stays so. -/
theorem WaitsFor.grows {orderId pid : Id} {i : String} {db db' : Db}
    (h : WaitsFor orderId pid i db) (hg : db.Grows db')
    (horder : db'.orders.get orderId = db.orders.get orderId) : WaitsFor orderId pid i db' := by
  obtain ⟨o, p, ho, hp, hpo, hpi, hstatus⟩ := h
  obtain ⟨p', hp', hev⟩ := hg.payments pid p hp
  refine ⟨o, p', horder.trans ho, hp', hev.orderId.trans hpo, hev.providerIntentId.trans hpi, ?_⟩
  exact hstatus.imp_right fun hs => ⟨hs.1, hev.succeeded hs.2⟩

/-- Processing an event about the intent leaves the order waiting, or has it paid by the
payment it waits for. -/
theorem WaitsFor.process {P : PosPermit} {orderId pid eventId : Id} {i : String} {s : Shared}
    {ws : List Write} {e : PaymentEvent} (h : WaitsFor orderId pid i s.db) (hs : Settled s.db)
    (hc : Commits cfg P (.processEvent eventId) s ws)
    (he : s.db.paymentEvents.get eventId = some e) (habout : e.isAbout i) :
    WaitsFor orderId pid i (store.applyAll ws s.db) := by
  have hg := hc.grows hs
  cases hc with
  | close hcloses => exact absurd rfl (hcloses.not_inbox.1 eventId)
  | skip he' hnone hwhy =>
    exact h.grows hg (by rw [applyAll_orders (forall_stampWrites fun _ _ _ => nofun)])
  | markPayment he' hno hp' hstatus =>
    refine h.grows hg ?_
    rw [applyAll_orders (List.forall_mem_append.mpr
      ⟨forall_settleWrites fun _ _ => nofun, forall_stampWrites fun _ _ _ => nofun⟩)]
  | @markPaid _ _ id e' p' row method now he' hp' hcap hrow hpending =>
    obtain rfl := Option.some.inj (he.symm.trans he')
    obtain ⟨o, p, ho, hp, hpo, hpi, hstatus⟩ := h
    -- the event names one payment only
    obtain rfl : id = pid := hs.intent hp' hp (intent_of_isAbout hcap habout) hpi
    obtain rfl := Option.some.inj (hp.symm.trans hp')
    rw [applyAll_moveWrites, applyAll_settleWrites (fun h => absurd h Bool.false_ne_true)]
    have hstamp : ∀ db, (store.applyAll (stampWrites eventId e (some id) now) db).orders =
        db.orders := applyAll_orders (forall_stampWrites fun _ _ _ => nofun)
    have hstamp' : ∀ db, (store.applyAll (stampWrites eventId e (some id) now) db).payments =
        db.payments := applyAll_payments (forall_stampWrites fun _ _ _ => nofun)
    refine ⟨Statement.moved row .pendingPayment .paid,
      { p with status := .succeeded, method := method.or p.method }, ?_, ?_, hpo, hpi,
      Or.inr ⟨rfl, rfl⟩⟩
    · rw [hstamp, ← hpo]
      exact Table.get_put_self ..
    · rw [hstamp']
      exact Table.get_put_self ..

/-- The runs in which only deliveries about the intent touch the order. -/
def deliveryContext (cfg : Config) (orderId pid : Id) (i : String) : Context cfg where
  permit := .ofCheck (onlyEventsAbout orderId i)
  extra s := WaitsFor orderId pid i s.db
  move {c o l s _ _} hp hs h hm := by
    refine hm.preserves (J := fun s => WaitsFor orderId pid i s.db) h (fun _ _ => h) ?_
    intro ws hc hlog hevent
    have hleft : (∀ w ∈ ws, w.touches orderId = false) →
        WaitsFor orderId pid i (store.applyAll ws s.db) :=
      fun hws => h.grows (hc.grows hs) (get_order_untouched hws s.db)
    by_cases ho : o = .commit
    · subst ho
      obtain rfl := hlog rfl
      rcases onlyEventsAbout_commit hp with hws | ⟨eventId, e, rfl, he, habout⟩
      · exact hleft hws
      · exact h.process hs hc he habout
    · obtain ⟨id, e, rfl⟩ := hevent ho
      exact hleft (by simp [Write.touches])
  happen _ _ h hs := by
    rw [happen_db hs]
    exact h

/-! ## Processed to completion -/

/-- The event was stored, then a call to process it began, and the call has returned. -/
def Processed (cfg : Config) (P : PosPermit) (eventId : Id) (w₁ w₂ : PosWorld) : Prop :=
  ∃ w i t b, Runs (system cfg) P w₁ w ∧ Runs (system cfg) P w w₂ ∧
    (w.shared.db.paymentEvents.get eventId).isSome ∧ w.threads.length ≤ i ∧
    w₂.threads[i]? = some t ∧ t.call = .processEvent eventId ∧ t.Answered (.ok (.flag b))

/-- An order waits for the payment of an intent in `w₁`; up to `w₂` only deliveries about the
intent touch it; a success that captures the payment is among what is stored, and everything
stored about the intent has been processed to completion. -/
structure Deliveries (cfg : Config) (orderId pid : Id) (i : String) (w₁ w₂ : PosWorld) :
    Prop where
  reachable : Reachable cfg w₁
  pending : ∃ o, w₁.shared.db.orders.get orderId = some o ∧ o.status = .pendingPayment
  unpaid : ∃ p, w₁.shared.db.payments.get pid = some p ∧ p.orderId = orderId ∧
    p.providerIntentId = some i ∧ p.status ≠ .succeeded
  run : Runs (system cfg) (.ofCheck (onlyEventsAbout orderId i)) w₁ w₂
  success : ∃ eventId e p, w₂.shared.db.paymentEvents.get eventId = some e ∧
    w₂.shared.db.payments.get pid = some p ∧ captures e p
  processed : ∀ eventId e, w₂.shared.db.paymentEvents.get eventId = some e → e.isAbout i →
    Processed cfg (.ofCheck (onlyEventsAbout orderId i)) eventId w₁ w₂

/-- What a returned `processEvent` call has achieved. -/
theorem Reachable.handled {w w' : PosWorld} (h : Reachable cfg w) (hr : Runs (system cfg) .all w w')
    {j : ℕ} {t : PosThread} {eventId : Id} {b : Bool} (hj : w.threads.length ≤ j)
    (ht : w'.threads[j]? = some t) (hcall : t.call = .processEvent eventId)
    (hans : t.Answered (.ok (.flag b))) :
    Handled (inboxContext cfg) eventId w.shared w'.shared := by
  have hextra : SuccessesSettled w.shared.db :=
    ((inboxContext cfg).holds (fun _ _ he => by cases he) h).2
  have hwindow := (inboxContext cfg).window (fun _ _ _ _ => trivial) h hextra hr
  obtain ⟨s, -, hs, hpost⟩ := hwindow.answered ht hans
  have hpost := hpost hj
  rw [hcall] at hpost
  obtain ⟨-, -, -, hhandled⟩ := hpost
  exact hhandled.grows hs

/-- Once a success that captures the payment has been processed to completion, its order does
not wait any more. -/
theorem Handled.past_pending {eventId pid : Id} {s₀ s : Shared} {e : PaymentEvent} {p : Payment}
    {o : Order} (h : Handled (inboxContext cfg) eventId s₀ s)
    (he : s₀.db.paymentEvents.get eventId = some e) (hp : s₀.db.payments.get pid = some p)
    (hcap : captures e p) (ho : s₀.db.orders.get p.orderId = some o)
    (hpast : OrderStatus.pendingPayment.Leads o.status) :
    ∃ o', s.db.orders.get p.orderId = some o' ∧ o'.status ≠ .pendingPayment := by
  obtain ⟨s₁, h₀₁, h₁, hcases⟩ := h e pid p he hp hcap
  obtain ⟨o₁, ho₁, hev₁⟩ := h₀₁.order ho
  obtain ⟨o', ho', hev'⟩ := h₁.order ho₁
  refine ⟨o', ho', OrderStatus.Leads.stays_past_pending (hpast.trans hev₁.status) ?_ hev'.status⟩
  rcases hcases with ⟨e₁, hinv, he₁, hdone⟩ | ⟨row, hrow, hne⟩
  · obtain ⟨e₁', he₁', heve⟩ := h₀₁.event he
    obtain rfl := Option.some.inj (he₁.symm.trans he₁')
    obtain ⟨p₁, hp₁, hevp⟩ := h₀₁.payment hp
    have hcap₁ : captures e₁ p₁ := by
      rw [captures_of_payload heve.payload, captures_of_evolves hevp]
      exact hcap
    obtain ⟨id, p', o'', hq, hcap', hoq, hsettled⟩ :=
      hinv.2 eventId e₁ he₁ hdone (reportsSuccess_of_captures hcap₁)
    -- the payment it found is the only one it captures
    obtain rfl := hinv.1.captured hq hp₁ hcap' hcap₁
    obtain rfl := Option.some.inj (hq.symm.trans hp₁)
    rw [hevp.orderId, ho₁] at hoq
    obtain rfl := Option.some.inj hoq
    intro hpend
    rw [hpend] at hsettled
    cases hsettled
  · obtain rfl := Option.some.inj (ho₁.symm.trans hrow)
    exact hne

namespace Deliveries

variable {orderId pid : Id} {i : String} {w₁ w₂ : PosWorld}

/-- The order waits for the payment, or was paid by it, all along. -/
theorem waitsFor (h : Deliveries cfg orderId pid i w₁ w₂) :
    WaitsFor orderId pid i w₁.shared.db := by
  obtain ⟨o, ho, hpending⟩ := h.pending
  obtain ⟨p, hp, hpo, hpi, -⟩ := h.unpaid
  exact ⟨o, p, ho, hp, hpo, hpi, Or.inl hpending⟩

theorem waitsFor_later (h : Deliveries cfg orderId pid i w₁ w₂) {w : PosWorld}
    (hr : Runs (system cfg) (.ofCheck (onlyEventsAbout orderId i)) w₁ w) :
    WaitsFor orderId pid i w.shared.db :=
  ((deliveryContext cfg orderId pid i).window (fun _ _ _ _ => rfl) h.reachable h.waitsFor hr).inv.2

/-- The order is `PAID`, and by that payment. -/
theorem settled (h : Deliveries cfg orderId pid i w₁ w₂) :
    ∃ o p, w₂.shared.db.orders.get orderId = some o ∧ o.status = .paid ∧
      w₂.shared.db.payments.get pid = some p ∧ p.status = .succeeded ∧
      p.providerIntentId = some i := by
  obtain ⟨eventId, e, p, he, hp, hcap⟩ := h.success
  obtain ⟨o, p', ho, hp', hpo, hpi, hstatus⟩ := h.waitsFor_later h.run
  obtain rfl := Option.some.inj (hp.symm.trans hp')
  obtain ⟨w, j, t, b, hr₁, hr₂, hstored, hj, ht, hcall, hans⟩ :=
    h.processed eventId e he (isAbout_of_captures hcap hpi)
  have hw := h.reachable.extend hr₁
  have hgrow := hw.grows hr₂
  -- the event and the payment when the call began
  obtain ⟨e₀, he₀⟩ := Option.isSome_iff_exists.mp hstored
  obtain ⟨o₀, p₀, ho₀, hp₀, hpo₀, -, hstatus₀⟩ := h.waitsFor_later hr₁
  obtain ⟨e', he', heve⟩ := hgrow.event he₀
  obtain rfl := Option.some.inj (he.symm.trans he')
  obtain ⟨p', hp', hevp⟩ := hgrow.payment hp₀
  obtain rfl := Option.some.inj (hp.symm.trans hp')
  have hcap₀ : captures e₀ p₀ := by
    rw [← captures_of_payload heve.payload, ← captures_of_evolves hevp]
    exact hcap
  have hlead : OrderStatus.pendingPayment.Leads o₀.status := by
    rcases hstatus₀ with hs | hs
    · rw [hs]
      exact .refl _
    · rw [hs.1]
      exact .pay
  have hhandled := hw.handled (hr₂.mono fun w a _ => Runs.allows_all w a) hj ht hcall hans
  obtain ⟨o', ho', hne⟩ := hhandled.past_pending he₀ hp₀ hcap₀ (by rw [hpo₀]; exact ho₀) hlead
  rw [hpo₀, ho] at ho'
  obtain rfl := Option.some.inj ho'
  rcases hstatus with hpending | ⟨hpaid, hsucc⟩
  · exact absurd hpending hne
  · exact ⟨o, p, ho, hpaid, hp, hsucc, hpi⟩

end Deliveries

/-! ## Announced once -/

/-- The call committed the move of the order to `PAID`, or the capture of the payment. -/
def Pays (orderId pid : Id) (t : PosThread) : Prop :=
  ∃ w ∈ t.session.committed.flatten, w.isPaidRow orderId ∨ w.isCapture pid

/-- What has been announced is at most what was committed, call by call and so in all. -/
theorem emittedCount_le {w : PosWorld} {g : DomainEvent → Bool} {f : Write → Bool}
    (h : ∀ t ∈ w.threads, t.session.published.countP g ≤ t.session.committed.flatten.countP f) :
    emittedCount w g ≤ committedCount w f :=
  List.sum_le_sum h

/-- If every call that has something to announce has returned, everything is announced. -/
theorem emittedCount_eq {w : PosWorld} {g : DomainEvent → Bool} {f : Write → Bool}
    (h : ∀ t ∈ w.threads, t.session.published.countP g ≤ t.session.committed.flatten.countP f)
    (hall : ∀ t ∈ w.threads, (∃ x ∈ t.session.committed.flatten, f x) →
      t.session.published.countP g = t.session.committed.flatten.countP f) :
    emittedCount w g = committedCount w f := by
  refine congrArg List.sum (List.map_congr_left fun t ht => ?_)
  by_cases hx : ∃ x ∈ t.session.committed.flatten, f x
  · exact hall t ht hx
  · have hzero : t.session.committed.flatten.countP f = 0 :=
      List.countP_eq_zero.mpr fun x hxm hfx => hx ⟨x, hxm, hfx⟩
    have hle := h t ht
    omega

/-- A returned call has announced what it committed. -/
theorem Reachable.announces {w : PosWorld} (h : Reachable cfg w) {t : PosThread} {a : Answer}
    (ht : t ∈ w.threads) (ha : t.Answered a) :
    Announces t.session.published t.session.committed := by
  obtain ⟨j, hj⟩ := List.mem_iff_getElem?.mp ht
  obtain ⟨s, -, -, hpost⟩ := h.sound.answered hj ha
  exact hpost.announces

/-- **Webhooks converge.** Once everything stored about the intent has been processed to
completion, the payment is `SUCCEEDED`, the order is `PAID`, by one move. `order.paid` and
`payment.succeeded` are each announced at most once, and exactly once as soon as the call that
committed the payment has returned. -/
theorem webhooks_converge {orderId pid : Id} {i : String} {w₁ w₂ : PosWorld}
    (h : Deliveries cfg orderId pid i w₁ w₂) :
    (∃ p, w₂.shared.db.payments.get pid = some p ∧ p.status = .succeeded) ∧
    (∃ o, w₂.shared.db.orders.get orderId = some o ∧ o.status = .paid) ∧
    w₂.shared.db.paidRows orderId = 1 ∧
    emittedCount w₂ (DomainEvent.isOrderPaid orderId) ≤ 1 ∧
    emittedCount w₂ (DomainEvent.isPaymentSucceeded pid) ≤ 1 ∧
    ((∀ t ∈ w₂.threads, Pays orderId pid t → ∃ a, t.Answered a) →
      emittedCount w₂ (DomainEvent.isOrderPaid orderId) = 1 ∧
      emittedCount w₂ (DomainEvent.isPaymentSucceeded pid) = 1) := by
  have hw := h.reachable.extend h.run
  obtain ⟨o, p, ho, hpaid, hp, hsucc, hpi⟩ := h.settled
  have hrows : w₂.shared.db.paidRows orderId = 1 := by
    rw [hw.paidOnce orderId o ho, hpaid]
    rfl
  have hmoved : committedCount w₂ (Write.isPaidRow orderId) = 1 := by
    rw [hw.committedCount_eq (m := fun db => db.paidRows orderId) rfl
      fun _ s ws _ _ => paidRows_applyAll ws s.db orderId]
    exact hrows
  have hcaptured : committedCount w₂ (Write.isCapture pid) = 1 := by
    rw [hw.committedCount_eq (m := fun db => db.captured pid) rfl
      fun _ _ _ hs hc => hc.captured hs pid, Db.captured, hp]
    simp [Write.isCapture, hsucc, hpi]
  have hatMost := hw.announcesAtMost
  refine ⟨⟨p, hp, hsucc⟩, ⟨o, ho, hpaid⟩, hrows, ?_, ?_, fun hreturned => ⟨?_, ?_⟩⟩
  · rw [← hmoved]
    exact emittedCount_le fun t ht => (hatMost t ht).orderPaid orderId
  · rw [← hcaptured]
    exact emittedCount_le fun t ht => (hatMost t ht).paymentSucceeded pid
  · rw [← hmoved]
    refine emittedCount_eq (fun t ht => (hatMost t ht).orderPaid orderId) ?_
    rintro t ht ⟨x, hx, hf⟩
    obtain ⟨a, ha⟩ := hreturned t ht ⟨x, hx, Or.inl hf⟩
    exact (hw.announces ht ha).orderPaid orderId
  · rw [← hcaptured]
    refine emittedCount_eq (fun t ht => (hatMost t ht).paymentSucceeded pid) ?_
    rintro t ht ⟨x, hx, hf⟩
    obtain ⟨a, ha⟩ := hreturned t ht ⟨x, hx, Or.inr hf⟩
    exact (hw.announces ht ha).paymentSucceeded pid

/-! ## One success, two calls -/

/-- Order 100 waits for payment 200; the customer has confirmed the intent. -/
def awaiting : List PosAct := takeOrder ++ payByCard 1 ++ [.world (.confirm "pi" "ev1")]

/-- The success is delivered, and a first call to process it performs `n` operations. -/
def processOnce (n : ℕ) : List PosAct :=
  deliver 2 (eventAboutPi "ev1" "payment_intent.succeeded") 300 n

/-- A second call to process it. It finds the event stamped. -/
def processAgain : List PosAct := .start (.processEvent 300) :: steps 4 1 (supply 0 "")

/-- What `awaiting` leads to. -/
def isAwaiting (w : PosWorld) : Bool :=
  (w.shared.db.orders.get 100).any (fun o => o.status == .pendingPayment) &&
    (w.shared.db.payments.get 200).any fun p =>
      p.orderId == 100 && p.providerIntentId == some "pi" && p.status != .succeeded

/-- The second call, number 4, has returned; event 300 is the only one, and it captures
payment 200. -/
def isProcessed (w : PosWorld) : Bool :=
  (w.threads[4]?).any (fun t => (match t.call with
    | .processEvent eventId => eventId == 300
    | _ => false) && decide (t.Answered (.ok (.flag false)))) &&
  (w.shared.db.paymentEvents.select fun _ _ => true).all (fun q => q.1 == 300) &&
  (w.shared.db.paymentEvents.get 300).any fun e => (w.shared.db.payments.get 200).any (captures e)

/-- The three parts of the story, evaluated, are deliveries. -/
theorem Deliveries.of_runIf {n : ℕ} {p : PosWorld → Prop} [DecidablePred p]
    (h : (opening.runIf (system cornerCafe) (fun _ _ => true) awaiting).any (fun w₁ =>
      isAwaiting w₁ && (w₁.runIf (system cornerCafe) (World.passes (onlyEventsAbout 100 "pi"))
        (processOnce n)).any fun w => decide (w.threads.length ≤ 4) &&
          (w.shared.db.paymentEvents.get 300).isSome &&
          (w.runIf (system cornerCafe) (World.passes (onlyEventsAbout 100 "pi"))
            processAgain).any fun w₂ => isProcessed w₂ && decide (p w₂)) = true) :
    ∃ w₁ w₂, Deliveries cornerCafe 100 200 "pi" w₁ w₂ ∧ p w₂ := by
  simp only [Option.any_eq_true, Bool.and_eq_true, decide_eq_true_eq] at h
  obtain ⟨w₁, hw₁, hawait, w, hw, ⟨hfour, hstored⟩, w₂, hw₂, hdone, hp⟩ := h
  have hreach : Reachable cornerCafe w₁ :=
    Runs.of_runIf (fun w a _ => Runs.allows_all w a) .refl hw₁
  have hr₁ : Runs (system cornerCafe) (.ofCheck (onlyEventsAbout 100 "pi")) w₁ w :=
    Runs.of_runIf (fun _ _ => World.allows_of_passes) .refl hw
  have hr₂ : Runs (system cornerCafe) (.ofCheck (onlyEventsAbout 100 "pi")) w w₂ :=
    Runs.of_runIf (fun _ _ => World.allows_of_passes) .refl hw₂
  simp only [isAwaiting, isProcessed, Option.any_eq_true, Bool.and_eq_true, beq_iff_eq,
    bne_iff_ne, List.all_eq_true, decide_eq_true_eq] at hawait hdone
  obtain ⟨hpending, q, hq, ⟨hqo, hqi⟩, hqs⟩ := hawait
  obtain ⟨⟨⟨t, ht, hcall, hans⟩, honly⟩, e, he, q', hq', hcap⟩ := hdone
  have hcall : t.call = .processEvent 300 := by
    split at hcall
    · rename_i eventId heq
      rw [heq, beq_iff_eq.mp hcall]
    · cases hcall
  refine ⟨w₁, w₂, ⟨hreach, hpending, ⟨q, hq, hqo, hqi, hqs⟩, hr₁.trans hr₂,
    ⟨300, e, q', he, hq', hcap⟩, fun eventId e' he' _ => ?_⟩, hp⟩
  obtain rfl : eventId = 300 := honly (eventId, e') (Table.mem_select.mpr ⟨he', rfl⟩)
  exact ⟨w, 4, t, false, hr₁, hr₂, hstored, hfour, ht, hcall, hans⟩

theorem webhooks_converge_twice : ∃ w₁ w₂, Deliveries cornerCafe 100 200 "pi" w₁ w₂ ∧
    (∀ t ∈ w₂.threads, Pays 100 200 t → ∃ a, t.Answered a) ∧
    emittedCount w₂ (DomainEvent.isOrderPaid 100) = 1 ∧
    emittedCount w₂ (DomainEvent.isPaymentSucceeded 200) = 1 := by
  obtain ⟨w₁, w₂, h, hreturned⟩ := Deliveries.of_runIf (n := 12)
    (p := fun w => ∀ t ∈ w.threads, t.returned) (by decide)
  have hall : ∀ t ∈ w₂.threads, Pays 100 200 t → ∃ a, t.Answered a :=
    fun t ht _ => Thread.returned_iff.mp (hreturned t ht)
  obtain ⟨-, -, -, -, -, hemitted⟩ := webhooks_converge h
  exact ⟨w₁, w₂, h, hall, hemitted hall⟩

/-- The call that committed the payment has not returned yet, the second one has: the event
has been processed to completion, and nothing has been announced. -/
theorem webhooks_unannounced : ∃ w₁ w₂, Deliveries cornerCafe 100 200 "pi" w₁ w₂ ∧
    emittedCount w₂ (DomainEvent.isOrderPaid 100) = 0 ∧
    emittedCount w₂ (DomainEvent.isPaymentSucceeded 200) = 0 :=
  Deliveries.of_runIf (n := 11) (by decide)

end CafePos
