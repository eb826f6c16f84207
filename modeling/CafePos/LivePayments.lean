import CafePos.Capture
import CafePos.PaymentSteps

/-!
# Live payments of closed orders

An order that is closed, paid or not, should have no payment that is still `PENDING` or
`PROCESSING`. Three separate steps decide that: whoever opens a payment reads the order,
opens the intent and only then inserts the row; whoever closes the order reads the live
payment, cancels its intent and only then moves the order. Nothing ties the last step of one
to the first step of the other, so a row can be inserted for an order that has been closed
meanwhile, and an order can be closed over a row that was inserted meanwhile.
-/

namespace CafePos

open Interleaving

variable {cfg : Config}

/-- The statuses of an order that takes no payment any more. -/
def OrderStatus.isClosed : OrderStatus → Bool
  | draft => false
  | pendingPayment => false
  | _ => true

/-- No closed order has a live payment. -/
def NoneLiveClosed (db : Db) : Prop :=
  ∀ orderId o id p, db.orders.get orderId = some o → o.status.isClosed →
    db.payments.get id = some p → p.orderId = orderId → p.status ≠ .pending ∧
      p.status ≠ .processing

/-- The order waits for its payment. -/
def Db.waits (db : Db) (orderId : Id) : Bool :=
  (db.orders.get orderId).any fun o => o.status == .pendingPayment

/-- The write takes payment `id` out of the live ones. -/
def Write.retires (id : Id) : Write → Bool
  | .payment id' p => id' == id && !p.status.isLive
  | _ => false

/-- A live payment is committed only while its order waits, and an order stops waiting only
in a transaction that retires the live payments it has by then. -/
def closesBehindItself : Call → Op → Sess → Shared → Bool
  | _, .commit, l, s => l.log.all fun w => match w with
    | .payment _ p => !p.status.isLive || s.db.waits p.orderId
    | .order id o => !s.db.waits id || o.status == .pendingPayment ||
      (s.db.livePayments id).all fun q => l.log.any (Write.retires q.1)
    | _ => true
  | _, _, _, _ => true

/-! ## What a log writes -/

/-- A log that stores a live payment moves no order. -/
theorem Commits.live_or_moves {P : PosPermit} {c : Call} {s : Shared} {ws : List Write}
    (h : Commits cfg P c s ws) :
    (∀ w ∈ ws, ∀ id p, w = .payment id p → p.status.isLive = false) ∨
      ∀ w ∈ ws, ∀ id o, w ≠ .order id o := by
  have hmove : ∀ {r : TransitionRequest} {row : Order}, ∀ w ∈ moveWrites r row,
      ∀ id p, w = .payment id p → p.status.isLive = false :=
    forall_moveWrites (fun _ _ h => by cases h) (fun _ _ h => by cases h)
  have hstamp : ∀ {id : Id} {e : PaymentEvent} {paymentId : Option Id} {now : Instant},
      ∀ w ∈ stampWrites id e paymentId now, ∀ id p, w = .payment id p → p.status.isLive = false :=
    forall_stampWrites fun _ _ _ h => by cases h
  have hsettle : ∀ {id : Id} {p : Payment} {status : PaymentStatus}
      {method : Option PaymentMethod} {guarded : Bool}, status.isLive = false →
      ∀ w ∈ settleWrites id p status method guarded, ∀ id p, w = .payment id p →
        p.status.isLive = false := by
    refine fun hlive => forall_settleWrites fun _ _ h => ?_
    obtain ⟨-, rfl⟩ := Write.payment.inj h
    exact hlive
  cases h with
  | create =>
    exact Or.inl (forall_underKey (fun _ _ _ _ h => by cases h)
      (forall_createWrites (fun _ _ h => by cases h) (fun _ _ h => by cases h)
        (fun _ _ _ h => by cases h) (fun _ _ h => by cases h)) _ _ _)
  | checkout => exact Or.inl (List.forall_mem_append.mpr ⟨hmove, by simp⟩)
  | cash hm ht hle hkey hrow hpending hp hfree hconf hstore =>
    subst hp
    refine Or.inl (forall_underKey (fun _ _ _ _ h => by cases h)
      (List.forall_mem_cons.mpr ⟨fun _ _ h => ?_, hmove⟩) _ _ _)
    obtain ⟨-, rfl⟩ := Write.payment.inj h
    rfl
  | openPayment => exact Or.inr (forall_underKey (fun _ _ _ _ h => by cases h) (by simp) _ _ _)
  | record => exact Or.inl (by simp)
  | skip => exact Or.inl hstamp
  | markPayment he hno hp hstatus =>
    refine Or.inl (List.forall_mem_append.mpr ⟨hsettle ?_, hstamp⟩)
    rcases hstatus with rfl | rfl <;> rfl
  | markPaid =>
    exact Or.inl (List.forall_mem_append.mpr
      ⟨hmove, List.forall_mem_append.mpr ⟨hsettle rfl, hstamp⟩⟩)
  | close =>
    refine Or.inl (List.forall_mem_append.mpr ⟨hmove, forall_liveWrites fun _ _ _ _ h => ?_⟩)
    obtain ⟨-, rfl⟩ := Write.payment.inj h
    rfl
  | staff => exact Or.inl hmove
  | refundPart => exact Or.inl (by simp)
  | refundAll => exact Or.inl (List.forall_mem_cons.mpr ⟨fun _ _ h => (by cases h), hmove⟩)

/-! ## The runs in which closed orders have no live payment -/

/-- The order of a live payment waits for it. -/
def LiveWaits (db : Db) : Prop :=
  ∀ id p, db.payments.get id = some p → p.status.isLive → db.waits p.orderId

theorem Db.waits_iff {db : Db} {orderId : Id} : db.waits orderId ↔
    ∃ o, db.orders.get orderId = some o ∧ o.status = .pendingPayment := by
  simp [Db.waits, Option.any_eq_true]

theorem LiveWaits.noneLiveClosed {db : Db} (h : LiveWaits db) : NoneLiveClosed db := by
  intro orderId o id p ho hclosed hp hpo
  have hdead : p.status.isLive = false := by
    by_contra hlive
    obtain ⟨o', ho', hpending⟩ := Db.waits_iff.mp (h id p hp (Bool.not_eq_false _ ▸ hlive))
    rw [hpo, ho] at ho'
    obtain rfl := Option.some.inj ho'
    rw [hpending] at hclosed
    cases hclosed
  constructor
  · intro hs
    rw [hs] at hdead
    cases hdead
  · intro hs
    rw [hs] at hdead
    cases hdead

/-- What the condition says of a payment and of an order in the log. -/
theorem closesBehindItself_payment {c : Call} {l : Sess} {s : Shared} {id : Id} {p : Payment}
    (h : closesBehindItself c .commit l s) (hp : .payment id p ∈ l.log) (hlive : p.status.isLive) :
    s.db.waits p.orderId := by
  have hw := List.all_eq_true.mp h _ hp
  simpa [hlive] using hw

theorem closesBehindItself_order {c : Call} {l : Sess} {s : Shared} {id : Id} {o : Order}
    (h : closesBehindItself c .commit l s) (ho : .order id o ∈ l.log) (hwaits : s.db.waits id)
    (hne : o.status ≠ .pendingPayment) {q : Id × Payment} (hq : q ∈ s.db.livePayments id) :
    ∃ p, .payment q.1 p ∈ l.log ∧ p.status.isLive = false := by
  have hw := List.all_eq_true.mp h _ ho
  simp only [hwaits, Bool.not_true, Bool.false_or, Bool.or_eq_true, beq_iff_eq, hne, false_or,
    List.all_eq_true, List.any_eq_true] at hw
  obtain ⟨w, hw, hret⟩ := hw q hq
  cases w with
  | payment id' p =>
    simp only [Write.retires, Bool.and_eq_true, beq_iff_eq, Bool.not_eq_true'] at hret
    obtain ⟨rfl, hdead⟩ := hret
    exact ⟨p, hw, hdead⟩
  | _ => cases hret

theorem LiveWaits.commit {P : PosPermit} {c : Call} {l : Sess} {s : Shared}
    (h : LiveWaits s.db) (hs : Settled s.db) (hc : Commits cfg P c s l.log)
    (hcheck : closesBehindItself c .commit l s) : LiveWaits (store.applyAll l.log s.db) := by
  have hstep := hc.paymentStep hs
  intro id p hp hlive
  have hafter := hstep.get hp
  -- the order waited before the commit
  have hbefore : s.db.waits p.orderId := by
    rcases hafter with ⟨hold, -⟩ | hnew
    · exact h id p hold hlive
    · exact closesBehindItself_payment hcheck hnew hlive
  obtain ⟨o, ho, hpending⟩ := Db.waits_iff.mp hbefore
  obtain ⟨o', ho', -⟩ := (hc.grows hs).orders _ o ho
  refine Db.waits_iff.mpr ⟨o', ho', ?_⟩
  rcases get_order_applyAll ho' with hsame | hmoved
  · obtain rfl := Option.some.inj (ho.symm.trans hsame)
    exact hpending
  · by_contra hne
    rcases hafter with ⟨hold, hnone⟩ | hnew
    · -- a payment that was live before: the log retires it
      have hq : (id, p) ∈ s.db.livePayments p.orderId :=
        Table.mem_select.mpr ⟨hold, by simp [hlive]⟩
      obtain ⟨p', hp', -⟩ := closesBehindItself_order hcheck hmoved hbefore hne hq
      exact hnone p' hp'
    · -- a new one: its log moves no order
      rcases hc.live_or_moves with hdead | hstays
      · rw [hdead _ hnew id p rfl] at hlive
        cases hlive
      · exact hstays _ hmoved _ _ rfl

/-- The runs in which nothing is left live behind a closed order. -/
def closingContext (cfg : Config) : Context cfg where
  permit := .ofCheck closesBehindItself
  extra s := LiveWaits s.db
  move {c o l s _ _} hp hs h hm := by
    refine hm.preserves (J := fun s => LiveWaits s.db) h (fun _ _ => h) ?_
    intro ws hc hlog hevent
    by_cases ho : o = .commit
    · subst ho
      obtain rfl := hlog rfl
      exact h.commit hs hc hp
    · obtain ⟨id, e, rfl⟩ := hevent ho
      exact h
  happen _ _ h hs := by
    rw [happen_db hs]
    exact h

/-- In every run in which a live payment is committed only while its order waits, and an order
stops waiting only together with the live payments it has by then, no closed order ever has a
live payment. -/
theorem closed_orders_settled {w : PosWorld}
    (h : Runs (system cfg) (.ofCheck closesBehindItself) opening w) :
    NoneLiveClosed w.shared.db :=
  LiveWaits.noneLiveClosed ((closingContext cfg).holds (fun _ _ hp => by cases hp) h).2

/-- Staff member 7 cancels order 100, in `n` operations. -/
def cancelOrder (i n : ℕ) : List PosAct :=
  .start (.cancel (.staff 7) 100 none) :: steps i n (supply 0 "")

theorem closed_orders_settled_cancelled : ∃ w,
    Runs (system cornerCafe) (.ofCheck closesBehindItself) opening w ∧
    (∃ o p, w.shared.db.orders.get 100 = some o ∧ o.status.isClosed ∧
      w.shared.db.payments.get 200 = some p ∧ p.orderId = 100) ∧ NoneLiveClosed w.shared.db := by
  obtain ⟨w, hw, hrow⟩ := exists_of_check cornerCafe closesBehindItself
    (takeOrder ++ payByCard 1 ++ cancelOrder 2 9)
    (fun w => (w.shared.db.orders.get 100).any (fun o => o.status.isClosed) &&
      (w.shared.db.payments.get 200).any fun p => p.orderId == 100) (by decide)
  simp only [Option.any_eq_true, Bool.and_eq_true, beq_iff_eq] at hrow
  obtain ⟨⟨o, ho, hclosed⟩, p, hp, hpo⟩ := hrow
  exact ⟨w, hw, ⟨o, p, ho, hclosed, hp, hpo⟩, closed_orders_settled hw⟩

/-! ## A run in which a cancelled order has one -/

/-- A card payment has found the order payable and opened its intent; the order is cancelled;
then the payment's row is inserted. Everybody has been answered, and the cancelled order has a
`PENDING` payment. -/
theorem cancelled_order_left_live : ∃ w, Reachable cornerCafe w ∧
    (∀ t ∈ w.threads, ∃ a, t.Answered a) ∧
    (∃ o p, w.shared.db.orders.get 100 = some o ∧ o.status = .cancelled ∧
      w.shared.db.payments.get 200 = some p ∧ p.orderId = 100 ∧ p.status = .pending) ∧
    ¬ NoneLiveClosed w.shared.db := by
  obtain ⟨w, hw, hreturned, hrow⟩ := Reachable.exists_of_runIf cornerCafe
    (takeOrder ++ .start (.createPayment (.staff 7) 100 ⟨.card, none⟩ none) ::
      steps 1 3 (supply 200 "pi") ++ cancelOrder 2 7 ++ steps 1 3 (supply 200 "pi"))
    (fun w => (∀ t ∈ w.threads, t.returned) ∧
      (w.shared.db.orders.get 100).any (fun o => o.status == .cancelled) &&
        (w.shared.db.payments.get 200).any fun p => p.orderId == 100 && p.status == .pending)
    (by decide)
  simp only [Option.any_eq_true, Bool.and_eq_true, beq_iff_eq] at hrow
  obtain ⟨⟨o, ho, hcancelled⟩, p, hp, hpo, hpending⟩ := hrow
  refine ⟨w, hw, fun t ht => Thread.returned_iff.mp (hreturned t ht),
    ⟨o, p, ho, hcancelled, hp, hpo, hpending⟩, fun hnone => ?_⟩
  have hclosed : o.status.isClosed := by
    rw [hcancelled]
    rfl
  exact (hnone 100 o 200 p ho hclosed hp hpo).1 hpending

end CafePos
