import CafePos.Capture
import Mathlib

/-!
# A success that was applied

`decideSuccess` recognises a success that was applied before by the status of the order, and
by one status only: `PAID`. The order moves on after that, to the kitchen, to the customer or
to a refund, and a second success about the same intent is then refused, and stays in the
inbox for good.

* `decision_on_applied` — the decision taken in one state, as a function of the order's status;
* `success_stays_applied` — in every run whose events find their applied order still `PAID`,
  every call that processes such an event skips it and leaves it stamped; and in every
  reachable state the decision is to skip exactly while the order is `PAID`.
-/

namespace CafePos

open Interleaving

variable {cfg : Config}

/-! ## The decision in a state -/

/-- What `load` reads in one state. -/
def loaded (db : Db) (outcome : GatewayOutcome) : Option PaymentRecord × Option OrderRecord :=
  match outcome.intent with
  | none => (none, none)
  | some intentId =>
    match ((Query.paymentByIntent intentId).answer db : Option (Id × Payment)) with
    | none => (none, none)
    | some payment => (some (toRecord payment),
        (db.orders.get payment.2.orderId).map fun o => ⟨payment.2.orderId, o.status⟩)

/-- What `apply` decides about an event in one state; nothing, if its payload cannot be
interpreted. -/
def decisionOn (db : Db) (e : PaymentEvent) : Option PaymentDecision :=
  (toOutcome e.payload).map fun outcome =>
    decidePaymentOutcome outcome (loaded db outcome).1 (loaded db outcome).2

/-- The decision is to skip. -/
def PaymentDecision.isSkip : PaymentDecision → Bool
  | .skip _ => true
  | _ => false

/-- The decision is to refuse. -/
def PaymentDecision.isRefuse : PaymentDecision → Bool
  | .refuse _ => true
  | _ => false

/-- A payment with the intent is found by it. -/
theorem Settled.paymentByIntent {db : Db} (h : Settled db) {id : Id} {p : Payment}
    {i : Option Json} (hp : db.payments.get id = some p) (hi : p.named i) :
    (Query.paymentByIntent i).answer db = some (id, p) := by
  simp only [Query.answer]
  cases hq : (db.payments.select fun _ q => q.named i).head? with
  | none =>
    rw [List.head?_eq_none_iff, Table.select_eq_nil] at hq
    have hno := hq id p hp
    rw [hi] at hno
    cases hno
  | some q =>
    obtain ⟨hq', hnamed⟩ := Table.mem_select.mp (List.mem_of_mem_head? hq)
    obtain rfl := h.named hp hq' hi hnamed
    obtain rfl := Option.some.inj (hp.symm.trans hq')
    exact hq

/-- A success with the payment's amount and currency is decided by the order's status. -/
theorem decideSuccess_of_agrees {amount : Option Json} {payment : PaymentRecord}
    (hamount : Json.isNumber payment.amountMinor amount) (order : OrderRecord) :
    decideSuccess amount payment.currency payment (some order) =
      if order.status = .paid then .skip .alreadyPaid
      else if order.status ≠ .pendingPayment then .refuse (.notPending order.id order.status)
      else .markPaid payment.id order.id := by
  simp [decideSuccess, hamount]

/-- Once a payment has succeeded, a success that captures it is skipped while the order is
`PAID` and refused ever after. -/
theorem decision_on_applied {db : Db} (h : Settled db) {id : Id} {p : Payment} {o : Order}
    {e : PaymentEvent} (hp : db.payments.get id = some p) (hsucc : p.status = .succeeded)
    (ho : db.orders.get p.orderId = some o) (hcap : captures e p) :
    decisionOn db e = some (if o.status = .paid then .skip .alreadyPaid
      else .refuse (.notPending p.orderId o.status)) := by
  obtain ⟨i, amount, hout, hnamed, hamount⟩ := captures_iff.mp hcap
  have hsettled : o.status.isSettled := by
    obtain ⟨o', ho', hfits⟩ := h.payment hp
    obtain rfl := Option.some.inj (ho.symm.trans ho')
    exact hfits.settled hsucc
  have hpending : o.status ≠ .pendingPayment := by
    intro hs
    rw [hs] at hsettled
    cases hsettled
  have hload : loaded db (.succeeded i amount p.currency) =
      (some (toRecord (id, p)), some ⟨p.orderId, o.status⟩) := by
    simp only [loaded, GatewayOutcome.intent, h.paymentByIntent hp hnamed, ho, Option.map_some]
  rw [decisionOn, hout, Option.map_some, hload]
  simp only [decidePaymentOutcome]
  rw [show p.currency = (toRecord (id, p)).currency from rfl, decideSuccess_of_agrees hamount]
  simp [hpending]

/-! ## Processing an applied success -/

/-- The event captures a payment of the order that has succeeded. -/
def Db.applied (db : Db) (eventId orderId : Id) : Bool :=
  (db.paymentEvents.get eventId).any fun e => !(db.payments.select fun _ p =>
    p.orderId == orderId && p.status == .succeeded && captures e p).isEmpty

/-- A call that processes a success applied before finds its order still `PAID`. -/
def findsPaid : Call → Op → Sess → Shared → Bool
  | .processEvent eventId, .query .pool (.order orderId), _, s =>
    !s.db.applied eventId orderId || (s.db.orders.get orderId).any fun o => o.status == .paid
  | _, _, _, _ => true

/-- The runs in which every success applied before finds its order `PAID`. -/
def replayContext (cfg : Config) : Context cfg where
  permit := .ofCheck findsPaid
  extra _ := True
  move _ _ _ _ := trivial
  happen _ _ _ _ := trivial

/-- The event is stamped. -/
def Db.stamped (db : Db) (eventId : Id) : Prop :=
  ∃ e, db.paymentEvents.get eventId = some e ∧ e.processedAt.isSome

/-- What a call that skips an event ends with: the event is stamped, and the call has written
nothing else. -/
def Skipped (eventId : Id) (changed : Bool) (l : Sess) (s : Shared) : Prop :=
  changed = false ∧ s.db.stamped eventId ∧
    ∀ ws ∈ l.committed, ∃ e, ws = [.event eventId e]

/-- A stamp is there for good. -/
theorem Grows.stamped {s s' : Shared} {eventId : Id} (h : Grows s s')
    (hs : s.db.stamped eventId) : s'.db.stamped eventId := by
  obtain ⟨e, he, hdone⟩ := hs
  obtain ⟨e', he', hev⟩ := h.event he
  exact ⟨e', he', by rw [hev.processedAt hdone]; exact hdone⟩

/-- Skipping an event leaves it stamped, whoever stamps it. -/
theorem markProcessed_skips {Γ : Context cfg} {eventId : Id} {s : Shared} {e : PaymentEvent}
    {paymentId : Option Id} {E : Err → Sess → Shared → Prop}
    (he : s.db.paymentEvents.get eventId = some e)
    (hwhy : reportsSuccess e → FoundPaid Γ.permit (.processEvent eventId) eventId e s) :
    Ensures Γ (.processEvent eventId) (markProcessed eventId paymentId)
      (fun _ l s => Skipped eventId false l s) E idle s := by
  refine .inbox fun s₁ fresh now eff hs₁ _ heff => ?_
  obtain ⟨e₁, he₁, hev⟩ := hs₁.rely.event he
  simp only [Statement.effect, he₁] at heff
  split at heff
  · rename_i hn
    subst heff
    refine Or.inr ⟨_, _, rfl, ?_, rfl, ⟨_, Table.get_put_self .., rfl⟩, ?_⟩
    · have hcommit : Commits cfg Γ.permit (.processEvent eventId) s₁
          (stampWrites eventId e₁ paymentId now) := by
        refine .skip he₁ (Option.isNone_iff_eq_none.mp hn) fun hs => ?_
        rw [reportsSuccess_of_payload hev.payload] at hs
        exact (hwhy hs).grows hs₁.rely hev.payload
      rw [stampWrites, if_pos hn] at hcommit
      exact hcommit
    · intro ws hws
      exact ⟨_, List.mem_singleton.mp hws⟩
  · rename_i hn
    subst heff
    refine Or.inl ⟨rfl, rfl, ⟨e₁, he₁, ?_⟩, fun ws hws => absurd hws List.not_mem_nil⟩
    rw [Option.isSome_iff_ne_none]
    simpa using hn

/-- A call that processes a success applied before skips it. -/
theorem processEvent_skips {eventId id : Id} {s : Shared} {e : PaymentEvent} {p : Payment}
    {E : Err → Sess → Shared → Prop} (he : s.db.paymentEvents.get eventId = some e)
    (hp : s.db.payments.get id = some p) (hsucc : p.status = .succeeded) (hcap : captures e p) :
    Ensures (replayContext cfg) (.processEvent eventId) (processEvent eventId) (Skipped eventId) E
      idle s := by
  obtain ⟨i, amount, hout, hnamed, hamount⟩ := captures_iff.mp hcap
  refine .tryCatch (.bind (.select fun s₁ hs₁ _ => ?_))
  obtain ⟨e₁, he₁, hev₁⟩ := hs₁.rely.event he
  simp only [Query.answer, he₁]
  split
  · -- somebody stamped it meanwhile
    rename_i hnone
    refine .pure ⟨rfl, ⟨e₁, he₁, ?_⟩, fun ws hws => absurd hws List.not_mem_nil⟩
    rw [Option.isSome_iff_ne_none]
    simpa [Option.filter] using hnone
  · rename_i event hevent
    obtain rfl := Option.some.inj (Option.filter_eq_some_iff.mp hevent).1
    rw [hev₁.payload, hout]
    refine .bind (.load hs₁.inv ?_ ?_)
    · -- the payment is there
      intro s₂ hs₂ hno
      obtain ⟨p₂, hp₂, hevp⟩ := (hs₁.rely.trans hs₂.rely).payment hp
      refine absurd ?_ (hno i rfl id p₂ hp₂)
      rw [Payment.named, hevp.providerIntentId]
      exact hnamed
    · intro s₂ i' id' q₀ q hs₂ hi' hnamed' hq hevq hpermit
      obtain rfl := Option.some.inj hi'
      obtain ⟨p₂, hp₂, hevp⟩ := (hs₁.rely.trans hs₂.rely).payment hp
      obtain ⟨e₂, he₂, hev₂⟩ := hs₂.rely.event he₁
      -- the payment it finds is the one that has succeeded
      have hnamed₂ : p₂.named i := by
        rw [Payment.named, hevp.providerIntentId]
        exact hnamed
      have hnamedq : q.named i := by
        rw [Payment.named, hevq.providerIntentId]
        exact hnamed'
      obtain rfl := hs₂.inv.1.named hp₂ hq hnamed₂ hnamedq
      obtain rfl := Option.some.inj (hp₂.symm.trans hq)
      have hcap₂ : captures e₂ p₂ := by
        rw [captures_of_payload (hev₂.payload.trans hev₁.payload), captures_of_evolves hevp]
        exact hcap
      obtain ⟨row, hrow, -⟩ := hs₂.inv.1.payment hp₂
      -- so its order is `PAID`
      have happlied : s₂.db.applied eventId p₂.orderId := by
        rw [Db.applied, he₂, Option.any_some, Bool.not_eq_true', List.isEmpty_eq_false_iff]
        refine List.ne_nil_of_mem (Table.mem_select.mpr ⟨hp₂, ?_⟩)
        simp [hevp.succeeded hsucc, hcap₂]
      have hpaid : row.status = .paid := by
        have hcheck : findsPaid (.processEvent eventId) (.query .pool (.order p₂.orderId)) idle
            s₂ = true := hpermit
        simpa [findsPaid, happlied, hrow] using hcheck
      have hcurrency : p.currency = (toRecord (id, q₀)).currency := by
        have h := hevp.currency.symm.trans hevq.currency
        exact h
      have hamount' : Json.isNumber (toRecord (id, q₀)).amountMinor amount := by
        have h := hevp.amountMinor.symm.trans hevq.amountMinor
        rw [h] at hamount
        exact hamount
      rw [hrow, Option.map_some]
      simp only [decidePaymentOutcome]
      rw [hcurrency, decideSuccess_of_agrees hamount', if_pos hpaid]
      refine .bind (.mono (markProcessed_skips he₂ fun _ => ?_) ?_ fun _ _ _ _ h => h)
      · exact ⟨s₂, idle, e₂, id, p₂, row, .refl s₂, hpermit, he₂, rfl, hp₂, hcap₂, hrow, hpaid⟩
      · exact fun _ _ _ _ h => .pure h

/-! ## Every run -/

/-- A call to process a success that was applied when the call began, at world `w`: once it has
answered, it has skipped the event. -/
theorem replay_skipped {w w' : PosWorld}
    (h : Runs (system cfg) (.ofCheck findsPaid) opening w)
    (hr : Runs (system cfg) (.ofCheck findsPaid) w w') {eventId id : Id} {e : PaymentEvent}
    {p : Payment} (he : w.shared.db.paymentEvents.get eventId = some e)
    (hp : w.shared.db.payments.get id = some p) (hsucc : p.status = .succeeded)
    (hcap : captures e p) {i : ℕ} {t : PosThread} {a : Answer} (hi : w.threads.length ≤ i)
    (ht : w'.threads[i]? = some t) (hcall : t.call = .processEvent eventId) (ha : t.Answered a) :
    a = .ok (.flag false) ∧ w'.shared.db.stamped eventId ∧
      ∀ ws ∈ t.session.committed, ∃ e', ws = [.event eventId e'] := by
  -- the goal of the calls begun from here on
  let post : ℕ → Call → Answer → Sess → Shared → Prop := fun i c a l s =>
    w.threads.length ≤ i → c = .processEvent eventId →
      ∃ b, a = .ok (.flag b) ∧ Skipped eventId b l s
  have hold : ∀ {i : ℕ} {t : PosThread}, w.threads[i]? = some t → ¬ w.threads.length ≤ i :=
    fun ht => Nat.not_le.mpr (List.getElem?_eq_some_iff.mp ht).1
  have hsound := (replayContext cfg).sound trivial h
  have hbase : Sound (replayContext cfg).spec (system cfg) w.shared w.threads.length post w := by
    refine hsound.rebase (.refl _) hsound.inv ?_ ?_
    · exact fun i u b s hu _ _ _ _ => ⟨w.shared, hsound.inv, .refl _,
        fun hi => absurd hi (hold hu)⟩
    · exact fun i u b l s hu _ _ _ hi => absurd hi (hold hu)
  have hstart : Starts (replayContext cfg).spec (system cfg) w.shared w.threads.length post := by
    intro j c s hj hpc hinv hs
    by_cases hc : c = .processEvent eventId
    · subst hc
      obtain ⟨e', he', heve⟩ := hs.event he
      obtain ⟨p', hp', hevp⟩ := hs.payment hp
      have hcap' : captures e' p' := by
        rw [captures_of_payload heve.payload, captures_of_evolves hevp]
        exact hcap
      have hdoor : Ensures (replayContext cfg) (.processEvent eventId)
          (Reply.flag <$> processEvent eventId)
          (fun r l s => ∃ b, (.ok r : Answer) = .ok (.flag b) ∧ Skipped eventId b l s)
          (fun _ _ _ => False) idle s :=
        .map ((processEvent_skips he' hp' (hevp.succeeded hsucc) hcap').mono
          (fun b _ _ _ hb => ⟨b, rfl, hb⟩) fun _ _ _ _ h => h)
      refine Spec.wp_mono (fun r l' s' _ hr _ _ => ?_) hdoor
      cases r with
      | ok r => exact hr
      | error e => exact hr.elim
    · exact Spec.wp_mono (fun _ _ _ _ _ _ hc' => absurd hc' hc)
        ((replayContext cfg).starts w.shared w.threads.length j c s hj hpc hinv hs)
  have hend := hbase.runs hstart (replayContext cfg).happens hr
  obtain ⟨s, -, hs, hpost⟩ := hend.answered ht ha
  obtain ⟨b, rfl, rfl, hstamped, hlogs⟩ := hpost hi hcall
  exact ⟨rfl, hs.stamped hstamped, hlogs⟩

/-- **A success that was applied stays applied while its order is `PAID`.** In every run whose
events find the orders they were applied to still `PAID`: a call that begins to process a
success after the payment it captures has succeeded answers that it changed nothing, writes
nothing but the stamp, and the event ends stamped. And in every reachable state the decision
about such an event is to skip exactly if the order is `PAID`. -/
theorem success_stays_applied (cfg : Config) :
    (∀ (w w' : PosWorld) (eventId id : Id) (e : PaymentEvent) (p : Payment) (i : ℕ)
      (t : PosThread) (a : Answer), Runs (system cfg) (.ofCheck findsPaid) opening w →
      Runs (system cfg) (.ofCheck findsPaid) w w' →
      w.shared.db.paymentEvents.get eventId = some e → w.shared.db.payments.get id = some p →
      p.status = .succeeded → captures e p → w.threads.length ≤ i → w'.threads[i]? = some t →
      t.call = .processEvent eventId → t.Answered a →
      a = .ok (.flag false) ∧ w'.shared.db.stamped eventId ∧
        ∀ ws ∈ t.session.committed, ∃ e', ws = [.event eventId e']) ∧
    ∀ (w : PosWorld) (eventId id : Id) (e : PaymentEvent) (p : Payment) (o : Order),
      Reachable cfg w → w.shared.db.paymentEvents.get eventId = some e →
      w.shared.db.payments.get id = some p → p.status = .succeeded → captures e p →
      w.shared.db.orders.get p.orderId = some o →
      ((decisionOn w.shared.db e).any PaymentDecision.isSkip ↔ o.status = .paid) := by
  refine ⟨fun w w' eventId id e p i t a h hr he hp hsucc hcap hi ht hcall ha =>
    replay_skipped h hr he hp hsucc hcap hi ht hcall ha, ?_⟩
  intro w eventId id e p o h _ hp hsucc hcap ho
  rw [decision_on_applied h.sound.inv.1 hp hsucc ho hcap]
  by_cases hpaid : o.status = .paid
  · simp [hpaid, PaymentDecision.isSkip]
  · simp [hpaid, PaymentDecision.isSkip]

/-! ## Two successes -/

/-- A run in two parts, evaluated. -/
theorem exists_of_checks (cfg : Config) (check : Call → Op → Sess → Shared → Bool)
    (first rest : List PosAct) (p q : PosWorld → Prop) [DecidablePred p] [DecidablePred q]
    (h : (opening.runIf (system cfg) (World.passes check) first).any (fun w => decide (p w) &&
      (w.runIf (system cfg) (World.passes check) rest).any fun w' => decide (q w')) = true) :
    ∃ w w', Runs (system cfg) (.ofCheck check) opening w ∧ p w ∧
      Runs (system cfg) (.ofCheck check) w w' ∧ q w' := by
  simp only [Option.any_eq_true, Bool.and_eq_true, decide_eq_true_eq] at h
  obtain ⟨w, hw, hp, w', hw', hq⟩ := h
  have hrun : Runs (system cfg) (.ofCheck check) opening w :=
    Runs.of_runIf (fun _ _ => World.allows_of_passes) .refl hw
  have hrest : Runs (system cfg) (.ofCheck check) w w' :=
    Runs.of_runIf (fun _ _ => World.allows_of_passes) .refl hw'
  exact ⟨w, w', hrun, hp, hrest, hq⟩

/-- Payment 200 of order 100 is captured by event 300. -/
def appliedOnce : List PosAct :=
  takeOrder ++ payByCard 1 ++ [.world (.confirm "pi" "ev1")] ++
    deliver 2 (eventAboutPi "ev1" "payment_intent.succeeded") 300 12

/-- The kitchen starts on order 100 (call 4). -/
def startPreparing : List PosAct :=
  .start (.transition (.staff 7) 100 .inPreparation) :: steps 4 6 (supply 0 "")

/-- A second success about the intent is stored as event 301 (call `i`). -/
def recordAgain (i : ℕ) : List PosAct :=
  .start (.record (eventAboutPi "ev2" "payment_intent.succeeded")) :: steps i 1 (supply 301 "")

/-- Event 301 is processed, in `n` operations (call `i`). -/
def processSecond (i n : ℕ) : List PosAct :=
  .start (.processEvent 301) :: steps i n (supply 0 "")

/-- Event 301 captures payment 200, which has succeeded, and `n` calls have been made. -/
def IsReplay (n : ℕ) (w : PosWorld) : Prop :=
  w.threads.length = n ∧ (w.shared.db.paymentEvents.get 301).any fun e =>
    (w.shared.db.payments.get 200).any fun p => p.status == .succeeded && captures e p

instance (n : ℕ) (w : PosWorld) : Decidable (IsReplay n w) := inferInstanceAs (Decidable (_ ∧ _))

theorem IsReplay.facts {n : ℕ} {w : PosWorld} (h : IsReplay n w) :
    ∃ e p, w.shared.db.paymentEvents.get 301 = some e ∧ w.shared.db.payments.get 200 = some p ∧
      p.status = .succeeded ∧ captures e p := by
  obtain ⟨-, hany⟩ := h
  simp only [Option.any_eq_true, Bool.and_eq_true, beq_iff_eq] at hany
  obtain ⟨e, he, p, hp, hsucc, hcap⟩ := hany
  exact ⟨e, p, he, hp, hsucc, hcap⟩

/-- Call `i` processed event 301 and has returned. -/
def HasProcessed (i : ℕ) (w : PosWorld) : Prop :=
  (w.threads[i]?).any fun t => (match t.call with
    | .processEvent eventId => eventId == 301
    | _ => false) && decide (t.Answered (.ok (.flag false)))

instance (i : ℕ) (w : PosWorld) : Decidable (HasProcessed i w) :=
  inferInstanceAs (Decidable (_ = true))

theorem HasProcessed.facts {i : ℕ} {w : PosWorld} (h : HasProcessed i w) :
    ∃ t, w.threads[i]? = some t ∧ t.call = .processEvent 301 ∧ t.Answered (.ok (.flag false)) := by
  simp only [HasProcessed, Option.any_eq_true, Bool.and_eq_true, decide_eq_true_eq] at h
  obtain ⟨t, ht, hcall, ha⟩ := h
  refine ⟨t, ht, ?_, ha⟩
  split at hcall
  · rename_i eventId heq
    rw [heq, beq_iff_eq.mp hcall]
  · cases hcall

theorem success_stays_applied_paid : ∃ w w' t, Runs (system cornerCafe) (.ofCheck findsPaid)
    opening w ∧ Runs (system cornerCafe) (.ofCheck findsPaid) w w' ∧ w'.threads[5]? = some t ∧
    t.call = .processEvent 301 ∧ t.Answered (.ok (.flag false)) ∧
    w'.shared.db.stamped 301 ∧ ∀ ws ∈ t.session.committed, ∃ e', ws = [.event 301 e'] := by
  obtain ⟨w, w', hw, hreplay, hw', hdone⟩ := exists_of_checks cornerCafe findsPaid
    (appliedOnce ++ recordAgain 4) (processSecond 5 4) (IsReplay 5) (HasProcessed 5) (by decide)
  obtain ⟨e, p, he, hp, hsucc, hcap⟩ := hreplay.facts
  obtain ⟨t, ht, hcall, ha⟩ := hdone.facts
  have hskip := (success_stays_applied cornerCafe).1 w w' 301 200 e p 5 t _ hw hw' he hp hsucc
    hcap hreplay.1.le ht hcall ha
  exact ⟨w, w', t, hw, hw', ht, hcall, ha, hskip.2⟩

/-- The kitchen has started on the order when the second success is processed: it is refused,
and stays in the inbox. -/
theorem applied_success_refused : ¬ ∀ (w w' : PosWorld) (eventId id : Id) (e : PaymentEvent)
    (p : Payment) (i : ℕ) (t : PosThread) (a : Answer), Reachable cornerCafe w →
    Runs (system cornerCafe) .all w w' → w.shared.db.paymentEvents.get eventId = some e →
    w.shared.db.payments.get id = some p → p.status = .succeeded → captures e p →
    w.threads.length ≤ i → w'.threads[i]? = some t → t.call = .processEvent eventId →
    t.Answered a → w'.shared.db.stamped eventId := by
  intro hclaim
  obtain ⟨w, w', hw, hreplay, hw', hdone, hunstamped⟩ := exists_of_checks cornerCafe
    (fun _ _ _ _ => true) (appliedOnce ++ startPreparing ++ recordAgain 5) (processSecond 6 3)
    (IsReplay 6) (fun w => HasProcessed 6 w ∧
      (w.shared.db.paymentEvents.get 301).any fun e => e.processedAt.isNone) (by decide)
  obtain ⟨e, p, he, hp, hsucc, hcap⟩ := hreplay.facts
  obtain ⟨t, ht, hcall, ha⟩ := hdone.facts
  obtain ⟨e', he', hstamp⟩ := hclaim w w' 301 200 e p 6 t _
    (hw.mono fun w a _ => Runs.allows_all w a) (hw'.mono fun w a _ => Runs.allows_all w a) he hp
    hsucc hcap hreplay.1.le ht hcall ha
  rw [he', Option.any_some, Option.isNone_iff_eq_none] at hunstamped
  rw [hunstamped] at hstamp
  cases hstamp

end CafePos
