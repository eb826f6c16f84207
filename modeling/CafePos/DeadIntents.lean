import CafePos.KeySteps
import CafePos.LivePayments

/-!
# Intents of orders that were ended unpaid

Whoever holds the client secret of a confirmable intent can still be charged. So cancelling
or expiring an order kills the intent first, and moves the order after. The two doors look at
the order's live payment only: a payment that was declined is `FAILED`, not live, and its
intent stays confirmable; and a payment whose row is inserted after the order was ended is
looked at by nobody.
-/

namespace CafePos

open Interleaving

variable {cfg : Config}

/-- The statuses of an order that was ended unpaid. -/
def OrderStatus.isEnded : OrderStatus → Bool
  | cancelled => true
  | expired => true
  | _ => false

/-- The order was ended unpaid. -/
def Db.ended (db : Db) (orderId : Id) : Bool :=
  (db.orders.get orderId).any fun o => o.status.isEnded

/-- The payment's intent can still be confirmed. -/
def Payment.confirmable (p : Payment) (g : Gateway) : Bool :=
  p.providerIntentId.any fun i => (g.intents.get i).any fun it => it.status == .confirmable

/-- A client secret that was returned to a client confirms nothing once the order its intent
was opened for has been ended unpaid. -/
def SecretsDead (w : PosWorld) : Prop :=
  ∀ t ∈ w.threads, ∀ principal orderId input key view replayed secret it,
    t.call = .createPayment principal orderId input key →
    t.Answered (.ok (.payment ⟨.payment view, replayed⟩)) → view.clientAction = some secret →
    w.shared.gateway.intents.get secret.intent = some it → w.shared.db.ended it.orderId →
    ¬ w.shared.gateway.Confirmable secret.intent

/-- No payment is stored for an order that was ended unpaid, unless its intent is dead; and
when an order is ended, the intents of all its payments are dead, but for the payment that the
same transaction settles. -/
def killsEveryIntent : Call → Op → Sess → Shared → Bool
  | _, .commit, l, s => l.log.all fun w => match w with
    | .payment _ p => !s.db.ended p.orderId || !p.confirmable s.gateway
    | .order id o => !o.status.isEnded ||
      (s.db.payments.select fun _ p => p.orderId == id && p.confirmable s.gateway).all
        fun q => l.log.any (Write.retires q.1)
    | _ => true
  | _, _, _, _ => true

/-! ## What the doors that end an order kill -/

theorem Payment.confirmable_iff {p : Payment} {g : Gateway} :
    p.confirmable g ↔ ∃ i, p.providerIntentId = some i ∧ g.Confirmable i := by
  simp [Payment.confirmable, Gateway.Confirmable, Option.any_eq_true]

/-- A payment's later states name the same intent. -/
theorem Payment.Evolves.confirmable {p p' : Payment} (h : p.Evolves p') (g : Gateway) :
    p'.confirmable g = p.confirmable g := by
  rw [Payment.confirmable, h.providerIntentId, Payment.confirmable]

/-- An intent that was opened and can be confirmed could be confirmed before. -/
theorem Payment.confirmable_before {p : Payment} {g g' : Gateway} (hg : g.Grows g')
    (hopened : ∀ i, p.providerIntentId = some i → g.OpenedFor i p) (h : p.confirmable g') :
    p.confirmable g := by
  obtain ⟨i, hi, it', hit', hst⟩ := Payment.confirmable_iff.mp h
  obtain ⟨it, hit, -⟩ := hopened i hi
  obtain ⟨it'', hit'', hev⟩ := hg i it hit
  obtain rfl := Option.some.inj (hit'.symm.trans hit'')
  exact Payment.confirmable_iff.mpr ⟨i, hi, it, hit, hev.confirmable hst⟩

/-- A log that ends an order settles only payments whose intent is cancelled. -/
theorem Commits.ends_or_kills {P : PosPermit} {c : Call} {s : Shared} {ws : List Write}
    (h : Commits cfg P c s ws) :
    (∀ w ∈ ws, ∀ id o, w = .order id o → o.status.isEnded = false) ∨
      ∀ w ∈ ws, ∀ id p, w = .payment id p → p.confirmable s.gateway = false := by
  have hmove : ∀ {r : TransitionRequest} {row : Order}, r.target.isEnded = false →
      ∀ w ∈ moveWrites r row, ∀ id o, w = .order id o → o.status.isEnded = false := by
    refine fun htarget => forall_moveWrites (fun _ _ h => ?_) (fun _ _ h => by cases h)
    obtain ⟨-, rfl⟩ := Write.order.inj h
    exact htarget
  have hstamp : ∀ {id : Id} {e : PaymentEvent} {paymentId : Option Id} {now : Instant},
      ∀ w ∈ stampWrites id e paymentId now, ∀ id o, w = .order id o → o.status.isEnded = false :=
    forall_stampWrites fun _ _ _ h => by cases h
  cases h with
  | create hkey hpriced hn hrow hfree =>
    refine Or.inl (forall_underKey (fun _ _ _ _ h => by cases h)
      (forall_createWrites (fun _ _ h => by cases h) (fun _ _ h => ?_)
        (fun _ _ _ h => by cases h) (fun _ _ h => by cases h)) _ _ _)
    obtain ⟨-, rfl⟩ := Write.order.inj h
    subst hrow
    simp only [orderRow]
    split <;> rfl
  | checkout =>
    refine Or.inl (List.forall_mem_append.mpr ⟨hmove rfl, ?_⟩)
    simp only [List.forall_mem_cons]
    refine ⟨fun _ _ h => (by cases h), fun _ _ h => ?_, fun _ h => absurd h List.not_mem_nil⟩
    obtain ⟨-, rfl⟩ := Write.order.inj h
    rfl
  | cash =>
    exact Or.inl (forall_underKey (fun _ _ _ _ h => by cases h)
      (List.forall_mem_cons.mpr ⟨fun _ _ h => (by cases h), hmove rfl⟩) _ _ _)
  | openPayment => exact Or.inl (forall_underKey (fun _ _ _ _ h => by cases h) (by simp) _ _ _)
  | record => exact Or.inl (by simp)
  | skip => exact Or.inl hstamp
  | markPayment =>
    exact Or.inl (List.forall_mem_append.mpr
      ⟨forall_settleWrites fun _ _ h => (by cases h), hstamp⟩)
  | markPaid =>
    exact Or.inl (List.forall_mem_append.mpr ⟨hmove rfl, List.forall_mem_append.mpr
      ⟨forall_settleWrites fun _ _ h => (by cases h), hstamp⟩⟩)
  | close hcloses hrow hsrc hlive =>
    refine Or.inr (List.forall_mem_append.mpr
      ⟨forall_moveWrites (fun _ _ h => by cases h) (fun _ _ h => by cases h),
        forall_liveWrites fun q hq id p h => ?_⟩)
    obtain ⟨-, rfl⟩ := Write.payment.inj h
    obtain ⟨-, -, hdead⟩ := hlive q hq
    rw [Bool.eq_false_iff]
    intro hconf
    obtain ⟨i, hi, it, hit, hst⟩ := Payment.confirmable_iff.mp hconf
    obtain ⟨it', hit', hcancelled⟩ := hdead i hi
    obtain rfl := Option.some.inj (hit.symm.trans hit')
    rw [hst] at hcancelled
    cases hcancelled
  | staff hrow hstaff =>
    refine Or.inl (hmove ?_)
    rcases target_of_isStaffTransition hstaff with rfl | rfl | rfl <;> rfl
  | refundPart => exact Or.inl (by simp)
  | refundAll =>
    exact Or.inl (List.forall_mem_cons.mpr ⟨fun _ _ h => (by cases h), hmove rfl⟩)

/-! ## The runs in which they kill all there is -/

/-- The intents of the payments of ended orders are dead. -/
def EndedDead (s : Shared) : Prop :=
  ∀ id p, s.db.payments.get id = some p → s.db.ended p.orderId → p.confirmable s.gateway = false

/-- What the condition says of a payment and of an order in the log. -/
theorem killsEveryIntent_payment {c : Call} {l : Sess} {s : Shared} {id : Id} {p : Payment}
    (h : killsEveryIntent c .commit l s) (hp : .payment id p ∈ l.log)
    (hended : s.db.ended p.orderId) : p.confirmable s.gateway = false := by
  have hw := List.all_eq_true.mp h _ hp
  simpa [hended] using hw

theorem killsEveryIntent_order {c : Call} {l : Sess} {s : Shared} {id : Id} {o : Order}
    (h : killsEveryIntent c .commit l s) (ho : .order id o ∈ l.log) (hended : o.status.isEnded)
    {pid : Id} {p : Payment} (hp : s.db.payments.get pid = some p) (hpo : p.orderId = id)
    (hnone : ∀ p', .payment pid p' ∉ l.log) : p.confirmable s.gateway = false := by
  have hw := List.all_eq_true.mp h _ ho
  simp only [hended, Bool.not_true, Bool.false_or, List.all_eq_true, List.any_eq_true] at hw
  rw [Bool.eq_false_iff]
  intro hconf
  obtain ⟨w, hw, hret⟩ := hw (pid, p) (Table.mem_select.mpr ⟨hp, by simp [hpo, hconf]⟩)
  cases w with
  | payment id' p' =>
    simp only [Write.retires, Bool.and_eq_true, beq_iff_eq] at hret
    exact hnone p' (hret.1 ▸ hw)
  | _ => cases hret

theorem EndedDead.commit {P : PosPermit} {c : Call} {l : Sess} {s : Shared}
    (h : EndedDead s) (hs : Settled s.db) (hc : Commits cfg P c s l.log)
    (hcheck : killsEveryIntent c .commit l s) : EndedDead (s.commit l.log) := by
  have hg := hc.grows hs
  intro id p hp hended
  obtain ⟨o', ho', hend'⟩ := (Option.any_eq_true _ _).mp hended
  have hafter := (hc.paymentStep hs).get hp
  rcases get_order_applyAll ho' with hsame | hmoved
  · -- ended before
    have hbefore : s.db.ended p.orderId := (Option.any_eq_true _ _).mpr ⟨o', hsame, hend'⟩
    rcases hafter with ⟨hold, -⟩ | hnew
    · exact h id p hold hbefore
    · have hdead := killsEveryIntent_payment hcheck hnew hbefore
      exact hdead
  · -- ended by this log
    rcases hafter with ⟨hold, hnone⟩ | hnew
    · exact killsEveryIntent_order hcheck hmoved hend' hold rfl hnone
    · rcases hc.ends_or_kills with hnot | hkills
      · rw [hnot _ hmoved _ _ rfl] at hend'
        cases hend'
      · exact hkills _ hnew _ _ rfl

theorem EndedDead.gateway {s : Shared} {g : Gateway} (h : EndedDead s) (ho : IntentsOpened s)
    (hg : s.gateway.Grows g) : EndedDead ⟨s.db, g⟩ := by
  intro id p hp hended
  rw [Bool.eq_false_iff]
  intro hconf
  have hbefore := Payment.confirmable_before hg (fun i hi => ho id p i hp hi) hconf
  rw [h id p hp hended] at hbefore
  cases hbefore

/-- The runs in which an ended order leaves no intent alive. -/
def endingContext (cfg : Config) : Context cfg where
  permit := .ofCheck killsEveryIntent
  extra s := IntentsOpened s ∧ EndedDead s
  move {c o l s _ _} hp hs h hm := by
    refine hm.preserves (J := fun s => IntentsOpened s ∧ EndedDead s) h
      (fun g hg => ⟨h.1.gateway hg.grows, h.2.gateway h.1 hg.grows⟩) ?_
    intro ws hc hlog hevent
    refine ⟨h.1.commit hs hc, ?_⟩
    by_cases ho : o = .commit
    · subst ho
      obtain rfl := hlog rfl
      exact h.2.commit hs hc hp
    · obtain ⟨id, e, rfl⟩ := hevent ho
      exact h.2
  happen {e s s'} _ _ h hs := by
    have hdb := happen_db hs
    have hgrow := (happen_grows hs).gateway
    obtain ⟨db, g⟩ := s'
    subst hdb
    exact ⟨h.1.gateway hgrow, h.2.gateway h.1 hgrow⟩

/-- A client secret that was returned belongs to a stored payment. -/
theorem Reachable.secret_stored {w : PosWorld} (h : Reachable cfg w) {t : PosThread}
    {principal : Principal} {orderId : Id} {input : CreatePaymentInput} {key : Option String}
    {view : PaymentView} {replayed : Bool} {secret : ClientSecret} (ht : t ∈ w.threads)
    (hcall : t.call = .createPayment principal orderId input key)
    (ha : t.Answered (.ok (.payment ⟨.payment view, replayed⟩)))
    (hsecret : view.clientAction = some secret) :
    ∃ p, w.shared.db.payments.get view.id = some p ∧ p.providerIntentId = some secret.intent := by
  -- the payment as it was when the call answered
  have hthen : ∃ s p, Grows s w.shared ∧ s.db.payments.get view.id = some p ∧
      p.providerIntentId = some secret.intent := by
    obtain ⟨j, hj⟩ := List.mem_iff_getElem?.mp ht
    obtain ⟨s, -, hs, hpost⟩ := h.sound.answered hj ha
    rw [hcall] at hpost
    obtain ⟨created, hcreated, -, hgiven⟩ := hpost
    obtain rfl := Reply.payment.inj hcreated
    cases hgiven with
    | fresh hp hpo hintent hstored => exact ⟨s, _, hs, hp, hintent secret hsecret⟩
    | replayed hk hstored hre =>
      rcases hre with rfl | ⟨view', secret', p, -, hview, hp, hpi⟩
      · -- no secret is stored with a key
        obtain ⟨row, hrow, -, hbody⟩ := hstored
        rw [(h.keysAnswered.payment _ row view (hs.key hrow) hbody).1] at hsecret
        cases hsecret
      · obtain rfl := ResponseBody.payment.inj hview
        obtain rfl := Option.some.inj hsecret
        exact ⟨s, p, hs, hp, hpi⟩
  obtain ⟨s, p, hs, hp, hpi⟩ := hthen
  obtain ⟨p', hp', hev⟩ := hs.payment hp
  exact ⟨p', hp', hev.providerIntentId.trans hpi⟩

/-- In every run in which no payment with a live intent is stored for an ended order, and no
order is ended while another payment of it has a live intent, a returned client secret dies
with its order. -/
theorem no_secret_outlives_order {w : PosWorld}
    (h : Runs (system cfg) (.ofCheck killsEveryIntent) opening w) : SecretsDead w := by
  have hreach : Reachable cfg w := h.mono fun w a _ => Runs.allows_all w a
  obtain ⟨hs, hopened, hdead⟩ := (endingContext cfg).holds
    ⟨fun _ _ _ hp => (by cases hp), fun _ _ hp => (by cases hp)⟩ h
  intro t ht principal orderId input key view replayed secret it hcall ha hsecret hit hended hconf
  obtain ⟨p, hp, hpi⟩ := hreach.secret_stored ht hcall ha hsecret
  obtain ⟨it', hit', ho, -⟩ := hopened _ p _ hp hpi
  obtain rfl := Option.some.inj (hit.symm.trans hit')
  rw [ho] at hended
  have hnot := hdead _ p hp hended
  rw [Payment.confirmable_iff.mpr ⟨_, hpi, hconf⟩] at hnot
  cases hnot

/-- Call 1 has returned the secret of intent `pi`, which was opened for order 100, and the order
has been ended. -/
def isEndedWithSecret (w : PosWorld) : Bool :=
  (w.threads[1]?).any (fun t => (match t.call with
    | .createPayment .. => true
    | _ => false) && decide (t.Answered (.ok (.payment ⟨.payment
      ⟨200, .pending, none, 9000, "THB", .stripe, some ⟨"pi"⟩⟩, false⟩)))) &&
  (w.shared.gateway.intents.get "pi").any (fun it => it.orderId == 100) && w.shared.db.ended 100

theorem exists_of_isEndedWithSecret {w : PosWorld} (h : isEndedWithSecret w) :
    ∃ t ∈ w.threads, ∃ principal orderId input key view replayed it,
      t.call = .createPayment principal orderId input key ∧
      t.Answered (.ok (.payment ⟨.payment view, replayed⟩)) ∧ view.clientAction = some ⟨"pi"⟩ ∧
      w.shared.gateway.intents.get "pi" = some it ∧ w.shared.db.ended it.orderId := by
  simp only [isEndedWithSecret, Option.any_eq_true, Bool.and_eq_true, beq_iff_eq,
    decide_eq_true_eq] at h
  obtain ⟨⟨⟨t, ht, hcall, ha⟩, it, hit, ho⟩, hended⟩ := h
  split at hcall
  · rename_i principal orderId input key heq
    exact ⟨t, List.mem_of_getElem? ht, principal, orderId, input, key, _, false, it, heq, ha, rfl,
      hit, ho.symm ▸ hended⟩
  · cases hcall

theorem no_secret_outlives_order_cancelled : ∃ w,
    Runs (system cornerCafe) (.ofCheck killsEveryIntent) opening w ∧ isEndedWithSecret w ∧
    SecretsDead w := by
  obtain ⟨w, hw, hrow⟩ := exists_of_check cornerCafe killsEveryIntent
    (takeOrder ++ payByCard 1 ++ cancelOrder 2 9) (fun w => isEndedWithSecret w) (by decide)
  exact ⟨w, hw, hrow, no_secret_outlives_order hw⟩

/-! ## A run in which a secret outlives its order -/

/-- The card is declined, the payment becomes `FAILED`, and the order is cancelled: there is no
live payment to cancel at the gateway, and the customer can still confirm the intent. -/
theorem secret_outlives_order : ∃ w, Reachable cornerCafe w ∧ isEndedWithSecret w ∧
    w.shared.gateway.Confirmable "pi" ∧ ¬ SecretsDead w := by
  obtain ⟨w, hw, hrow, hconf⟩ := Reachable.exists_of_runIf cornerCafe
    (takeOrder ++ payByCard 1 ++ .world (.decline "pi" "ev1") ::
      deliver 2 (eventAboutPi "ev1" "payment_intent.payment_failed") 300 9 ++ cancelOrder 4 7)
    (fun w => isEndedWithSecret w ∧
      (w.shared.gateway.intents.get "pi").any fun it => it.status == .confirmable) (by decide)
  have hconf : w.shared.gateway.Confirmable "pi" := by
    simpa [Option.any_eq_true, Gateway.Confirmable] using hconf
  refine ⟨w, hw, hrow, hconf, fun hdead => ?_⟩
  obtain ⟨t, ht, principal, orderId, input, key, view, replayed, it, hcall, ha, hsecret, hit,
    hended⟩ := exists_of_isEndedWithSecret hrow
  exact hdead t ht principal orderId input key view replayed _ it hcall ha hsecret hit hended hconf

end CafePos
