import CafePos.DeadIntents
import CafePos.Fingerprints

/-!
# No client secret ahead of its payment

The intent is opened before the payment's row is written, and a replay asks the gateway for
the secret again. Yet a secret leaves `CreatePaymentService.create` only after the row has been
committed, and a replay hands out the secret of a payment for the order it names, because the
key was stored by a request about that order (`Reachable.keyMeaning_payment`). At the gateway
an intent is confirmed by whoever holds its secret (`Honest`); so a success is always about an
intent that has a row.
-/

namespace CafePos

open Interleaving

variable {cfg : Config}

/-- The client secret a call has returned. -/
def returnedSecret (t : PosThread) : Option ClientSecret :=
  match t.call, t.prog with
  | .createPayment .., some (.done (.ok (.payment ⟨.payment view, _⟩))) => view.clientAction
  | _, _ => none

/-- A client has been given the secret of intent `i`. -/
def secretGiven (w : PosWorld) (i : String) : Bool :=
  w.threads.any fun t => returnedSecret t == some ⟨i⟩

/-- Whoever confirms an intent holds its secret. -/
def holdsSecret (w : PosWorld) : PosAct → Bool
  | .world (.confirm i _) => secretGiven w i
  | _ => true

/-- The worlds of the runs in which intents are confirmed with their client secrets only. -/
def Honest (cfg : Config) (w : PosWorld) : Prop :=
  Checked (system cfg) (fun w a => holdsSecret w a = true) opening w

theorem Honest.reachable {w : PosWorld} (h : Honest cfg w) : Reachable cfg w := Checked.runs h

/-! ## Secrets and rows -/

/-- A returned secret is that of a committed payment for the order named in the request, over
the order's total. -/
def SecretsStored (w : PosWorld) : Prop :=
  ∀ t ∈ w.threads, ∀ principal orderId input key view replayed secret,
    t.call = .createPayment principal orderId input key →
    t.Answered (.ok (.payment ⟨.payment view, replayed⟩)) → view.clientAction = some secret →
    ∃ p o, w.shared.db.payments.get view.id = some p ∧
      p.providerIntentId = some secret.intent ∧ p.orderId = orderId ∧
      w.shared.db.orders.get orderId = some o ∧ p.amountMinor = o.totalMinor

/-- The payment whose secret was returned is for the order that was named. -/
theorem Reachable.secret_order {w : PosWorld} (h : Reachable cfg w) (hcfg : cfg.HashesApart)
    {t : PosThread} {principal : Principal} {orderId : Id} {input : CreatePaymentInput}
    {key : Option String} {view : PaymentView} {replayed : Bool} {p : Payment}
    (ht : t ∈ w.threads) (hcall : t.call = .createPayment principal orderId input key)
    (ha : t.Answered (.ok (.payment ⟨.payment view, replayed⟩)))
    (hp : w.shared.db.payments.get view.id = some p) : p.orderId = orderId := by
  obtain ⟨j, hj⟩ := List.mem_iff_getElem?.mp ht
  obtain ⟨s, -, hs, hpost⟩ := h.sound.answered hj ha
  rw [hcall] at hpost
  obtain ⟨created, hcreated, -, hgiven⟩ := hpost
  obtain rfl := Reply.payment.inj hcreated
  -- a stored key stands for a payment for the order it was presented with
  have hkey : ∀ {k view'}, Stored s.db k (paymentHash cfg principal orderId input)
      (.payment view') → view'.id = view.id → p.orderId = orderId := by
    rintro k view' ⟨row, hrow, hhash, hbody⟩ hid
    obtain ⟨view'', p', -, hbody', hp', hpo, -⟩ :=
      h.keyMeaning_payment hcfg (hs.key hrow) hhash
    obtain rfl := ResponseBody.payment.inj (Option.some.inj (hbody'.symm.trans hbody))
    rw [hid, hp] at hp'
    obtain rfl := Option.some.inj hp'
    exact hpo
  cases hgiven with
  | fresh hp₀ hpo _ _ =>
    obtain ⟨p', hp', hev⟩ := hs.payment hp₀
    obtain rfl := Option.some.inj (hp.symm.trans hp')
    exact hev.orderId.trans hpo
  | replayed _ hstored hre =>
    rcases hre with rfl | ⟨view', secret, p₀, rfl, hview, -, -⟩
    · exact hkey hstored rfl
    · obtain rfl := ResponseBody.payment.inj hview
      exact hkey hstored rfl

theorem Reachable.secretsStored {w : PosWorld} (h : Reachable cfg w) (hcfg : cfg.HashesApart) :
    SecretsStored w := by
  intro t ht principal orderId input key view replayed secret hcall ha hsecret
  obtain ⟨p, hp, hpi⟩ := h.secret_stored ht hcall ha hsecret
  have hpo := h.secret_order hcfg ht hcall ha hp
  obtain ⟨o, ho, hfits⟩ := h.sound.inv.1.payment hp
  exact ⟨p, o, hp, hpi, hpo, hpo ▸ ho, hfits.amount⟩

/-- An intent whose secret was given away has a payment. -/
theorem Reachable.row_of_secretGiven {w : PosWorld} (h : Reachable cfg w) {i : String}
    (hi : secretGiven w i) :
    ∃ id p, w.shared.db.payments.get id = some p ∧ p.providerIntentId = some i := by
  obtain ⟨t, ht, hsecret⟩ := List.any_eq_true.mp hi
  simp only [beq_iff_eq, returnedSecret] at hsecret
  split at hsecret
  · rename_i principal orderId input key view replayed hcall hprog
    obtain ⟨p, hp, hpi⟩ := h.secret_stored ht hcall hprog hsecret
    exact ⟨view.id, p, hp, hpi⟩
  · cases hsecret

/-! ## Successes -/

/-- The successes raised at the gateway are about intents that have a payment. -/
def SuccessesKnown (s : Shared) : Prop :=
  ∀ e ∈ s.gateway.events, ∀ intentId amountMinor currency,
    toOutcome e.payload = some (.succeeded intentId amountMinor currency) →
    ∃ i id p, intentId = some (.str i) ∧ s.db.payments.get id = some p ∧
      p.providerIntentId = some i

/-- What an event of the gateway means to us. -/
theorem toOutcome_succeeded (eventId i : String) (it : Intent) :
    toOutcome (Gateway.eventPayload eventId "payment_intent.succeeded" i it) =
      some (.succeeded (some (.str i)) (some (.num it.amount)) (toUpperCase it.currency)) := by
  simp [toOutcome, eventShape, Gateway.eventPayload, Json.isObject, Json.member, currencyOf]

theorem toOutcome_payment_failed (eventId i : String) (it : Intent) :
    toOutcome (Gateway.eventPayload eventId "payment_intent.payment_failed" i it) =
      some (.failed (some (.str i)) none) := by
  simp [toOutcome, eventShape, Gateway.eventPayload, Json.isObject, Json.member, failureReason]

theorem toOutcome_canceled (eventId i : String) (it : Intent) :
    toOutcome (Gateway.eventPayload eventId "payment_intent.canceled" i it) =
      some (.cancelled (some (.str i))) := by
  simp [toOutcome, eventShape, Gateway.eventPayload, Json.isObject, Json.member]

namespace SuccessesKnown

variable {s s' : Shared}

/-- Payments keep their intents. -/
theorem grows (h : SuccessesKnown s) (hg : s.db.Grows s'.db)
    (hevents : s'.gateway.events = s.gateway.events) : SuccessesKnown s' := by
  intro e he intentId amountMinor currency hout
  rw [hevents] at he
  obtain ⟨i, id, p, hi, hp, hpi⟩ := h e he intentId amountMinor currency hout
  obtain ⟨p', hp', hev⟩ := hg.payments id p hp
  exact ⟨i, id, p', hi, hp', hev.providerIntentId.trans hpi⟩

/-- One more event. -/
theorem raise (h : SuccessesKnown s) {e : GatewayEvent} {g : Gateway}
    (hevents : g.events = s.gateway.events ++ [e])
    (he : ∀ intentId amountMinor currency,
      toOutcome e.payload = some (.succeeded intentId amountMinor currency) →
      ∃ i id p, intentId = some (.str i) ∧ s.db.payments.get id = some p ∧
        p.providerIntentId = some i) : SuccessesKnown ⟨s.db, g⟩ := by
  intro e' he' intentId amountMinor currency hout
  rw [hevents] at he'
  rcases List.mem_append.mp he' with hold | hnew
  · exact h e' hold intentId amountMinor currency hout
  · rw [List.mem_singleton.mp hnew] at hout
    exact he intentId amountMinor currency hout

/-- Requests of ours raise no success. -/
theorem moves (h : SuccessesKnown s) {g : Gateway} (hg : s.gateway.Moves g) :
    SuccessesKnown ⟨s.db, g⟩ := by
  rcases hg with ⟨inp, request, r, hcreate⟩ | ⟨inp, i, rfl⟩
  · refine h.grows (.refl _) ?_
    simp only [stripeCreate] at hcreate
    split at hcreate
    · obtain ⟨-, rfl⟩ := Prod.mk.inj (Option.some.inj hcreate)
      rfl
    · split at hcreate
      · split at hcreate <;>
        · obtain ⟨-, rfl⟩ := Prod.mk.inj (Option.some.inj hcreate)
          rfl
      · split at hcreate
        · cases hcreate
        · obtain ⟨-, rfl⟩ := Prod.mk.inj (Option.some.inj hcreate)
          rfl
  · simp only [stripeCancel]
    split
    · exact h
    · split
      · split
        · refine h.raise rfl fun intentId amountMinor currency hout => ?_
          rw [toOutcome_canceled] at hout
          cases hout
        · exact h
      · exact h

/-- A success is raised when a customer confirms, and then the intent has a payment. -/
theorem confirm (h : SuccessesKnown s) {i eventId : String} {g : Gateway}
    (hg : s.gateway.confirm i eventId = some g)
    (hrow : ∃ id p, s.db.payments.get id = some p ∧ p.providerIntentId = some i) :
    SuccessesKnown ⟨s.db, g⟩ := by
  simp only [Gateway.confirm] at hg
  split at hg
  · split at hg
    · obtain rfl := Option.some.inj hg
      refine h.raise rfl fun intentId amountMinor currency hout => ?_
      rw [toOutcome_succeeded] at hout
      obtain ⟨rfl, -, -⟩ := GatewayOutcome.succeeded.inj (Option.some.inj hout)
      obtain ⟨id, p, hp, hpi⟩ := hrow
      exact ⟨i, id, p, rfl, hp, hpi⟩
    · cases hg
  · cases hg

theorem decline (h : SuccessesKnown s) {i eventId : String} {g : Gateway}
    (hg : s.gateway.decline i eventId = some g) : SuccessesKnown ⟨s.db, g⟩ := by
  simp only [Gateway.decline] at hg
  split at hg
  · split at hg
    · obtain rfl := Option.some.inj hg
      refine h.raise rfl fun intentId amountMinor currency hout => ?_
      rw [toOutcome_payment_failed] at hout
      cases hout
    · cases hg
  · cases hg

end SuccessesKnown

/-- The step lemma of honest runs, and from it the run lemma. -/
theorem Honest.successesKnown {w : PosWorld} (h : Honest cfg w) : SuccessesKnown w.shared := by
  induction h with
  | refl => exact fun e he => absurd he List.not_mem_nil
  | tail hw ha hs ih =>
    have hreach : Reachable cfg _ := hw.runs
    cases World.transition_of_act hs with
    | start c => exact ih
    | step ht hp hx =>
      have hmove := (hreach.sound.step ht hp trivial hx).1
      refine hmove.preserves ih (fun g hg => ih.moves hg) fun ws hc _ _ => ?_
      exact ih.grows (hc.grows hreach.sound.inv.1) rfl
    | crash ht _ => exact ih
    | @world e s' hs' =>
      cases e with
      | confirm i eventId =>
        obtain ⟨g, hg, rfl⟩ := Option.map_eq_some_iff.mp hs'
        exact ih.confirm hg (hreach.row_of_secretGiven ha)
      | decline i eventId =>
        obtain ⟨g, hg, rfl⟩ := Option.map_eq_some_iff.mp hs'
        exact ih.decline hg

/-- What `apply` decides about an event, if it looks now. -/
def decisionNow (db : Db) (outcome : GatewayOutcome) (intentId : Option Json)
    (order : Option OrderRecord) : PaymentDecision :=
  let payment : Option (Id × Payment) := Query.answer db (.paymentByIntent intentId)
  decidePaymentOutcome outcome (payment.map toRecord) order

/-- A payment is found by its intent. -/
theorem paymentByIntent_isSome {db : Db} {id : Id} {p : Payment} {i : String}
    (hp : db.payments.get id = some p) (hpi : p.providerIntentId = some i) :
    ∃ q : Id × Payment, Query.answer db (.paymentByIntent (some (.str i))) = some q := by
  have hmem : (id, p) ∈ db.payments.select fun _ p =>
      p.providerIntentId.any fun j => Json.isString j (some (.str i)) :=
    Table.mem_select.mpr ⟨hp, by simp [hpi, Json.isString]⟩
  simp only [Query.answer]
  cases hs : db.payments.select fun _ p =>
      p.providerIntentId.any fun j => Json.isString j (some (.str i)) with
  | nil =>
    rw [hs] at hmem
    cases hmem
  | cons q qs => exact ⟨q, rfl⟩

/-- A success about a known intent is not refused for want of a payment. -/
theorem decisionNow_ne {db : Db} {id : Id} {p : Payment} {i : String} {amountMinor : Option Json}
    {currency : String} {order : Option OrderRecord} (why : Option Json)
    (hp : db.payments.get id = some p) (hpi : p.providerIntentId = some i) :
    decisionNow db (.succeeded (some (.str i)) amountMinor currency) (some (.str i)) order ≠
      .refuse (.noPaymentRow why) := by
  obtain ⟨q, hq⟩ := paymentByIntent_isSome hp hpi
  simp only [decisionNow, hq, Option.map_some, decidePaymentOutcome, decideSuccess]
  split
  · simp
  · split
    · simp
    · split
      · simp
      · split
        · simp
        · split <;> simp

/-- In every run in which intents are confirmed with their secrets only, every secret that was
returned belongs to a committed payment for the order named in the request, and no success
raised at the gateway is refused for want of a payment, whenever it is looked at. -/
theorem secrets_follow_payments (hcfg : cfg.HashesApart) {w : PosWorld} (h : Honest cfg w) :
    SecretsStored w ∧ ∀ e ∈ w.shared.gateway.events, ∀ intentId amountMinor currency order why,
      toOutcome e.payload = some (.succeeded intentId amountMinor currency) →
      decisionNow w.shared.db (.succeeded intentId amountMinor currency) intentId order ≠
        .refuse (.noPaymentRow why) := by
  refine ⟨h.reachable.secretsStored hcfg, ?_⟩
  intro e he intentId amountMinor currency order why hout
  obtain ⟨i, id, p, rfl, hp, hpi⟩ := h.successesKnown e he intentId amountMinor currency hout
  exact decisionNow_ne why hp hpi

/-- A café like `cornerCafe` whose fingerprints tell all scopes apart. -/
def carefulCafe : Config := { cornerCafe with hashRequest := hashedText fun _ => "" }

theorem carefulCafe_hashesApart : carefulCafe.HashesApart :=
  ⟨id, fun _ => "", Function.injective_id, fun _ _ => rfl⟩

/-- Order 100 is paid by card under key `k`: payment 200, intent `pi`. The answer is lost, and
the client asks again. -/
def payTwice : List PosAct :=
  .start (.createPayment (.staff 7) 100 ⟨.card, none⟩ (some "k")) :: steps 1 10 (supply 200 "pi") ++
    .start (.createPayment (.staff 7) 100 ⟨.card, none⟩ (some "k")) :: steps 2 3 (supply 201 "pj")

theorem secrets_follow_payments_replayed : ∃ w, Honest carefulCafe w ∧
    ((w.threads[2]?).any (fun t => returnedSecret t == some ⟨"pi"⟩) ∧
      w.shared.gateway.events.length = 1) ∧ SecretsStored w := by
  obtain ⟨w, hw, hrow⟩ := Checked.exists_of_runIf (M := system carefulCafe) holdsSecret
    opening (takeOrder ++ payTwice ++ [.world (.confirm "pi" "ev1")])
    (fun w => (w.threads[2]?).any (fun t => returnedSecret t == some ⟨"pi"⟩) ∧
      w.shared.gateway.events.length = 1) (by decide)
  exact ⟨w, hw, hrow, (secrets_follow_payments carefulCafe_hashesApart hw).1⟩

end CafePos
