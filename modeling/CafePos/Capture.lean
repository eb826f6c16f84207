import CafePos.Money

/-!
# Captured money

A success that was stamped processed is forgotten, so its own payment should have become
`SUCCEEDED`. `decideSuccess` looks at the order instead: an order that is `PAID` makes it
skip the event, whichever payment paid. A first attempt that was declined leaves its intent
confirmable; if the order is then paid in cash and the customer confirms the first intent
after all, the event is stamped and the money is recorded nowhere.
-/

namespace CafePos

open Interleaving

variable {cfg : Config}

/-- Every stamped success about a payment, for its amount and in its currency, has made that
payment `SUCCEEDED`. -/
def CapturesKept (db : Db) : Prop :=
  ∀ eventId e id p, db.paymentEvents.get eventId = some e → e.processedAt.isSome →
    db.payments.get id = some p → captures e p → p.status = .succeeded

/-- An order that a success is about and that is read as `PAID` was paid by the payment the
success is about. -/
def paidByItself : Call → Op → Sess → Shared → Bool
  | .processEvent eventId, .query .pool (.order orderId), _, s =>
    match s.db.paymentEvents.get eventId, s.db.orders.get orderId with
    | some e, some o => o.status != .paid ||
      (s.db.payments.select fun _ p => captures e p && p.orderId == orderId).all
        fun q => q.2.status == .succeeded
    | _, _ => true
  | _, _, _, _ => true

/-! ## What a commit does to the inbox -/

/-- Two payments that one event captures are one. -/
theorem Settled.captured {db : Db} (h : Settled db) {e : PaymentEvent} {id id' : Id}
    {p p' : Payment} (hp : db.payments.get id = some p) (hp' : db.payments.get id' = some p')
    (hcap : captures e p) (hcap' : captures e p') : id = id' := by
  obtain ⟨i, a, hout, hnamed, -⟩ := captures_iff.mp hcap
  obtain ⟨i', a', hout', hnamed', -⟩ := captures_iff.mp hcap'
  obtain ⟨rfl, -⟩ := GatewayOutcome.succeeded.inj (Option.some.inj (hout.symm.trans hout'))
  exact h.named hp hp' hnamed hnamed'

theorem reportsSuccess_of_captures {e : PaymentEvent} {p : Payment} (h : captures e p) :
    reportsSuccess e := by
  obtain ⟨i, a, hout, -⟩ := captures_iff.mp h
  rw [reportsSuccess, hout]

/-- An event after a stamp: what it was, or the stamped one. -/
theorem get_stampWrites {id x : Id} {e e' : PaymentEvent} {paymentId : Option Id} {now : Instant}
    {db : Db} (h : (store.applyAll (stampWrites id e paymentId now) db).paymentEvents.get x =
      some e') : db.paymentEvents.get x = some e' ∨ x = id ∧ e'.payload = e.payload := by
  rw [stampWrites] at h
  split at h
  · simp only [Store.applyAll_cons, Store.applyAll_nil, store_apply, Write.apply,
      Table.get_put] at h
    split at h
    · rename_i hx
      obtain rfl := Option.some.inj h
      exact Or.inr ⟨hx, rfl⟩
    · exact Or.inl h
  · exact Or.inl h

/-- The doors that end an unpaid order are not the inbox's. -/
theorem Closes.not_inbox {c : Call} {r : TransitionRequest} {guarded : Bool}
    (h : Closes c r guarded) : (∀ id, c ≠ .processEvent id) ∧ ∀ event, c ≠ .record event := by
  cases h with
  | cancel => exact ⟨fun _ => nofun, fun _ => nofun⟩
  | expire => exact ⟨fun _ => nofun, fun _ => nofun⟩

/-- Only the inbox's own doors write it. -/
theorem Commits.paymentEvents {P : PosPermit} {c : Call} {s : Shared} {ws : List Write}
    (h : Commits cfg P c s ws) (hprocess : ∀ id, c ≠ .processEvent id)
    (hrecord : ∀ event, c ≠ .record event) :
    (store.applyAll ws s.db).paymentEvents = s.db.paymentEvents := by
  have hno : ∀ w ∈ ws, ∀ id e, w ≠ .event id e := by
    have hmove : ∀ {r : TransitionRequest} {row : Order}, ∀ w ∈ moveWrites r row,
        ∀ id e, w ≠ .event id e := forall_moveWrites (fun _ _ => nofun) (fun _ _ => nofun)
    cases h with
    | create =>
      exact forall_underKey (fun _ _ _ _ => nofun) (forall_createWrites (fun _ _ => nofun)
        (fun _ _ => nofun) (fun _ _ _ => nofun) (fun _ _ => nofun)) _ _ _
    | checkout => exact List.forall_mem_append.mpr ⟨hmove, by simp⟩
    | cash =>
      exact forall_underKey (fun _ _ _ _ => nofun)
        (List.forall_mem_cons.mpr ⟨fun _ _ => nofun, hmove⟩) _ _ _
    | openPayment => exact forall_underKey (fun _ _ _ _ => nofun) (by simp) _ _ _
    | record => exact absurd rfl (hrecord _)
    | skip => exact absurd rfl (hprocess _)
    | markPayment => exact absurd rfl (hprocess _)
    | markPaid => exact absurd rfl (hprocess _)
    | close => exact List.forall_mem_append.mpr ⟨hmove, forall_liveWrites fun _ _ _ _ => nofun⟩
    | staff => exact hmove
    | refundPart => simp
    | refundAll => exact List.forall_mem_cons.mpr ⟨fun _ _ => nofun, hmove⟩
  exact applyAll_paymentEvents hno s.db

/-- Why a success is stamped after a commit: it was before, or its payment was captured, or
its order was found `PAID`. -/
theorem Commits.stamped {P : PosPermit} {c : Call} {s : Shared} {ws : List Write}
    (h : Commits cfg P c s ws) {eventId : Id} {e' : PaymentEvent}
    (he' : (store.applyAll ws s.db).paymentEvents.get eventId = some e')
    (hdone : e'.processedAt.isSome) (hsuccess : reportsSuccess e') :
    (∃ e, s.db.paymentEvents.get eventId = some e ∧ e.processedAt.isSome ∧
      e.payload = e'.payload) ∨
    (∃ id p, (store.applyAll ws s.db).payments.get id = some p ∧ captures e' p ∧
      p.status = .succeeded) ∨
    ∃ e, e.payload = e'.payload ∧ FoundPaid P (.processEvent eventId) eventId e s := by
  have hold : s.db.paymentEvents.get eventId = some e' →
      ∃ e, s.db.paymentEvents.get eventId = some e ∧ e.processedAt.isSome ∧
        e.payload = e'.payload := fun he => ⟨e', he, hdone, rfl⟩
  have helse : (∀ id, c ≠ .processEvent id) → (∀ event, c ≠ .record event) →
      ∃ e, s.db.paymentEvents.get eventId = some e ∧ e.processedAt.isSome ∧
        e.payload = e'.payload := by
    intro hp hr
    rw [h.paymentEvents hp hr] at he'
    exact hold he'
  cases h with
  | record hfree hnew =>
    simp only [Store.applyAll_cons, Store.applyAll_nil, store_apply, Write.apply,
      Table.get_put] at he'
    split at he'
    · obtain rfl := Option.some.inj he'
      cases hdone
    · exact Or.inl (hold he')
  | skip he hnone hwhy =>
    rcases get_stampWrites he' with he' | ⟨rfl, hpayload⟩
    · exact Or.inl (hold he')
    · refine Or.inr (Or.inr ⟨_, hpayload.symm, hwhy ?_⟩)
      rw [← reportsSuccess_of_payload hpayload]
      exact hsuccess
  | markPayment he hno hp hstatus =>
    rw [Store.applyAll_append] at he'
    rcases get_stampWrites he' with he' | ⟨rfl, hpayload⟩
    · refine Or.inl (hold ?_)
      rw [applyAll_paymentEvents (forall_settleWrites fun _ _ => by simp)] at he'
      exact he'
    · rw [reportsSuccess_of_payload hpayload] at hsuccess
      exact absurd hsuccess hno
  | @markPaid _ _ id _ p _ method _ he hp hcap hrow hpending =>
    rw [applyAll_moveWrites, applyAll_settleWrites (fun h => absurd h Bool.false_ne_true)] at he' ⊢
    rcases get_stampWrites he' with he' | ⟨rfl, hpayload⟩
    · exact Or.inl (hold he')
    · refine Or.inr (Or.inl ⟨id, { p with status := .succeeded, method := method.or p.method },
        ?_, ?_, rfl⟩)
      · rw [applyAll_payments (forall_stampWrites fun _ _ _ => by simp)]
        exact Table.get_put_self ..
      · rw [captures_of_payload hpayload]
        exact hcap
  | close hcloses =>
    obtain ⟨hprocess, hrecord⟩ := hcloses.not_inbox
    exact Or.inl (helse hprocess hrecord)
  | _ => exact Or.inl (helse (by simp) (by simp))

/-- A stamped success has its payment, and it is `SUCCEEDED`. -/
def SuccessesApplied (db : Db) : Prop :=
  ∀ eventId e, db.paymentEvents.get eventId = some e → e.processedAt.isSome → reportsSuccess e →
    ∃ id p, db.payments.get id = some p ∧ captures e p ∧ p.status = .succeeded

/-- An intent has one payment, so a stamped success that has its payment has no other. -/
theorem SuccessesApplied.capturesKept {db : Db} (h : SuccessesApplied db) (hs : Settled db) :
    CapturesKept db := by
  intro eventId e id p he hdone hp hcap
  obtain ⟨id', p', hp', hcap', hsucc⟩ := h eventId e he hdone (reportsSuccess_of_captures hcap)
  obtain rfl := hs.captured hp hp' hcap hcap'
  obtain rfl := Option.some.inj (hp.symm.trans hp')
  exact hsucc

/-! ## The runs in which captured money is kept -/

theorem SuccessesApplied.commit {c : Call} {s : Shared} {ws : List Write}
    (h : SuccessesApplied s.db) (hs : Settled s.db)
    (hc : Commits cfg (.ofCheck paidByItself) c s ws) :
    SuccessesApplied (store.applyAll ws s.db) := by
  have hg := hc.grows hs
  -- a payment that had succeeded has succeeded still
  have hkeep : ∀ {e e' : PaymentEvent} {id : Id} {p : Payment}, e.payload = e'.payload →
      s.db.payments.get id = some p → captures e p → p.status = .succeeded →
      ∃ id p, (store.applyAll ws s.db).payments.get id = some p ∧ captures e' p ∧
        p.status = .succeeded := by
    intro e e' id p hpayload hp hcap hsucc
    obtain ⟨p', hp', hev⟩ := hg.payments id p hp
    refine ⟨id, p', hp', ?_, hev.succeeded hsucc⟩
    rw [captures_of_evolves hev, ← captures_of_payload hpayload]
    exact hcap
  intro eventId e' he' hdone hsuccess
  rcases hc.stamped he' hdone hsuccess with ⟨e, he, hdone₀, hpayload⟩ | hcaptured |
    ⟨e, hpayload, s₀, l₀, e₀, id, p, row, hgrow, hpermit, he₀, hpayload₀, hp, hcap, hrow, hpaid⟩
  · obtain ⟨id, p, hp, hcap, hsucc⟩ := h eventId e he hdone₀
      (by rw [reportsSuccess_of_payload hpayload]; exact hsuccess)
    exact hkeep hpayload hp hcap hsucc
  · exact hcaptured
  · -- found `PAID`: by the condition, paid by this very payment
    have hcap₀ : captures e₀ p := by
      rw [captures_of_payload hpayload₀]
      exact hcap
    have hcheck : paidByItself (.processEvent eventId) (.query .pool (.order p.orderId)) l₀ s₀ :=
      hpermit
    simp only [paidByItself, he₀, hrow, hpaid, bne_self_eq_false, Bool.false_or,
      List.all_eq_true, beq_iff_eq] at hcheck
    have hsucc : p.status = .succeeded :=
      hcheck (id, p) (Table.mem_select.mpr ⟨hp, by simp [hcap₀]⟩)
    obtain ⟨p₁, hp₁, hev₁⟩ := hgrow.payment hp
    refine hkeep hpayload hp₁ ?_ (hev₁.succeeded hsucc)
    rw [captures_of_evolves hev₁]
    exact hcap

/-- The runs in which no success finds its order paid by another payment. -/
def captureContext (cfg : Config) : Context cfg where
  permit := .ofCheck paidByItself
  extra s := SuccessesApplied s.db
  move _ hs h hm := hm.preserves (J := fun s => SuccessesApplied s.db) h (fun _ _ => h)
    fun _ hc _ _ => h.commit hs hc
  happen _ _ h hs := by
    rw [happen_db hs]
    exact h

/-- In every run in which a success never finds its order paid by another payment, every
stamped success has made its own payment `SUCCEEDED`. -/
theorem captured_money_kept {w : PosWorld}
    (h : Runs (system cfg) (.ofCheck paidByItself) opening w) : CapturesKept w.shared.db := by
  have hboth := (captureContext cfg).holds (fun _ _ he => by cases he) h
  exact SuccessesApplied.capturesKept hboth.2 hboth.1

/-! ## A run in which it is not -/

/-- The customer of order 100 chooses to pay by card: payment 200, intent `pi`. -/
def payByCard (i : ℕ) : List PosAct :=
  .start (.createPayment (.staff 7) 100 ⟨.card, none⟩ none) :: steps i 6 (supply 200 "pi")

/-- The gateway's event about that intent. -/
def eventAboutPi (eventId type : String) : GatewayEvent :=
  ⟨eventId, type, Gateway.eventPayload eventId type "pi" ⟨9000, "thb", 100, none, .confirmable⟩⟩

/-- The event is delivered (call `i`, row `rowId` of the inbox) and processed in `n`
operations (call `i + 1`). -/
def deliver (i : ℕ) (event : GatewayEvent) (rowId : Id) (n : ℕ) : List PosAct :=
  .start (.record event) :: steps i 1 (supply rowId "") ++
    .start (.processEvent rowId) :: steps (i + 1) n (supply 0 "")

theorem captured_money_kept_card : ∃ w,
    Runs (system cornerCafe) (.ofCheck paidByItself) opening w ∧
    (∃ e p, w.shared.db.paymentEvents.get 300 = some e ∧ e.processedAt.isSome ∧
      w.shared.db.payments.get 200 = some p ∧ captures e p) ∧ CapturesKept w.shared.db := by
  obtain ⟨w, hw, hrow⟩ := exists_of_check cornerCafe paidByItself
    (takeOrder ++ payByCard 1 ++ .world (.confirm "pi" "ev1") ::
      deliver 2 (eventAboutPi "ev1" "payment_intent.succeeded") 300 12)
    (fun w => (w.shared.db.paymentEvents.get 300).any fun e => e.processedAt.isSome &&
      (w.shared.db.payments.get 200).any (captures e)) (by decide)
  simp only [Option.any_eq_true, Bool.and_eq_true] at hrow
  obtain ⟨e, he, hdone, p, hp, hcap⟩ := hrow
  exact ⟨w, hw, ⟨e, p, he, hdone, hp, hcap⟩, captured_money_kept hw⟩

/-- A declined card, then cash, then the customer confirms the card after all: the success is
stamped, and its payment stays `FAILED`. -/
theorem captured_money_lost : ∃ w, Reachable cornerCafe w ∧
    (∃ e p, w.shared.db.paymentEvents.get 301 = some e ∧ e.processedAt.isSome ∧
      w.shared.db.payments.get 200 = some p ∧ captures e p ∧ p.status = .failed) ∧
    ¬ CapturesKept w.shared.db := by
  obtain ⟨w, hw, hrow⟩ := Reachable.exists_of_runIf cornerCafe
    (takeOrder ++ payByCard 1 ++ .world (.decline "pi" "ev1") ::
      deliver 2 (eventAboutPi "ev1" "payment_intent.payment_failed") 300 9 ++
      payCash 4 201 ++ .world (.confirm "pi" "ev2") ::
      deliver 5 (eventAboutPi "ev2" "payment_intent.succeeded") 301 4)
    (fun w => (w.shared.db.paymentEvents.get 301).any fun e => e.processedAt.isSome &&
      (w.shared.db.payments.get 200).any fun p => captures e p && p.status == .failed)
    (by decide)
  simp only [Option.any_eq_true, Bool.and_eq_true, beq_iff_eq] at hrow
  obtain ⟨e, he, hdone, p, hp, hcap, hfailed⟩ := hrow
  refine ⟨w, hw, ⟨e, p, he, hdone, hp, hcap, hfailed⟩, fun hkept => ?_⟩
  have hsucc := hkept 301 e 200 p he hdone hp hcap
  rw [hfailed] at hsucc
  cases hsucc

end CafePos
