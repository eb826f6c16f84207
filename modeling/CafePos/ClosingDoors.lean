import CafePos.OrderDoors

/-!
# The doors that end an unpaid order keep to the ledger

`CancelOrderService.cancel` and `OrderExpiryService.expireOne`: whatever the gateway
answers, the order only moves when the intent of the live payment they saw is cancelled.
-/

namespace CafePos

open Interleaving

variable {cfg : Config} {Γ : Context cfg} {c : Call}

/-! ## Rows that a transaction may leave alone -/

/-- An update of a payment that is in the log is the update it would make now. -/
theorem Context.kept_settle {l : Sess} {s s₁ : Shared} (hs : Γ.After l s s₁) {id : Id}
    {p : Payment} {status : PaymentStatus} {method : Option PaymentMethod} {guarded : Bool}
    (hp : s.db.payments.get id = some p)
    (hmem : ∀ w ∈ settleWrites id p status method guarded, w ∈ l.log) :
    ∃ p', s₁.db.payments.get id = some p' ∧ p.Evolves p' ∧
      settleWrites id p' status method guarded = settleWrites id p status method guarded := by
  by_cases hg : (guarded && p.status == .succeeded) = true
  · -- refused: a payment that has succeeded is still refused
    obtain ⟨p', hp', hev⟩ := hs.rely.payment hp
    refine ⟨p', hp', hev, ?_⟩
    simp only [Bool.and_eq_true, beq_iff_eq] at hg
    simp [settleWrites, hg.1, hg.2, hev.succeeded hg.2]
  · have hw : Write.payment id { p with status, method := method.or p.method } ∈ l.log :=
      hmem _ (by simp [settleWrites, hg])
    exact ⟨p, (Context.kept_payment hs hw).1.trans hp, .refl p, rfl⟩

/-- A stamp that is in the log is the stamp it would set now. -/
theorem Context.kept_stamp {l : Sess} {s s₁ : Shared} (hs : Γ.After l s s₁) {id : Id}
    {e : PaymentEvent} {paymentId : Option Id} {now : Instant}
    (he : s.db.paymentEvents.get id = some e)
    (hmem : ∀ w ∈ stampWrites id e paymentId now, w ∈ l.log) :
    ∃ e', s₁.db.paymentEvents.get id = some e' ∧ e.Evolves e' ∧
      stampWrites id e' paymentId now = stampWrites id e paymentId now := by
  by_cases hn : e.processedAt.isNone = true
  · have hw : Write.event id { e with processedAt := some now, paymentId := paymentId.or e.paymentId }
        ∈ l.log := hmem _ (by simp [stampWrites, hn])
    exact ⟨e, (Context.kept_event hs hw).trans he, .refl e, rfl⟩
  · obtain ⟨e', he', hev⟩ := hs.rely.event he
    refine ⟨e', he', hev, ?_⟩
    have hsome : e.processedAt.isSome := by simpa [Option.isNone_iff_eq_none, Option.isSome_iff_ne_none] using hn
    rw [stampWrites, stampWrites, hev.processedAt hsome, if_neg hn, if_neg hn]

/-- The same of the update of a live payment, if there is one. -/
theorem Context.kept_live {l : Sess} {s s₁ : Shared} (hs : Γ.After l s s₁)
    {live : Option (Id × Payment)} {guarded : Bool}
    (hlive : ∀ q, live = some q → s.db.payments.get q.1 = some q.2)
    (hmem : ∀ w ∈ liveWrites live guarded, w ∈ l.log) :
    ∃ live', live'.map Prod.fst = live.map Prod.fst ∧
      (∀ q, live' = some q → s₁.db.payments.get q.1 = some q.2) ∧
      liveWrites live' guarded = liveWrites live guarded := by
  cases live with
  | none => exact ⟨none, rfl, (fun _ h => by cases h), rfl⟩
  | some q =>
    obtain ⟨p', hp', -, hsame⟩ := Context.kept_settle hs (hlive q rfl) hmem
    refine ⟨some (q.1, p'), rfl, ?_, hsame⟩
    rintro q' hq'
    obtain rfl := Option.some.inj hq'
    exact hp'

/-- An accepted cancel has cancelled the intent. -/
theorem cancelled_of_stripeCancel {inp : Input} {i : String} {g : Gateway} {u : Unit}
    (h : (stripeCancel inp i g).1 = .ok u) : (stripeCancel inp i g).2.Cancelled i := by
  simp only [stripeCancel] at h ⊢
  split at h
  · cases h
  · rename_i hreach
    rw [if_neg hreach]
    split at h
    · rename_i it hit
      split at h
      · rename_i hc
        simp only [hc, if_true]
        exact ⟨{ it with status := .canceled }, Table.get_put_self .., rfl⟩
      · cases h
    · cases h

/-- A retrieved intent is the gateway's own. -/
theorem intent_of_stripeRetrieve {inp : Input} {i : String} {g : Gateway} {r : RetrievedIntent}
    (h : stripeRetrieve inp i g = .ok r) :
    ∃ it, g.intents.get i = some it ∧ it.status = r.status ∧ r.clientSecret = ⟨i⟩ := by
  simp only [stripeRetrieve] at h
  split at h
  · cases h
  · split at h
    · rename_i it hit
      cases h
      exact ⟨it, hit, rfl, rfl⟩
    · cases h

/-- A cancelled intent stays cancelled. -/
theorem Gateway.Cancelled.grows {g g' : Gateway} {i : String} (h : g.Cancelled i)
    (hg : g.Grows g') : g'.Cancelled i := by
  obtain ⟨it, hit, hc⟩ := h
  obtain ⟨it', hit', hev⟩ := hg i it hit
  refine ⟨it', hit', (hev.dead ?_).trans hc⟩
  rw [hc]
  decide

namespace Ensures

variable {E : Err → Sess → Shared → Prop} {l : Sess} {s : Shared}

/-- The update of a payment's status. -/
theorem updatePayment {id : Id} {p₀ : Payment} {status : PaymentStatus}
    {method : Option PaymentMethod} {guarded : Bool} {Q : Option Id → Sess → Shared → Prop}
    (hl : l.active = true) (hlog : ∀ w ∈ l.log, ∀ id row, w ≠ .payment id row)
    (hp₀ : s.db.payments.get id = some p₀)
    (h : ∀ s₁ l' p, Γ.After l s s₁ → s₁.db.payments.get id = some p →
      Adds l l' (settleWrites id p status method guarded) →
      Q (if guarded && p.status == .succeeded then none else some p.orderId) l' s₁) :
    Ensures Γ c (Door.statement (.updatePayment id status method guarded)) Q E l s := by
  refine statement hl fun s₁ fresh now l' e hs₁ _ he hadds _ => ?_
  obtain ⟨p, hp, -⟩ := hs₁.rely.payment hp₀
  simp only [Statement.effect, view_payments hlog, hp] at he
  have hq := h s₁ l' p hs₁ hp
  rw [settleWrites] at hq
  split at he
  · rename_i hg
    subst he
    rw [if_pos hg, if_pos hg] at hq
    exact hq hadds
  · rename_i hg
    subst he
    rw [if_neg hg, if_neg hg] at hq
    exact hq hadds

/-- `markProcessed`, in a transaction. -/
theorem markProcessed {id : Id} {e₀ : PaymentEvent} {paymentId : Option Id}
    {Q : Bool → Sess → Shared → Prop} (hl : l.active = true)
    (hlog : ∀ w ∈ l.log, ∀ id row, w ≠ .event id row)
    (he₀ : s.db.paymentEvents.get id = some e₀)
    (h : ∀ s₁ l' e now b, Γ.After l s s₁ → s₁.db.paymentEvents.get id = some e →
      Adds l l' (stampWrites id e paymentId now) → Q b l' s₁) :
    Ensures Γ c (CafePos.markProcessed id paymentId) Q E l s := by
  refine statement hl fun s₁ fresh now l' eff hs₁ _ heff hadds _ => ?_
  obtain ⟨e, he, -⟩ := hs₁.rely.event he₀
  simp only [Statement.effect, view_paymentEvents hlog, he] at heff
  have hq := h s₁ l' e now eff.answer hs₁ he
  rw [stampWrites] at hq
  split at heff
  · rename_i hn
    subst heff
    rw [if_pos hn] at hq
    exact hq hadds
  · rename_i hn
    subst heff
    rw [if_neg hn] at hq
    exact hq hadds

/-! ## The gateway -/

/-- `cancelIntent`: an intent reported cancelled is cancelled. -/
theorem cancelIntent {i : String} {Q : CancelIntentOutcome → Sess → Shared → Prop}
    (h : ∀ s₁ outcome, Grows s s₁ → (outcome = .cancelled → s₁.gateway.Cancelled i) →
      Q outcome l s₁)
    (herr : ∀ s₁ e, Grows s s₁ → E e l s₁) :
    Ensures Γ c (CafePos.cancelIntent i) Q E l s := by
  refine bind (stripeCancel fun s₁ inp hs₁ => ?_)
  have hgrow : Grows s ⟨s₁.db, (CafePos.stripeCancel inp i s₁.gateway).2⟩ :=
    hs₁.rely.trans ⟨.refl _, .stripeCancel _ _ _⟩
  split
  · rename_i hr
    exact pure (h _ _ hgrow fun _ => cancelled_of_stripeCancel hr)
  · exact throw (herr _ _ hgrow)
  · refine bind (stripeRetrieve fun s₂ inp' hs₂ => ?_)
    have hgrow₂ := hgrow.trans hs₂.rely
    split
    · exact throw (herr _ _ hgrow₂)
    · rename_i intent hintent
      split
      · exact pure (h _ _ hgrow₂ nofun)
      · rename_i hstatus
        obtain ⟨it, hit, hst, -⟩ := intent_of_stripeRetrieve hintent
        exact pure (h _ _ hgrow₂ fun _ => ⟨it, hit, hst.trans hstatus⟩)
      · exact throw (herr _ _ hgrow₂)

end Ensures

/-! ## Ending an order -/

/-- The live payment a door has read, and whose intent it has seen cancelled, if it has
one. -/
def LiveCancelled (orderId : Id) (live : Option (Id × Payment)) (s : Shared) : Prop :=
  ∀ q, live = some q → ∃ p, s.db.payments.get q.1 = some p ∧ p.orderId = orderId ∧
    ∀ i, p.providerIntentId = some i → s.gateway.Cancelled i

theorem LiveCancelled.grows {orderId : Id} {live : Option (Id × Payment)} {s s' : Shared}
    (h : LiveCancelled orderId live s) (hs : Grows s s') : LiveCancelled orderId live s' := by
  intro q hlive
  obtain ⟨p', hp', ho, hi⟩ := h q hlive
  obtain ⟨p'', hp'', hev⟩ := hs.payment hp'
  refine ⟨p'', hp'', hev.orderId.trans ho, fun i hi'' => (hi i ?_).grows hs.gateway⟩
  rw [← hev.providerIntentId]
  exact hi''

/-- The live payment of an order is one of its payments. -/
theorem livePayments_head {db : Db} {orderId id : Id} {p : Payment}
    (h : (db.livePayments orderId).head? = some (id, p)) :
    db.payments.get id = some p ∧ p.orderId = orderId ∧ p.status.isLive = true := by
  obtain ⟨hp, hlive⟩ := Table.mem_select.mp (List.mem_of_mem_head? h)
  simp only [Bool.and_eq_true, beq_iff_eq] at hlive
  exact ⟨hp, hlive.1, hlive.2⟩

/-- Settling a payment otherwise than as `SUCCEEDED` pays for nothing. -/
theorem unpaying_settle {id : Id} {p : Payment} {status : PaymentStatus}
    {method : Option PaymentMethod} {guarded : Bool} (h : status ≠ .succeeded) :
    Unpaying (settleWrites id p status method guarded) :=
  forall_settleWrites fun _ => by simp [Write.isPaidRow, Write.isCapture, h]

namespace Ensures

variable {E : Err → Sess → Shared → Prop} {l : Sess} {s : Shared}

/-- `cancelLiveIntent`: it returns once the intent, if there is one, is cancelled. -/
theorem cancelLiveIntent {live : Option (Id × Payment)} {Q : Unit → Sess → Shared → Prop}
    (h : ∀ s₁, Grows s s₁ → (∀ i, (live.bind fun p => p.2.providerIntentId) = some i →
      s₁.gateway.Cancelled i) → Q () l s₁) (herr : ∀ s₁ e, E e l s₁) :
    Ensures Γ c (CafePos.cancelLiveIntent live) Q E l s := by
  rw [CafePos.cancelLiveIntent]
  split
  · rename_i hnone
    refine pure (h s (.refl s) fun i hi => ?_)
    rw [hnone] at hi
    cases hi
  · rename_i intentId hsome
    refine bind (tryCatch (cancelIntent (fun s₁ outcome hs₁ hcancelled => ?_)
      (fun s₁ e _ => throw (herr s₁ _))))
    cases outcome with
    | alreadySucceeded => exact throw (herr s₁ _)
    | cancelled =>
      refine pure (h s₁ hs₁ fun i hi => ?_)
      obtain rfl := Option.some.inj (hsome.symm.trans hi)
      exact hcancelled rfl

/-- `cancelOverdueIntent`: what it reports cancelled is cancelled. -/
theorem cancelOverdueIntent {live : Option (Id × Payment)}
    {Q : CancelIntentOutcome → Sess → Shared → Prop}
    (h : ∀ s₁ outcome, Grows s s₁ → (outcome = .cancelled →
      ∀ i, (live.bind fun p => p.2.providerIntentId) = some i → s₁.gateway.Cancelled i) →
      Q outcome l s₁) (herr : ∀ s₁ e, E e l s₁) :
    Ensures Γ c (CafePos.cancelOverdueIntent live) Q E l s := by
  rw [CafePos.cancelOverdueIntent]
  split
  · rename_i hnone
    refine pure (h s _ (.refl s) fun _ i hi => ?_)
    rw [hnone] at hi
    cases hi
  · rename_i intentId hsome
    refine cancelIntent (fun s₁ outcome hs₁ hcancelled => h s₁ outcome hs₁ fun ho i hi => ?_)
      (fun s₁ e _ => herr s₁ e)
    obtain rfl := Option.some.inj (hsome.symm.trans hi)
    exact hcancelled ho

/-- `settleLive`: the update of the live payment, if there is one. -/
theorem settleLive {live : Option (Id × Payment)} {guarded : Bool}
    {Q : Unit → Sess → Shared → Prop} (hi : Γ.spec.inv s) (hl : l.active = true)
    (hlog : ∀ w ∈ l.log, ∀ id row, w ≠ .payment id row)
    (hlive : ∀ q, live = some q → ∃ p, s.db.payments.get q.1 = some p)
    (h : ∀ s₁ l' live', Γ.After l s s₁ → live'.map Prod.fst = live.map Prod.fst →
      (∀ q, live' = some q → s₁.db.payments.get q.1 = some q.2) →
      Adds l l' (liveWrites live' guarded) → Q () l' s₁) :
    Ensures Γ c (CafePos.settleLive live guarded) Q E l s := by
  cases live with
  | none => exact pure (h s l none (.refl hi) rfl (fun _ h => by cases h) (.refl hl))
  | some q =>
    obtain ⟨p₀, hp₀⟩ := hlive q rfl
    refine bind (updatePayment hl hlog hp₀ fun s₁ l' p hs₁ hp hadds => ?_)
    refine pure (h s₁ l' (some (q.1, p)) hs₁ rfl ?_ hadds)
    rintro q' hq'
    obtain rfl := Option.some.inj hq'
    exact hp

/-- The transaction of the two closing doors: the order moves, and the live payment with
it. -/
theorem closeOrder {r : TransitionRequest} {guarded : Bool} {live : Option (Id × Payment)}
    {α : Type} {f : Order → α} {Q : α → Sess → Shared → Prop} (hc : Closes c r guarded)
    (hlive : LiveCancelled r.orderId live s)
    (h : ∀ s₁ row ws, Unpaying ws → Q (f (Statement.moved row r.source r.target)) (closed ws) s₁)
    (herr : ∀ s₁ e, E e idle s₁) :
    Ensures Γ c (Door.transaction do
      let updated ← CafePos.transitionOrder r
      CafePos.settleLive live guarded
      Pure.pure (f updated)) Q E idle s := by
  refine transaction fun s₁ hs₁ => bind (transitionOrder rfl (by simp [opened, idle, machine]) ?_
    (fun _ s₃ l₁ e _ _ _ _ hadds => ⟨⟨_, hadds⟩, fun s₄ _ => herr s₄ e⟩))
  intro s₂ l₁ row hs₂ hrow hsrc hadds₁
  have hlog₁ : l₁.log = moveWrites r row := hadds₁.log
  have hlive₂ := hlive.grows (hs₁.rely.trans hs₂.rely)
  refine bind (settleLive hs₂.inv hadds₁.active (by simp [hlog₁, moveWrites])
    (fun q hq => ?_) fun s₃ l₂ live' hs₃ hids hlive' hadds₂ => pure fun s₄ hs₄ _ => ?_)
  · obtain ⟨p, hp, -⟩ := hlive₂ q hq
    exact ⟨p, hp⟩
  · have hs₂₄ : Γ.After l₁ s₂ s₄ := hs₃.trans (hadds₂.after hs₄)
    obtain ⟨live'', hids'', hlive'', hsame⟩ := Context.kept_live hs₄ hlive' fun w hw => hadds₂.mem hw
    rw [← hsame] at hadds₂
    refine ⟨_, hadds₁.trans hadds₂, Commits.close hc ?_ hsrc ?_, h _ _ _ ?_⟩
    · rw [Context.kept_order hs₂₄ (hadds₁.mem (List.mem_cons_self ..))]
      exact hrow
    · intro q hq
      obtain ⟨q₀, hq₀, hid⟩ : ∃ q₀, live = some q₀ ∧ q₀.1 = q.1 := by
        have hid := (hids''.trans hids).symm
        rw [hq] at hid
        exact Option.map_eq_some_iff.mp hid
      obtain ⟨p, hp, hpo, hpi⟩ := hlive₂.grows hs₂₄.rely q₀ hq₀
      rw [hid, hlive'' q hq] at hp
      obtain rfl := Option.some.inj hp
      exact ⟨hlive'' q hq, hpo, hpi⟩
    · have hne : r.target ≠ .paid := by
        intro htarget
        have hunpaid := hc.unsettled.2.1
        rw [htarget] at hunpaid
        exact hunpaid rfl
      refine (unpaying_move hne).append ?_
      cases live'' with
      | none => exact fun w hw => absurd hw List.not_mem_nil
      | some q => exact unpaying_settle (by decide)

end Ensures

/-- The live payment read, with its intent, if any, cancelled. -/
theorem liveCancelled_of_intent {orderId : Id} {s s₁ : Shared}
    {live : Option (Id × Payment)} (hlive : live = (s.db.livePayments orderId).head?)
    (hs : Grows s s₁)
    (hi : ∀ i, (live.bind fun p => p.2.providerIntentId) = some i → s₁.gateway.Cancelled i) :
    LiveCancelled orderId live s₁ := by
  rintro ⟨id, p⟩ hq
  rw [hlive] at hq
  obtain ⟨hp, hpo, -⟩ := livePayments_head hq
  obtain ⟨p', hp', hev⟩ := hs.payment hp
  refine ⟨p', hp', hev.orderId.trans hpo, fun i hpi => hi i ?_⟩
  rw [hlive, hq, Option.bind_some, ← hev.providerIntentId]
  exact hpi

/-- `CancelOrderService.cancel`. -/
theorem cancel_ensures {principal : Principal} {orderId : Id} {reason : Option String}
    {s : Shared} :
    Ensures Γ (.cancel principal orderId reason) (cancel principal orderId reason)
      Announced Untouched idle s := by
  refine .bind (.select fun s₁ hs₁ _ => ?_)
  split
  · exact .throw rfl
  · rename_i current _
    split
    · exact .throw rfl
    · rename_i hcancellable
      refine .bind (.select fun s₂ hs₂ _ => .bind (.cancelLiveIntent ?_ (fun _ _ => rfl)))
      intro s₃ hs₃ hintent
      have hlive : LiveCancelled orderId _ s₃ := liveCancelled_of_intent rfl hs₃ hintent
      refine .afterCommit (.closeOrder (.cancel (not_not.mp hcancellable)) hlive ?_
        (fun _ _ => rfl))
      intro s₄ row ws hws
      have hann : Announces [.orderUpdated orderId row.kioskDeviceId] [ws] := by
        refine announces_of_unpaying hws ?_
        simp only [List.mem_singleton, forall_eq]
        exact fun _ => ⟨rfl, rfl⟩
      exact ⟨hann, fun _ _ => hann⟩

/-- `OrderExpiryService.expireOne`. -/
theorem expireOne_ensures {orderId : Id} {s : Shared} :
    Ensures Γ (.expireOne orderId) (expireOne orderId) Announced Untouched idle s := by
  have hidle : ∀ {s₁ : Shared}, Ensures Γ (.expireOne orderId) (pure false : Door Bool)
      Announced Untouched idle s₁ := .pure announces_idle
  refine .tryCatch (.bind (.select fun s₁ hs₁ _ => .bind (.cancelOverdueIntent ?_
    (fun _ _ => hidle))))
  intro s₂ outcome hs₂ hintent
  cases outcome with
  | alreadySucceeded => exact .pure announces_idle
  | cancelled =>
    have hlive : LiveCancelled orderId _ s₂ := liveCancelled_of_intent rfl hs₂ (hintent rfl)
    refine .bind (.closeOrder .expire hlive ?_ (fun _ _ => hidle))
    intro s₃ row ws hws
    exact .pure (announces_of_unpaying hws (fun _ h => absurd h List.not_mem_nil))

end CafePos
