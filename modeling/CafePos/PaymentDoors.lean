import CafePos.WebhookDoors

/-!
# The payment doors keep to the ledger

`CreateRefundService.refund` and `CreatePaymentService.create`. A refund's status guard is
read before the lock, the sum of earlier refunds behind it. For a payment, `PaymentRefused`
lists every way the call can fail together with what was seen of the state at that moment,
so that a later module can tell which of them a given run rules out.
-/

namespace CafePos

open Interleaving

variable {cfg : Config} {Γ : Context cfg} {c : Call}

/-! ## Refunds -/

/-- A payment whose row is held stays as it was, and so does the sum of its refunds. -/
theorem Context.held_payment {l : Sess} {s s₁ : Shared} (h : Γ.After l s s₁) {id : Id}
    (hx : Row.payment id ∈ l.held) : s₁.db.payments.get id = s.db.payments.get id ∧
      s₁.db.refunded id = s.db.refunded id := by
  obtain ⟨hp, hr⟩ : s₁.db.payments.get id = s.db.payments.get id ∧
    s₁.db.refundsOf id = s.db.refundsOf id := h.keeps _ hx
  exact ⟨hp, by rw [Db.refunded, hr, Db.refunded]⟩

theorem unpaying_refund (r : Refund) : Unpaying [.refund r] := by
  intro w hw
  rw [List.mem_singleton.mp hw]
  exact fun _ => ⟨rfl, rfl⟩

/-- `CreateRefundService.refund`. -/
theorem refund_ensures {userId id : Id} {input : CreateRefundInput} {s : Shared} :
    Ensures Γ (.refund userId id input) (refund cfg userId id input) Announced Untouched idle s := by
  refine .bind (.select fun s₁ hs₁ _ => ?_)
  simp only [Query.answer]
  split
  · exact .throw rfl
  · rename_i p₀ hp₀
    split
    · exact .throw rfl
    · rename_i hsucc
      refine .bind (.select fun s₂ hs₂ _ => ?_)
      simp only [Query.answer]
      split
      · exact .throw rfl
      · rename_i order horder
        refine .bind (.now fun s₃ now hs₃ => ?_)
        split
        · exact .throw rfl
        · refine .afterCommit (.transaction fun s₄ hs₄ => ?_)
          refine .bind (.statement rfl fun s₅ _ _ l₁ e hs₅ _ he hadds₁ hlocks => ?_)
          subst he
          have hadds₁ : Adds opened l₁ [] := hadds₁
          have hheld : Row.payment id ∈ l₁.held := hlocks _ (List.mem_singleton.mpr rfl)
          refine .bind (.selectTx fun s₆ hs₆ => ?_)
          have hlog₁ : l₁.log = [] := hadds₁.log
          have halready : (Query.refunded id).answer (l₁.view store s₆.db) =
              s₆.db.refunded id := by
            rw [Session.view, hlog₁]
            rfl
          rw [halready]
          split
          · exact .throw ⟨⟨_, hadds₁⟩, fun _ _ => rfl⟩
          · rename_i hremaining
            refine .bind (.raising (.statement hadds₁.active
              fun s₇ refundId _ l₂ e hs₇ _ he hadds₂ _ => ?_))
            simp only [Statement.effect] at he
            split at he
            · subst he
              exact ⟨⟨_, hadds₁.trans hadds₂⟩, fun _ _ => rfl⟩
            · split at he
              · subst he
                exact ⟨⟨_, hadds₁.trans hadds₂⟩, fun _ _ => rfl⟩
              · rename_i hpositive
                subst he
                -- behind the lock neither the payment nor its refunds move
                have hpayment : ∀ s', Γ.After l₁ s₆ s' → ∃ p, s'.db.payments.get id = some p ∧
                    p₀.Evolves p ∧ p.status = .succeeded ∧
                    s'.db.refunded id = s₆.db.refunded id := by
                  intro s' hs'
                  have hgrow : Grows s₁ s' := hs₂.rely.trans (hs₃.rely.trans (hs₄.rely.trans
                    (hs₅.rely.trans (hs₆.rely.trans hs'.rely))))
                  obtain ⟨p, hp, hev⟩ := hgrow.payment hp₀
                  exact ⟨p, hp, hev, hev.succeeded (not_not.mp hsucc),
                    (Context.held_payment hs' hheld).2⟩
                dsimp only
                split
                · rename_i hall
                  refine .bind (.transitionOrder hadds₂.active ?_ ?_
                    (fun _ _ l₃ e _ _ _ _ hadds => ⟨⟨_, (hadds₁.trans hadds₂).trans hadds⟩,
                      fun _ _ => rfl⟩))
                  · intro w hw id' row heq
                    rw [hadds₂.log, hlog₁, heq] at hw
                    simp at hw
                  · intro s₈ l₃ row hs₈ hrow hsrc hadds₃
                    refine .pure fun s₉ hs₉ _ => ?_
                    obtain ⟨p, hp, hev, hs, hsum⟩ := hpayment s₉
                      (hs₇.trans (hadds₂.after (hs₈.trans (hadds₃.after hs₉))))
                    have hrow₉ : s₉.db.orders.get p₀.orderId = some row := by
                      rw [Context.kept_order hs₉ (hadds₃.mem (List.mem_cons_self ..))]
                      exact hrow
                    have hcommit : Commits cfg Γ.permit (.refund userId id input) s₉
                        (.refund ⟨refundId, id, input.amountMinor, input.reason, .succeeded,
                          userId⟩ :: moveWrites ⟨p.orderId, row.status, .refunded,
                            ⟨.user, some userId⟩, some input.reason⟩ row) := by
                      refine .refundAll hp hs (by omega) ?_ (by rw [hev.orderId]; exact hrow₉)
                      rw [hsum, hev.amountMinor]
                      exact hall
                    rw [hev.orderId, hsrc] at hcommit
                    have hann : Announces [.orderUpdated p₀.orderId row.kioskDeviceId]
                        [.refund ⟨refundId, id, input.amountMinor, input.reason, .succeeded,
                          userId⟩ :: moveWrites ⟨p₀.orderId, order.status, .refunded,
                            ⟨.user, some userId⟩, some input.reason⟩ row] := by
                      refine announces_of_unpaying
                        ((unpaying_refund _).append (unpaying_move (by simp))) ?_
                      simp only [List.mem_singleton, forall_eq]
                      exact fun _ => ⟨rfl, rfl⟩
                    exact ⟨_, (hadds₁.trans hadds₂).trans hadds₃, hcommit, hann, fun _ _ => hann⟩
                · rename_i hpart
                  refine .pure fun s₈ hs₈ _ => ?_
                  obtain ⟨p, hp, hev, hs, hsum⟩ :=
                    hpayment s₈ (hs₇.trans (hadds₂.after hs₈))
                  have hcommit : Commits cfg Γ.permit (.refund userId id input) s₈
                      [.refund ⟨refundId, id, input.amountMinor, input.reason, .succeeded,
                        userId⟩] := by
                    refine .refundPart hp hs (by omega) ?_
                    rw [hsum, hev.amountMinor]
                    omega
                  have hann : Announces [] [[.refund ⟨refundId, id, input.amountMinor,
                      input.reason, .succeeded, userId⟩]] :=
                    announces_of_unpaying (unpaying_refund _) fun _ h => absurd h List.not_mem_nil
                  exact ⟨_, hadds₁.trans hadds₂, hcommit, hann, fun _ _ => hann⟩

/-! ## The gateway -/

/-- The intent at the gateway is what was asked for. -/
def Intent.Answers (it : Intent) (request : CreateIntentRequest) : Prop :=
  it.amount = request.amountMinor ∧ it.currency = toLowerCase request.currency ∧
    it.orderId = request.orderId

/-- An intent found under a key was created under it. -/
theorem byKey_some {g : Gateway} {key : Option String} {i : String} {it : Intent}
    (h : g.byKey key = some (i, it)) : g.intents.get i = some it ∧ it.idempotencyKey = key := by
  rw [Gateway.byKey.eq_def] at h
  split at h
  · cases h
  · obtain ⟨hi, hk⟩ := Table.mem_select.mp (List.mem_of_mem_head? h)
    exact ⟨hi, by simpa using hk⟩

/-- An intent that `paymentIntents.create` returned is what was asked for, new or old. -/
theorem stripeCreate_ok {inp : Input} {request : CreateIntentRequest} {g g' : Gateway}
    {i : String} {secret : ClientSecret}
    (h : stripeCreate inp request g = some (.ok (i, secret), g')) :
    secret = ⟨i⟩ ∧ ∃ it, g'.intents.get i = some it ∧ it.Answers request ∧
      it.idempotencyKey = request.idempotencyKey := by
  simp only [stripeCreate] at h
  split at h
  · cases h
  · split at h
    · rename_i i' it hkey
      split at h
      · rename_i hsame
        cases h
        obtain ⟨hi, hk⟩ := byKey_some hkey
        exact ⟨rfl, it, hi, hsame, hk⟩
      · cases h
    · split at h
      · cases h
      · cases h
        exact ⟨rfl, _, Table.get_put_self .., ⟨rfl, rfl, rfl⟩, rfl⟩

/-- It is refused when the key stands for another request. -/
theorem stripeCreate_invalid {inp : Input} {request : CreateIntentRequest} {g g' : Gateway}
    (h : stripeCreate inp request g = some (.error .invalidRequest, g')) :
    ∃ i it, g.byKey request.idempotencyKey = some (i, it) ∧ ¬ it.Answers request := by
  simp only [stripeCreate] at h
  split at h
  · cases h
  · split at h
    · rename_i i' it hkey
      split at h
      · cases h
      · rename_i hdiff
        cases h
        exact ⟨i', it, hkey, hdiff⟩
    · split at h
      · cases h
      · cases h

/-- A failed request leaves the gateway as it was. -/
theorem stripeCreate_error {inp : Input} {request : CreateIntentRequest} {g g' : Gateway}
    {e : StripeError} (h : stripeCreate inp request g = some (.error e, g')) : g' = g := by
  simp only [stripeCreate] at h
  split at h
  · cases h
    rfl
  · split at h
    · split at h
      · cases h
      · cases h
        rfl
    · split at h
      · cases h
      · cases h

/-- The one error an unreachable gateway causes. -/
def unreachable : Err := gatewayError .unreachable

/-- An intent Stripe does not know is not there. -/
theorem missing_of_stripeRetrieve {inp : Input} {i : String} {g : Gateway}
    (h : stripeRetrieve inp i g = .error .invalidRequest) : g.intents.get i = none := by
  simp only [stripeRetrieve] at h
  split at h
  · cases h
  · split at h
    · cases h
    · rename_i hnone
      exact hnone

/-- The body a key stands for, as it is returned: itself, or with the client secret of its
payment's intent. -/
def Rehydrated (body body' : ResponseBody) (s : Shared) : Prop :=
  body' = body ∨ ∃ view secret p, body = .payment view ∧
    body' = .payment { view with clientAction := some secret } ∧
    s.db.payments.get view.id = some p ∧ p.providerIntentId = some secret.intent

namespace Ensures

variable {E : Err → Sess → Shared → Prop} {l : Sess} {s : Shared}

theorem createIntent {request : CreateIntentRequest}
    {Q : String × ClientSecret → Sess → Shared → Prop}
    (h : ∀ s₁ i it, Grows s s₁ → s₁.gateway.intents.get i = some it → it.Answers request →
      it.idempotencyKey = request.idempotencyKey → Q (i, ⟨i⟩) l s₁)
    (hdown : ∀ s₁, Γ.After l s s₁ → E unreachable l s₁)
    (hrefused : ∀ s₁ i it, Γ.After l s s₁ →
      s₁.gateway.byKey request.idempotencyKey = some (i, it) → ¬ it.Answers request →
      E .stripe l s₁) :
    Ensures Γ c (CafePos.createIntent request) Q E l s := by
  refine bind (stripeCreate fun s₁ inp r g hs₁ hr => ?_)
  have hgrow : Grows s ⟨s₁.db, g⟩ := hs₁.rely.trans ⟨.refl _, .stripeCreate hr⟩
  match r, hr with
  | .ok (i, secret), hr =>
    obtain ⟨rfl, it, hit, hans, hkey⟩ := stripeCreate_ok hr
    exact pure (h _ i it hgrow hit hans hkey)
  | .error .unreachable, hr =>
    obtain rfl := stripeCreate_error hr
    exact throw (hdown s₁ hs₁)
  | .error .invalidRequest, hr =>
    obtain ⟨i, it, hkey, hdiff⟩ := stripeCreate_invalid hr
    obtain rfl := stripeCreate_error hr
    exact throw (hrefused s₁ i it hs₁ hkey hdiff)

/-- `rehydrate`: the stored body, with its client secret put back where it has one. -/
theorem rehydrate {body : ResponseBody} {Q : ResponseBody → Sess → Shared → Prop}
    (hi : Γ.spec.inv s)
    (h : ∀ s₁ body', Γ.After l s s₁ → Rehydrated body body' s₁ → Q body' l s₁)
    (hdown : ∀ s₁, Γ.After l s s₁ → E unreachable l s₁)
    (hgone : ∀ s₁ view p i, Γ.After l s s₁ → body = .payment view →
      s₁.db.payments.get view.id = some p → p.providerIntentId = some i →
      s₁.gateway.intents.get i = none → E .stripe l s₁) :
    Ensures Γ c (CafePos.rehydrate body) Q E l s := by
  cases body with
  | order view => exact pure (h s _ (.refl hi) (Or.inl rfl))
  | payment view =>
    rw [CafePos.rehydrate]
    split
    · exact pure (h s _ (.refl hi) (Or.inl rfl))
    · refine bind (select fun s₁ hs₁ _ => ?_)
      simp only [Query.answer]
      split
      · exact pure (h s₁ _ hs₁ (Or.inl rfl))
      · rename_i row hrow
        split
        · exact pure (h s₁ _ hs₁ (Or.inl rfl))
        · rename_i i hi
          refine bind (bind (stripeRetrieve fun s₂ inp hs₂ => ?_))
          obtain ⟨p, hp, hev⟩ := hs₂.rely.payment hrow
          have hpi : p.providerIntentId = some i := hev.providerIntentId.trans hi
          have hs₁₂ := hs₁.trans hs₂
          split
          · rename_i intent hintent
            obtain ⟨it, hit, -, hsecret⟩ := intent_of_stripeRetrieve hintent
            refine pure (pure (h s₂ _ hs₁₂ (Or.inr ⟨view, _, p, rfl, rfl, hp, ?_⟩)))
            rw [hsecret]
            exact hpi
          · rename_i e hintent
            refine throw ?_
            cases e with
            | unreachable => exact hdown s₂ hs₁₂
            | invalidRequest =>
              refine hgone s₂ view p i hs₁₂ rfl hp hpi ?_
              exact missing_of_stripeRetrieve hintent

/-- `loadPayableOrder`: the order was payable when it was read, and had no live payment a
moment later. -/
theorem loadPayableOrder {principal : Principal} {orderId : Id}
    {Q : PayableOrder → Sess → Shared → Prop}
    (h : ∀ s₁ s₂ row, Γ.After l s s₁ → Γ.After l s₁ s₂ → s₁.db.orders.get orderId = some row →
      foreign principal row = false → row.status = .pendingPayment →
      Q ⟨orderId, row.totalMinor, row.currency⟩ l s₂)
    (hunpayable : ∀ s₁ e, Γ.After l s s₁ → Γ.permit.step c (.query .pool (.order orderId)) l s₁ →
      (∀ row, s₁.db.orders.get orderId = some row →
        foreign principal row = true ∨ row.status ≠ .pendingPayment) → E e l s₁)
    (hlive : ∀ s₁ e, Γ.After l s s₁ → Γ.permit.step c (.query .pool (.livePayments orderId)) l s₁ →
      s₁.db.livePayments orderId ≠ [] → E e l s₁) :
    Ensures Γ c (CafePos.loadPayableOrder principal orderId) Q E l s := by
  refine bind (select fun s₁ hs₁ hp₁ => ?_)
  simp only [Query.answer]
  split
  · rename_i hnone
    refine throw (hunpayable s₁ _ hs₁ hp₁ fun row hrow => ?_)
    rw [hnone] at hrow
    cases hrow
  · rename_i order horder
    have hunpayable' : foreign principal order = true ∨ order.status ≠ .pendingPayment →
        ∀ e, E e l s₁ := by
      intro hor e
      refine hunpayable s₁ e hs₁ hp₁ fun row hrow => ?_
      obtain rfl := Option.some.inj (horder.symm.trans hrow)
      exact hor
    split
    · rename_i hforeign
      exact throw (hunpayable' (Or.inl hforeign) _)
    · rename_i hmine
      split
      · rename_i hexpired
        exact throw (hunpayable' (Or.inr (by rw [hexpired]; decide)) _)
      · split
        · rename_i hne
          exact throw (hunpayable' (Or.inr hne) _)
        · rename_i hpending
          refine bind (select fun s₂ hs₂ hp₂ => ?_)
          simp only [Query.answer]
          split
          · rename_i live _ _ hsome
            refine throw (hlive s₂ _ (hs₁.trans hs₂) hp₂ ?_)
            rw [hsome]
            exact List.cons_ne_nil _ _
          · exact pure (h s₁ s₂ order hs₁ hs₂ horder (by simpa using hmine) (not_not.mp hpending))

/-- `insertPayment`: the row is in the log, or its values do not fit the table, or a unique
index turned it away. -/
theorem insertPayment {orderId : Id} {p : Payment} {Q : Id → Sess → Shared → Prop}
    (hl : l.active = true) (hlog : ∀ w ∈ l.log, ∀ id row, w ≠ .payment id row)
    (h : ∀ s₁ l' id, Γ.After l s s₁ → s₁.db.payments.get id = none →
      Statement.paymentConflicts s₁.db p = false → p.storable → Adds l l' [.payment id p] →
      Q id l' s₁)
    (hrange : ∀ s₁ l' e, Γ.After l s s₁ → ¬ p.storable → e ≠ .keyAlreadyReserved → Adds l l' [] →
      E e l' s₁)
    (htaken : ∀ s₁ s₂ l' e, Γ.After l s s₁ → Γ.After l s₁ s₂ →
      Statement.paymentConflicts s₁.db p = true → e ≠ .keyAlreadyReserved → Adds l l' [] →
      E e l' s₂) :
    Ensures Γ c (CafePos.insertPayment orderId p) Q E l s := by
  refine tryCatch (raising (statement hl fun s₁ fresh now l' e hs₁ hunused he hadds _ => ?_))
  have hview := view_payments hlog s₁.db
  have hconf : Statement.paymentConflicts (l.view store s₁.db) p =
      Statement.paymentConflicts s₁.db p := by
    simp only [Statement.paymentConflicts, hview]
  simp only [Statement.effect, hconf] at he
  split at he
  · rename_i hint
    subst he
    refine throw (hrange s₁ l' _ hs₁ (fun hst => ?_) (by simp) hadds)
    rw [Bool.not_eq_true'] at hint
    simp only [Payment.storable, hint, Bool.false_and, Bool.false_eq_true] at hst
  · split at he
    · rename_i hpos
      subst he
      refine throw (hrange s₁ l' _ hs₁ (fun hst => ?_) (by simp) hadds)
      simp only [Payment.storable, Bool.and_eq_true, decide_eq_true_eq] at hst
      omega
    · split at he
      · rename_i htak
        subst he
        exact bind (select fun s₂ hs₂ _ =>
          throw (htaken s₁ s₂ l' _ hs₁ (hadds.after hs₂) htak (by simp) hadds))
      · rename_i hint hpos hfree
        subst he
        refine h s₁ l' fresh hs₁ ?_ (by simpa using hfree) ?_ hadds
        · rw [Statement.idUnused, hview] at hunused
          simpa using hunused
        · simp only [Bool.not_eq_true', Bool.not_eq_false] at hint
          simp only [Payment.storable, hint, Bool.true_and, decide_eq_true_eq]
          omega

end Ensures

/-! ## What a payment call has prepared -/

/-- What the indexes allowed when a payment was inserted they still allow when its
transaction commits. -/
theorem Context.kept_conflicts {l : Sess} {s s₁ : Shared} (h : Γ.After l s s₁) {id : Id}
    {p : Payment} (hw : .payment id p ∈ l.log)
    (hfree : Statement.paymentConflicts s.db p = false) :
    Statement.paymentConflicts s₁.db p = false := by
  rw [paymentConflicts_eq_false] at hfree ⊢
  obtain ⟨hi, hk, hl⟩ := hfree
  refine ⟨fun i hpi => ?_, fun k hpk => ?_, fun hlive => ?_⟩
  · exact Context.kept (x := .intent i) h hw (by simp [Write.rows, hpi]) (hi i hpi)
  · exact Context.kept (x := .paymentKey k) h hw (by simp [Write.rows, hpk]) (hk k hpk)
  · exact Context.kept (x := .livePayment p.orderId) h hw (by simp [Write.rows, hlive]) (hl hlive)

/-- An intent stays the one that was opened for a payment. -/
theorem Gateway.OpenedFor.grows {g g' : Gateway} {i : String} {p : Payment}
    (h : g.OpenedFor i p) (hg : g.Grows g') : g'.OpenedFor i p := by
  obtain ⟨it, hit, ho, ha, hc, hk⟩ := h
  obtain ⟨it', hit', hev⟩ := hg i it hit
  exact ⟨it', hit', hev.orderId.trans ho, hev.amount.trans ha, hev.currency.trans hc,
    hev.idempotencyKey.trans hk⟩

/-- What the transaction of a payment has in its log: what the call will answer and
announce, and what it will have written. -/
inductive Prepared (principal : Principal) (orderId : Id) (input : CreatePaymentInput)
    (key : Option String) : PaymentView → List DomainEvent → List Write → Shared → Prop
  | cash {s : Shared} {userId id : Id} {tendered : ℤ} {row : Order} {p : Payment} :
      principal = .staff userId → input.method = .cash → input.cashTenderedMinor = some tendered →
      row.totalMinor ≤ tendered → s.db.orders.get orderId = some row →
      row.status = .pendingPayment →
      p = cashRow ⟨orderId, row.totalMinor, row.currency⟩ tendered key →
      s.db.payments.get id = none → Statement.paymentConflicts s.db p = false → p.storable →
      Prepared principal orderId input key (paymentView id p none)
        [.orderPaid orderId row.kioskDeviceId]
        (.payment id p ::
          moveWrites ⟨orderId, .pendingPayment, .paid, ⟨.user, some userId⟩, none⟩ row) s
  | gateway {s : Shared} {id : Id} {i : String} {row : Order} {p : Payment} :
      input.method ≠ .cash → s.db.orders.get orderId = some row → foreign principal row = false →
      p = gatewayRow ⟨orderId, row.totalMinor, row.currency⟩ i key → s.gateway.OpenedFor i p →
      s.db.payments.get id = none → Statement.paymentConflicts s.db p = false → p.storable →
      Prepared principal orderId input key (paymentView id p (some ⟨i⟩)) [] [.payment id p] s

/-- A kiosk's order stays its own. -/
theorem foreign_of_evolves {o o' : Order} (h : o.Evolves o') (principal : Principal) :
    foreign principal o' = foreign principal o := by
  cases principal with
  | staff userId => rfl
  | device deviceId => simp only [foreign, h.kioskDeviceId]

namespace Prepared

variable {principal : Principal} {orderId : Id} {input : CreatePaymentInput} {key : Option String}
  {view : PaymentView} {events : List DomainEvent} {ws : List Write} {s : Shared}

/-- The rows the log touches are held: what was prepared stays prepared. -/
theorem after {l : Sess} {s₁ : Shared} (h : Prepared principal orderId input key view events ws s)
    (hs : Γ.After l s s₁) (hmem : ∀ w ∈ ws, w ∈ l.log) :
    Prepared principal orderId input key view events ws s₁ := by
  cases h with
  | cash hu hm ht hle hrow hst hp hid hconf hstore =>
    have hw := hmem _ (List.mem_cons_self ..)
    refine .cash hu hm ht hle ?_ hst hp ?_ (Context.kept_conflicts hs hw hconf) hstore
    · rw [Context.kept_order hs (hmem _ (List.mem_cons_of_mem _ (List.mem_cons_self ..)))]
      exact hrow
    · rw [(Context.kept_payment hs hw).1]
      exact hid
  | gateway hm hrow hf hp ho hid hconf hstore =>
    have hw := hmem _ (List.mem_cons_self ..)
    obtain ⟨row', hrow', hev⟩ := hs.rely.order hrow
    refine .gateway hm hrow' (by rw [foreign_of_evolves hev]; exact hf) ?_
      (ho.grows hs.rely.gateway) ?_ (Context.kept_conflicts hs hw hconf) hstore
    · rw [hev.totalMinor, hev.currency]
      exact hp
    · rw [(Context.kept_payment hs hw).1]
      exact hid

theorem not_key (h : Prepared principal orderId input key view events ws s) :
    ∀ w ∈ ws, ∀ k row, w ≠ .key k row := by
  cases h with
  | cash => simp [moveWrites]
  | gateway => simp

/-- It is a log the call may commit. -/
theorem commits (h : Prepared principal orderId input key view events ws s) (P : PosPermit)
    (hfree : KeyFree s.db (key.map (·, paymentHash cfg principal orderId input)))
    (expiry : Instant) : Commits cfg P (.createPayment principal orderId input key) s
      (underKey (key.map (·, paymentHash cfg principal orderId input)) expiry
        (.payment { view with clientAction := none }) ws) := by
  cases h with
  | cash hu hm ht hle hrow hst hp hid hconf hstore =>
    subst hu
    exact .cash hm ht hle hfree hrow hst hp hid hconf hstore
  | gateway hm hrow hf hp ho hid hconf hstore =>
    exact .openPayment hm hfree hrow hf hp ho hid hconf hstore

/-- Its announcements are the ones it calls for. -/
theorem announces (h : Prepared principal orderId input key view events ws s)
    (reservation : Option (String × String)) (expiry : Instant) (body : ResponseBody) :
    Announces events [underKey reservation expiry body ws] := by
  cases h with
  | cash hu hm ht hle hrow hst hp hid hconf hstore =>
    subst hp
    match reservation with
    | none =>
      refine ⟨fun x => ?_, fun x => ?_⟩ <;>
      simp [underKey, moveWrites, List.countP_cons, DomainEvent.isOrderPaid, Write.isPaidRow,
        TransitionRequest.history, DomainEvent.isPaymentSucceeded, Write.isCapture, cashRow]
    | some (k, hash) =>
      refine ⟨fun x => ?_, fun x => ?_⟩ <;>
      simp [underKey, moveWrites, List.countP_cons, DomainEvent.isOrderPaid, Write.isPaidRow,
        TransitionRequest.history, DomainEvent.isPaymentSucceeded, Write.isCapture, cashRow]
  | gateway hm hrow hf hp ho hid hconf hstore =>
    subst hp
    refine announces_of_unpaying (Unpaying.underKey ?_ _ _ _) fun _ h => absurd h List.not_mem_nil
    intro w hw x
    rw [List.mem_singleton.mp hw]
    simp [Write.isPaidRow, Write.isCapture, gatewayRow]

/-- Once it is committed, the payment that the call answers with is there. -/
theorem stored (h : Prepared principal orderId input key view events ws s)
    (reservation : Option (String × String)) (expiry : Instant) (body : ResponseBody) :
    ∃ p, (s.commit (underKey reservation expiry body ws)).db.payments.get view.id = some p ∧
      p.orderId = orderId ∧
      ∀ secret, view.clientAction = some secret → p.providerIntentId = some secret.intent := by
  have hframe : (s.commit (underKey reservation expiry body ws)).db.payments =
      (store.applyAll ws s.db).payments := by
    simp only [Shared.commit, applyAll_underKey h.not_key]
  rw [hframe]
  cases h with
  | cash hu hm ht hle hrow hst hp hid hconf hstore =>
    subst hp
    exact ⟨_, Table.get_put_self .., rfl, fun _ h => by cases h⟩
  | gateway hm hrow hf hp ho hid hconf hstore =>
    subst hp
    refine ⟨_, Table.get_put_self .., rfl, fun secret hsecret => ?_⟩
    obtain rfl := Option.some.inj hsecret
    rfl

end Prepared

/-! ## Creating a payment -/

/-- Why `CreatePaymentService.create` may fail, and what was then true of the state. -/
inductive Refusal (Γ : Context cfg) (principal : Principal) (orderId : Id)
    (input : CreatePaymentInput) (key : Option String) : Err → Shared → Prop
  /-- the key has answered something else -/
  | conflict {s : Shared} {k : String} {row : IdempotencyKey} : key = some k →
      s.db.idempotencyKeys.get k = some row →
      (∀ body, ¬ Stored s.db k (paymentHash cfg principal orderId input) body) →
      Refusal Γ principal orderId input key .idempotencyConflict s
  /-- the gateway was unreachable -/
  | down {s : Shared} : Refusal Γ principal orderId input key unreachable s
  /-- the gateway does not know the intent of a payment -/
  | intentGone {s : Shared} {id : Id} {p : Payment} {i : String} :
      s.db.payments.get id = some p → p.providerIntentId = some i →
      s.gateway.intents.get i = none → Refusal Γ principal orderId input key .stripe s
  /-- the order was read, and was not payable -/
  | unpayable {s : Shared} {e : Err} :
      Γ.permit.step (.createPayment principal orderId input key) (.query .pool (.order orderId))
        idle s →
      (∀ row, s.db.orders.get orderId = some row →
        foreign principal row = true ∨ row.status ≠ .pendingPayment) →
      Refusal Γ principal orderId input key e s
  /-- the live payments were read, and there was one -/
  | live {s : Shared} {e : Err} :
      Γ.permit.step (.createPayment principal orderId input key)
        (.query .pool (.livePayments orderId)) idle s →
      s.db.livePayments orderId ≠ [] → Refusal Γ principal orderId input key e s
  /-- cash from a kiosk, or too little of it -/
  | tender {s : Shared} {e : Err} {row : Order} : input.method = .cash →
      s.db.orders.get orderId = some row →
      (∀ userId tendered, principal = .staff userId → input.cashTenderedMinor = some tendered →
        tendered < row.totalMinor) → Refusal Γ principal orderId input key e s
  /-- the key stands for something else at the gateway -/
  | keyReused {s : Shared} {i : String} {it : Intent} {row : Order} : input.method ≠ .cash →
      s.db.orders.get orderId = some row → s.gateway.byKey key = some (i, it) →
      ¬ it.Answers ⟨row.totalMinor, row.currency, key, orderId⟩ →
      Refusal Γ principal orderId input key .stripe s
  /-- the amounts do not fit the table -/
  | unstorable {s : Shared} {e : Err} {row : Order} {p : Payment} :
      s.db.orders.get orderId = some row → p.amountMinor = row.totalMinor →
      p.cashTenderedMinor = (if input.method = .cash then input.cashTenderedMinor else none) →
      ¬ p.storable → Refusal Γ principal orderId input key e s
  /-- another payment was in the way while nobody had answered under the key -/
  | taken {s : Shared} {e : Err} {p : Payment} :
      KeyFree s.db (key.map (·, paymentHash cfg principal orderId input)) →
      p.orderId = orderId → p.idempotencyKey = key →
      (∀ i, p.providerIntentId = some i → s.gateway.OpenedFor i p) →
      Statement.paymentConflicts s.db p = true → Refusal Γ principal orderId input key e s
  /-- the order had moved while nobody had answered under the key -/
  | moved {s : Shared} {e : Err} :
      KeyFree s.db (key.map (·, paymentHash cfg principal orderId input)) →
      (∀ row, s.db.orders.get orderId = some row → row.status ≠ .pendingPayment) →
      Refusal Γ principal orderId input key e s

/-- The call failed in a state before `s`. -/
def Refused (Γ : Context cfg) (principal : Principal) (orderId : Id) (input : CreatePaymentInput)
    (key : Option String) (e : Err) (s : Shared) : Prop :=
  ∃ s₁, Γ.spec.inv s₁ ∧ Grows s₁ s ∧ Refusal Γ principal orderId input key e s₁

/-- What `CreatePaymentService.create` may answer. -/
inductive PaymentGiven (cfg : Config) (principal : Principal) (orderId : Id)
    (input : CreatePaymentInput) (key : Option String) : PaymentCreated → Shared → Prop
  /-- what the key stands for -/
  | replayed {s : Shared} {k : String} {body body' : ResponseBody} : key = some k →
      Stored s.db k (paymentHash cfg principal orderId input) body → Rehydrated body body' s →
      PaymentGiven cfg principal orderId input key ⟨body', true⟩ s
  /-- a new payment -/
  | fresh {s : Shared} {view : PaymentView} {p : Payment} :
      s.db.payments.get view.id = some p → p.orderId = orderId →
      (∀ secret, view.clientAction = some secret → p.providerIntentId = some secret.intent) →
      (∀ k, key = some k → Stored s.db k (paymentHash cfg principal orderId input)
        (.payment { view with clientAction := none })) →
      PaymentGiven cfg principal orderId input key ⟨.payment view, false⟩ s

/-- How a call of it ends that returns. -/
def PaymentAnswered (cfg : Config) (principal : Principal) (orderId : Id)
    (input : CreatePaymentInput) (key : Option String) (created : PaymentCreated) (l : Sess)
    (s : Shared) : Prop :=
  Announces l.published l.committed ∧ PaymentGiven cfg principal orderId input key created s

/-- How a call of it ends that throws. -/
def PaymentFailed (Γ : Context cfg) (principal : Principal) (orderId : Id)
    (input : CreatePaymentInput) (key : Option String) (e : Err) (l : Sess) (s : Shared) : Prop :=
  l = idle ∧ Refused Γ principal orderId input key e s

/-- What a key stands for it stands for ever. -/
theorem Stored.grows {s s' : Shared} {k hash : String} {body : ResponseBody}
    (h : Stored s.db k hash body) (hs : Grows s s') : Stored s'.db k hash body := by
  obtain ⟨row, hrow, hh, hb⟩ := h
  exact ⟨row, hs.key hrow, hh, hb⟩

section createPayment

variable {principal : Principal} {orderId : Id} {input : CreatePaymentInput} {key : Option String}
  {s : Shared}

theorem Refusal.refused {e : Err} (h : Refusal Γ principal orderId input key e s)
    (hi : Γ.spec.inv s) : Refused Γ principal orderId input key e s :=
  ⟨s, hi, .refl s, h⟩

theorem Refused.grows {e : Err} {s' : Shared} (h : Refused Γ principal orderId input key e s)
    (hs : Grows s s') : Refused Γ principal orderId input key e s' := by
  obtain ⟨s₁, hi, hs₁, hr⟩ := h
  exact ⟨s₁, hi, hs₁.trans hs, hr⟩

/-- The reservation of a call under its key. -/
abbrev reservationOf (cfg : Config) (principal : Principal) (orderId : Id)
    (input : CreatePaymentInput) (key : Option String) : Option (String × String) :=
  key.map (·, paymentHash cfg principal orderId input)

/-- A replay: what the key stands for, with its secret put back. -/
theorem replay_ensures {k : String} {body : ResponseBody} (hi : Γ.spec.inv s)
    (hk : key = some k) (hstored : Stored s.db k (paymentHash cfg principal orderId input) body) :
    Ensures Γ c (do let payment ← rehydrate body; pure (⟨payment, true⟩ : PaymentCreated))
      (PaymentAnswered cfg principal orderId input key)
      (PaymentFailed Γ principal orderId input key) idle s := by
  refine .bind (.rehydrate hi ?_ ?_ ?_)
  · intro s₁ body' hs₁ hre
    exact .pure ⟨announces_idle, .replayed hk (hstored.grows hs₁.rely) hre⟩
  · exact fun s₁ hs₁ => ⟨rfl, Refusal.down.refused hs₁.inv⟩
  · intro s₁ view p i hs₁ _ hp hpi hgone
    exact ⟨rfl, (Refusal.intentGone hp hpi hgone).refused hs₁.inv⟩

/-- What the committed transaction of a payment answers. -/
theorem Prepared.answered {view : PaymentView} {events : List DomainEvent} {ws : List Write}
    (h : Prepared principal orderId input key view events ws s) (expiry : Instant) {s' : Shared}
    (hs : Grows (s.commit (underKey (reservationOf cfg principal orderId input key) expiry
      (.payment { view with clientAction := none }) ws)) s') :
    PaymentGiven cfg principal orderId input key ⟨.payment view, false⟩ s' := by
  obtain ⟨p, hp, ho, hsecret⟩ := h.stored (reservationOf cfg principal orderId input key) expiry
    (.payment { view with clientAction := none })
  obtain ⟨p', hp', hev⟩ := hs.payment hp
  refine .fresh hp' (hev.orderId.trans ho)
    (fun secret hsome => hev.providerIntentId.trans (hsecret secret hsome)) fun k hk => ?_
  subst hk
  exact (stored_commit h.not_key ..).grows hs

/-- `write`: the work is committed under the key, or what the key stands for is replayed. -/
theorem write_ensures {work : Door (PaymentView × List DomainEvent)}
    (hwork : ∀ l₀ s₁, Grows s s₁ → l₀.active = true → (∀ w ∈ l₀.log, ∃ k row, w = .key k row) →
      (∀ s', Γ.After l₀ s₁ s' → KeyFree s'.db (reservationOf cfg principal orderId input key)) →
      Γ.spec.inv s₁ →
      Ensures Γ (.createPayment principal orderId input key) work
        (fun r l' s' => ∃ ws, Adds l₀ l' ws ∧ Γ.After l₀ s₁ s' ∧
          Prepared principal orderId input key r.1 r.2 ws s')
        (fun e l' s' => (∃ ws, Adds l₀ l' ws) ∧ e ≠ .keyAlreadyReserved ∧
          Refused Γ principal orderId input key e s') l₀ s₁) :
    Ensures Γ (.createPayment principal orderId input key)
      (write (reservationOf cfg principal orderId input key) work)
      (PaymentAnswered cfg principal orderId input key)
      (PaymentFailed Γ principal orderId input key) idle s := by
  cases key with
  | none =>
    refine .bind (.afterCommit (.transaction fun s₁ hs₁ => ?_))
    refine (hwork opened s₁ hs₁.rely rfl (by simp [opened, idle, machine]) (fun _ _ _ h => by cases h) hs₁.inv).mono
      ?_ ?_
    · rintro ⟨view, events⟩ l' s' - ⟨ws, hadds, -, hprep⟩ s₂ hs₂ -
      have hprep₂ := hprep.after hs₂ fun w hw => hadds.mem hw
      have hfree : KeyFree s₂.db (reservationOf cfg principal orderId input none) := fun _ h => by cases h
      have hc := hprep₂.commits Γ.permit hfree 0
      have hann := hprep₂.announces none 0 (.payment { view with clientAction := none })
      exact ⟨_, hadds, hc, hann, fun s₃ hs₃ => .pure ⟨hann, hprep₂.answered 0 hs₃⟩⟩
    · rintro e l' s' - ⟨⟨ws, hadds⟩, -, hr⟩
      exact ⟨⟨ws, hadds⟩, fun s₂ hs₂ => ⟨rfl, hr.grows hs₂.rely⟩⟩
  | some k =>
    refine .tryCatch (.bind (.afterCommit (.transaction fun s₁ hs₁ => .bind (.bind
      (.now fun s₂ now hs₂ => .pure (.bind (.reserveKey rfl rfl ?_ ?_)))))))
    · intro s₃ l₁ hs₃ hkey hadds₁
      have hlog₁ : l₁.log = [.key k ⟨paymentHash cfg principal orderId input, none, none, _⟩] :=
        hadds₁.log
      have hfree : ∀ s', Γ.After l₁ s₃ s' →
          KeyFree s'.db (reservationOf cfg principal orderId input (some k)) := by
        intro s' hs' r hr
        obtain rfl := Option.some.inj hr
        exact (Context.kept_key hs' (by rw [hlog₁]; exact List.mem_singleton.mpr rfl)).trans hkey
      refine .bind ((hwork l₁ s₃ (hs₁.rely.trans (hs₂.rely.trans hs₃.rely)) hadds₁.active
        (by simp [hlog₁]) hfree hs₃.inv).mono ?_ ?_)
      · rintro ⟨view, events⟩ l₂ s₄ - ⟨ws, hadds₂, hs₄, hprep⟩
        have hlog₂ := (hadds₁.trans hadds₂).log
        refine .bind (.completeKey hadds₂.active (view_reserved hlog₂ hprep.not_key)
          fun s₅ l₃ hs₅ hadds₃ => .pure fun s₆ hs₆ _ => ?_)
        have hs₄₆ : Γ.After l₂ s₄ s₆ := hs₅.trans (hadds₃.after hs₆)
        have hprep₆ := hprep.after hs₄₆ fun w hw => hadds₂.mem hw
        have hfree₆ := hfree s₆ (hs₄.trans (hadds₂.after hs₄₆))
        have hc := hprep₆.commits Γ.permit hfree₆ (now + 24 * 60 * 60 * 1000)
        have hann := hprep₆.announces (reservationOf cfg principal orderId input (some k))
          (now + 24 * 60 * 60 * 1000) (.payment { view with clientAction := none })
        exact ⟨_, (hadds₁.trans hadds₂).trans hadds₃, hc, hann,
          fun s₇ hs₇ => .pure ⟨hann, hprep₆.answered _ hs₇⟩⟩
      · rintro e l₂ s₄ - ⟨⟨ws, hadds₂⟩, hne, hr⟩
        refine ⟨⟨_, hadds₁.trans hadds₂⟩, fun s₅ hs₅ => ?_⟩
        have hcatch : isKeyAlreadyReserved e = false := by simpa [isKeyAlreadyReserved] using hne
        simp only [hcatch, Bool.false_eq_true, if_false]
        exact .throw ⟨rfl, hr.grows hs₅.rely⟩
    · intro s₃ l₁ row hs₃ hkey hadds₁
      refine ⟨⟨_, hadds₁⟩, fun s₄ hs₄ => ?_⟩
      refine .bind (.replayKey ?_ ?_)
      · intro s₅ body hs₅ hstored
        exact replay_ensures hs₅.inv rfl hstored
      · intro s₅ hs₅ hno
        exact ⟨rfl, (Refusal.conflict rfl (hs₅.rely.key (hs₄.rely.key hkey)) hno).refused hs₅.inv⟩

/-- The work of a cash payment. -/
theorem cash_ensures {userId : Id} {tendered : ℤ} {row : Order} {l₀ : Sess}
    (hu : principal = .staff userId) (hm : input.method = .cash)
    (ht : input.cashTenderedMinor = some tendered) (hle : row.totalMinor ≤ tendered)
    (hrow : s.db.orders.get orderId = some row) (hl : l₀.active = true)
    (hlog : ∀ w ∈ l₀.log, ∃ k row, w = .key k row)
    (hfree : ∀ s', Γ.After l₀ s s' → KeyFree s'.db (reservationOf cfg principal orderId input key)) :
    Ensures Γ c (do
      let row := cashRow ⟨orderId, row.totalMinor, row.currency⟩ tendered key
      let paymentId ← insertPayment orderId row
      let updated ← transitionOrder
        { orderId, source := .pendingPayment, target := .paid, actor := ⟨.user, some userId⟩ }
      pure (paymentView paymentId row none, [.orderPaid orderId updated.kioskDeviceId]))
      (fun r l' s' => ∃ ws, Adds l₀ l' ws ∧ Γ.After l₀ s s' ∧
        Prepared principal orderId input key r.1 r.2 ws s')
      (fun e l' s' => (∃ ws, Adds l₀ l' ws) ∧ e ≠ .keyAlreadyReserved ∧
        Refused Γ principal orderId input key e s') l₀ s := by
  refine .bind (.insertPayment hl ?_ ?_ ?_ ?_)
  · intro w hw id p heq
    obtain ⟨k, r, rfl⟩ := hlog w hw
    cases heq
  · intro s₁ l₁ id hs₁ hid hconf hstore hadds₁
    refine .bind (.transitionOrder hadds₁.active ?_ ?_ ?_)
    · intro w hw id' row' heq
      rw [hadds₁.log, heq] at hw
      rcases List.mem_append.mp hw with hw | hw
      · obtain ⟨k, r, hkr⟩ := hlog _ hw
        cases hkr
      · simp at hw
    · intro s₂ l₂ row₂ hs₂ hrow₂ hpending hadds₂
      have hs₀₂ : Γ.After l₀ s s₂ := hs₁.trans (hadds₁.after hs₂)
      have hev : row.Evolves row₂ := hs₀₂.rely.db.orders.rel hrow hrow₂
      have hw := hadds₁.mem (List.mem_singleton.mpr rfl)
      have hprepared : Prepared principal orderId input key
          (paymentView id (cashRow ⟨orderId, row.totalMinor, row.currency⟩ tendered key) none)
          [.orderPaid orderId row₂.kioskDeviceId]
          (.payment id (cashRow ⟨orderId, row.totalMinor, row.currency⟩ tendered key) ::
            moveWrites ⟨orderId, .pendingPayment, .paid, ⟨.user, some userId⟩, none⟩ row₂) s₂ := by
        refine .cash hu hm ht ?_ hrow₂ hpending ?_ ?_ (Context.kept_conflicts hs₂ hw hconf) hstore
        · rw [hev.totalMinor]
          exact hle
        · rw [hev.totalMinor, hev.currency]
        · rw [(Context.kept_payment hs₂ hw).1]
          exact hid
      exact .pure ⟨_, hadds₁.trans hadds₂, hs₀₂, hprepared⟩
    · intro s₂ s₃ l₂ e hs₂ hs₃ hne hlost hadds₂
      have hs₀₂ : Γ.After l₀ s s₂ := hs₁.trans (hadds₁.after hs₂)
      refine ⟨⟨_, hadds₁.trans hadds₂⟩, ?_, ?_⟩
      · rintro rfl
        cases hlost
      · exact ((Refusal.moved (hfree s₂ hs₀₂) hne).refused hs₂.inv).grows hs₃.rely
  · intro s₁ l₁ e hs₁ hstore hne hadds
    obtain ⟨row₁, hrow₁, hev⟩ := hs₁.rely.order hrow
    refine ⟨⟨_, hadds⟩, hne, (Refusal.unstorable hrow₁ ?_ ?_ hstore).refused hs₁.inv⟩
    · exact hev.totalMinor.symm
    · rw [if_pos hm, ht]
      rfl
  · intro s₁ s₂ l₁ e hs₁ hs₂ hconf hne hadds
    refine ⟨⟨_, hadds⟩, hne, ((Refusal.taken (hfree s₁ hs₁) rfl rfl ?_ hconf).refused
      hs₁.inv).grows hs₂.rely⟩
    intro i hi
    cases hi

/-- The work of a gateway payment. -/
theorem open_ensures {row : Order} {i : String} {it : Intent} {l₀ : Sess}
    (hm : input.method ≠ .cash) (hrow : s.db.orders.get orderId = some row)
    (hf : foreign principal row = false) (hit : s.gateway.intents.get i = some it)
    (hans : it.Answers ⟨row.totalMinor, row.currency, key, orderId⟩)
    (hkey : it.idempotencyKey = key) (hl : l₀.active = true)
    (hlog : ∀ w ∈ l₀.log, ∃ k row, w = .key k row)
    (hfree : ∀ s', Γ.After l₀ s s' → KeyFree s'.db (reservationOf cfg principal orderId input key)) :
    Ensures Γ c (do
      let row := gatewayRow ⟨orderId, row.totalMinor, row.currency⟩ i key
      let paymentId ← insertPayment orderId row
      pure (paymentView paymentId row (some ⟨i⟩), []))
      (fun r l' s' => ∃ ws, Adds l₀ l' ws ∧ Γ.After l₀ s s' ∧
        Prepared principal orderId input key r.1 r.2 ws s')
      (fun e l' s' => (∃ ws, Adds l₀ l' ws) ∧ e ≠ .keyAlreadyReserved ∧
        Refused Γ principal orderId input key e s') l₀ s := by
  have hopened : s.gateway.OpenedFor i
      (gatewayRow ⟨orderId, row.totalMinor, row.currency⟩ i key) :=
    ⟨it, hit, hans.2.2, hans.1, hans.2.1, hkey⟩
  refine .bind (.insertPayment hl ?_ ?_ ?_ ?_)
  · intro w hw id p heq
    obtain ⟨k, r, rfl⟩ := hlog w hw
    cases heq
  · intro s₁ l₁ id hs₁ hid hconf hstore hadds
    obtain ⟨row₁, hrow₁, hev⟩ := hs₁.rely.order hrow
    refine .pure ⟨_, hadds, hs₁, .gateway hm hrow₁ ?_ ?_ (hopened.grows hs₁.rely.gateway) hid
      hconf hstore⟩
    · rw [foreign_of_evolves hev]
      exact hf
    · rw [hev.totalMinor, hev.currency]
  · intro s₁ l₁ e hs₁ hstore hne hadds
    obtain ⟨row₁, hrow₁, hev⟩ := hs₁.rely.order hrow
    refine ⟨⟨_, hadds⟩, hne, (Refusal.unstorable hrow₁ ?_ ?_ hstore).refused hs₁.inv⟩
    · exact hev.totalMinor.symm
    · rw [if_neg hm]
      rfl
  · intro s₁ s₂ l₁ e hs₁ hs₂ hconf hne hadds
    refine ⟨⟨_, hadds⟩, hne, ((Refusal.taken (hfree s₁ hs₁) rfl rfl ?_ hconf).refused
      hs₁.inv).grows hs₂.rely⟩
    rintro i' hi'
    obtain rfl := Option.some.inj hi'
    exact hopened.grows hs₁.rely.gateway

/-- What follows the replay check. -/
theorem pay_ensures : Ensures Γ (.createPayment principal orderId input key)
    (pay principal orderId input (reservationOf cfg principal orderId input key))
    (PaymentAnswered cfg principal orderId input key)
    (PaymentFailed Γ principal orderId input key) idle s := by
  have hfst : (reservationOf cfg principal orderId input key).map Prod.fst = key := by
    cases key <;> rfl
  refine .bind (.loadPayableOrder ?_ ?_ ?_)
  · intro s₁ s₂ row hs₁ hs₂ hrow hf hpending
    obtain ⟨row₂, hrow₂, hev⟩ := hs₂.rely.order hrow
    rw [← hev.totalMinor, ← hev.currency]
    rw [← foreign_of_evolves hev] at hf
    split
    · rename_i hm
      rw [takeCash.eq_def]
      split
      · exact .throw ⟨rfl, (Refusal.tender hm hrow₂ fun _ _ h => by cases h).refused hs₂.inv⟩
      · rename_i userId
        split
        · rename_i hnone
          refine .throw ⟨rfl, (Refusal.tender hm hrow₂ ?_).refused hs₂.inv⟩
          intro _ _ _ ht
          rw [hnone] at ht
          cases ht
        · rename_i tendered htendered
          split
          · rename_i hlt
            refine .throw ⟨rfl, (Refusal.tender hm hrow₂ ?_).refused hs₂.inv⟩
            intro _ _ _ ht
            obtain rfl := Option.some.inj (htendered.symm.trans ht)
            exact hlt
          · rename_i hle
            refine write_ensures fun l₀ s₃ hs₃ hl hlog hfree _ => ?_
            obtain ⟨row₃, hrow₃, hev₃⟩ := hs₃.order hrow₂
            simp only [hfst]
            rw [← hev₃.totalMinor, ← hev₃.currency]
            refine cash_ensures rfl hm htendered ?_ hrow₃ hl hlog hfree
            rw [hev₃.totalMinor]
            exact Int.not_lt.mp hle
    · rename_i hm
      refine .bind (.createIntent ?_ ?_ ?_)
      · intro s₃ i it hs₃ hit hans hkey
        refine write_ensures fun l₀ s₄ hs₄ hl hlog hfree _ => ?_
        obtain ⟨row₄, hrow₄, hev₄⟩ := (hs₃.trans hs₄).order hrow₂
        obtain ⟨it₄, hit₄, hevi⟩ := hs₄.intent hit
        simp only [hfst] at hans hkey ⊢
        rw [← hev₄.totalMinor, ← hev₄.currency] at hans ⊢
        refine open_ensures hm hrow₄ ?_ hit₄ ?_ (hevi.idempotencyKey.trans hkey) hl hlog hfree
        · rw [foreign_of_evolves hev₄]
          exact hf
        · exact ⟨hevi.amount.trans hans.1, hevi.currency.trans hans.2.1,
            hevi.orderId.trans hans.2.2⟩
      · exact fun s₃ hs₃ => ⟨rfl, Refusal.down.refused hs₃.inv⟩
      · intro s₃ i it hs₃ hkey hdiff
        obtain ⟨row₃, hrow₃, hev₃⟩ := hs₃.rely.order hrow₂
        simp only [hfst] at hkey hdiff
        rw [← hev₃.totalMinor, ← hev₃.currency] at hdiff
        exact ⟨rfl, (Refusal.keyReused hm hrow₃ hkey hdiff).refused hs₃.inv⟩
  · exact fun s₁ e hs₁ hp hno => ⟨rfl, (Refusal.unpayable hp hno).refused hs₁.inv⟩
  · exact fun s₁ e hs₁ hp hlive => ⟨rfl, (Refusal.live hp hlive).refused hs₁.inv⟩

/-- `CreatePaymentService.create`. -/
theorem createPayment_ensures : Ensures Γ (.createPayment principal orderId input key)
    (createPayment cfg principal orderId input key)
    (PaymentAnswered cfg principal orderId input key)
    (PaymentFailed Γ principal orderId input key) idle s := by
  cases key with
  | none => exact pay_ensures
  | some k =>
    refine .bind (.bind (.select fun s₁ hs₁ _ => ?_))
    simp only [Query.answer]
    split
    · exact .pure pay_ensures
    · rename_i stored hstored
      refine .pure ?_
      split
      · rename_i storedHash body hsome
        obtain ⟨body', hbody, hpair⟩ := Option.map_eq_some_iff.mp hsome
        obtain ⟨rfl, rfl⟩ := Prod.mk.inj hpair
        split
        · rename_i hne
          refine .throw ⟨rfl, (Refusal.conflict rfl hstored ?_).refused hs₁.inv⟩
          rintro body ⟨row, hrow, hh, -⟩
          obtain rfl := Option.some.inj (hstored.symm.trans hrow)
          exact hne hh
        · rename_i heq
          exact replay_ensures hs₁.inv rfl ⟨stored, hstored, not_not.mp heq, hbody⟩
      · exact pay_ensures

end createPayment

end CafePos
