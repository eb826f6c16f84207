import CafePos.Decisive
import CafePos.PayableOrders
import Mathlib

/-!
# Who says that a payment is live

`PaymentAlreadyActiveError` carries the payment that is in the way. `loadPayableOrder` throws it
with a live payment it has just read; `insertPayment` throws it for every unique violation on the
table of payments, after it has looked for a live payment once more, and with the id of the order
if it finds none. The violated index may be that of the idempotency key, whose entry lives as
long as the payment, while the row of the key itself is deleted a day later.

* `active_answered` — in every run in which the second look finds a live payment, the payment
  named was live during the call; the run may lose expired keys at any moment;
* `payment_made_iff` — on a payable order without a live payment, under a key that has no row, a
  call that nobody disturbs succeeds exactly if its order is worth something, no payment carries
  the key, and the gateway's answer under the key is of no other use.
-/

namespace CafePos

open Interleaving

variable {cfg : Config}

/-! ## Retention -/

/-- `deleteExpiredIdempotencyKeys`, one batch: of the keys picked, those that expired before the
cutoff. -/
def Db.deleteExpiredIdempotencyKeys (db : Db) (cutoff : Instant) (batch : List String) : Db :=
  { db with idempotencyKeys := db.idempotencyKeys.keep fun k row =>
      !(decide (row.expiresAt < cutoff) && batch.contains k) }

/-- A batch of expired keys is deleted. -/
def Retention (s s' : Shared) : Prop :=
  ∃ cutoff batch, s' = { s with db := s.db.deleteExpiredIdempotencyKeys cutoff batch }

/-- A run, in which expired keys may be deleted at any moment, with everything that happened. -/
abbrev KeptTrail (cfg : Config) (P : PosPermit) (vs : List (PosWorld × PosAct)) (w : PosWorld) :
    Prop :=
  Trail (system cfg) P Retention opening vs w

/-! ## What was live when the call looked -/

/-- Reads of the live payments of an order. -/
def readsLive : Query → Bool
  | .livePayments _ => true
  | _ => false

/-- An error that says that a payment is live names one that was read, or was thrown by a
transaction that read none. -/
def NamesLive (orderId : Id) : Query → Sess → Shared → Err → Prop
  | .livePayments o, l, s, e => ∀ x, e = .paymentAlreadyActive x → o = orderId ∧
      ((∃ p, (x, p) ∈ s.db.livePayments o) ∨ l.active = true ∧ s.db.livePayments o = [])
  | _, _, _, _ => True

theorem NamesLive.of_other {orderId : Id} {q : Query} {l : Sess} {s : Shared} {e : Err}
    (h : e.Other) : NamesLive orderId q l s e := by
  cases q with
  | livePayments o =>
    rintro x rfl
    cases h
  | _ => trivial

/-- If the door throws, it throws within `E`. -/
def Throws {α : Type} (E : Err → Prop) (r : Except Err α) : Prop := ∀ e, r = .error e → E e

namespace Throws

variable {α β : Type} {E : Err → Prop}

theorem ok {a : α} : Throws E (.ok a : Except Err α) := fun _ h => by cases h

theorem error {e : Err} (h : E e) : Throws E (.error e : Except Err α) := by
  intro e' he'
  obtain rfl := Except.error.inj he'
  exact h

theorem map {r : Except Err α} (h : Throws E r) (g : α → β) : Throws E (r.map g) := by
  cases r with
  | ok a => exact ok
  | error e => exact error (h e rfl)

end Throws

section decides

variable {α β : Type} {orderId : Id} {l : Sess} {s : Shared}

/-- The door says that a payment of the order is live only if its last look at them says so. -/
abbrev Names (orderId : Id) (m : Door α) (l : Sess) (s : Shared) : Prop :=
  Decides (fun _ _ => True) readsLive (fun q l s r _ _ => Throws (NamesLive orderId q l s) r) m
    (fun r _ _ => Throws Err.Other r) l s

/-- The same for a door inside a transaction, that throws once it has looked. -/
def Claims (orderId : Id) (m : Door α) : Prop :=
  ∀ l s, l.active = true → Decides (fun _ _ => True) readsLive
    (fun q l s r _ _ => Throws (NamesLive orderId q l s) r ∧ ∃ e, r = .error e) m
    (fun r l' _ => l'.active = true ∧ Throws Err.Other r) l s

/-- A door that says nothing of the kind. -/
theorem Calm.names {m : Door α} (h : Calm readsLive Err.Other m) : Names orderId m l s :=
  h.decides fun _ _ _ _ hr => hr

namespace Claims

theorem bind {m : Door β} {k : β → Door α} (h : Claims orderId m)
    (hk : ∀ b, Calm readsLive Err.Other (k b)) : Claims orderId (m >>= k) := by
  intro l s hl
  refine .bind ((h l s hl).mono ?_ ?_)
  · rintro q l₁ s₁ r l' s' ⟨hnames, e, rfl⟩
    exact ⟨.error (hnames e rfl), e, rfl⟩
  · rintro r l' s' ⟨hl', hr⟩
    cases r with
    | ok b => exact (hk b).decides fun r l'' s'' hl'' hr'' => ⟨hl''.trans hl', hr''⟩
    | error e => exact ⟨hl', .error (hr e rfl)⟩

theorem after {m : Door β} {k : β → Door α} (h : Calm readsLive Err.Other m)
    (hk : ∀ b, Claims orderId (k b)) : Claims orderId (m >>= k) := by
  intro l s hl
  refine .bind (h.decides fun r l' s' hl' hr => ?_)
  cases r with
  | ok b => exact hk b l' s' (hl'.trans hl)
  | error e => exact ⟨hl'.trans hl, .error (hr e rfl)⟩

theorem insertPayment {row : Payment} :
    Claims orderId (CafePos.insertPayment orderId row) := by
  intro l s hl
  have hinsert : Calm readsLive Err.Other (Door.raising (Door.statement (.insertPayment row))) :=
    .raising .statement fun _ => rfl
  refine .tryCatch (hinsert.decides fun r l₁ s₁ hl₁ hr => ?_)
  have hactive : l₁.active = true := hl₁.trans hl
  cases r with
  | ok id => exact ⟨hactive, .ok⟩
  | error e =>
    change Decides _ _ _ (if isUniqueViolation e then _ else throw e) _ _ _
    split
    · refine .bind ?_
      refine Decides.read (q := .livePayments orderId) rfl fun s₂ _ =>
        Decides.throw ⟨.error ?_, _, rfl⟩
      intro x hx
      obtain rfl := Err.paymentAlreadyActive.inj hx
      refine ⟨rfl, ?_⟩
      simp only [Query.answer]
      cases s₂.db.livePayments orderId with
      | nil => exact Or.inr ⟨hactive, rfl⟩
      | cons p ps => exact Or.inl ⟨p.2, List.mem_cons_self ..⟩
    · exact .throw ⟨hactive, .error (hr e rfl)⟩

end Claims

theorem calm_rehydrate {body : ResponseBody} :
    Calm readsLive Err.Other (rehydrate body) := by
  cases body with
  | order view => exact .pure _
  | payment view =>
    rw [rehydrate]
    split
    · exact .pure _
    · refine .bind (.select rfl) fun row => ?_
      cases row with
      | none => exact .pure _
      | some row =>
        dsimp only
        split
        · exact .pure _
        · exact .bind .clientSecretFor fun _ => .pure _

/-- `write` passes on what its work says. -/
theorem names_write {reservation : Option (String × String)}
    {work : Door (PaymentView × List DomainEvent)} (hwork : Claims orderId work) :
    Names orderId (write reservation work) l s := by
  rcases reservation with _ | ⟨k, hash⟩
  · refine .bind (.afterCommit fun s₁ => (hwork _ s₁ rfl).mono ?_ ?_)
    · rintro q l₁ s₂ r l' s' ⟨hnames, e, rfl⟩ l₂ s₃ hl₂
      exact .error (hnames e rfl)
    · rintro r l' s' ⟨-, hr⟩ l₂ s₃ hl₂
      cases r with
      | ok x => exact .pure .ok
      | error e => exact .error (hr e rfl)
  · have htransaction : Claims orderId (writeUnderKey k hash work) :=
      .after .keyExpiry fun _ => .after .reserveKey fun _ => .bind hwork fun _ =>
        .bind .completeKey fun _ => .pure _
    refine .tryCatch (.bind (.afterCommit fun s₁ => (htransaction _ s₁ rfl).mono ?_ ?_))
    · rintro q l₁ s₂ r l' s' ⟨hnames, e, rfl⟩ l₂ s₃ hl₂
      -- it is thrown once more, for the key is not what it is about
      change Decides _ _ _ (if isKeyAlreadyReserved e then _ else throw e) _ _ _
      split
      · exact Calm.decides (.bind (.replayKey rfl) fun _ => .bind calm_rehydrate fun _ => .pure _)
          fun r _ _ _ hr e' he' => .of_other (hr e' he')
      · exact .throw (.error (hnames e rfl))
    · rintro r l' s' ⟨-, hr⟩ l₂ s₃ hl₂
      cases r with
      | ok x => exact .pure .ok
      | error e =>
        change Names orderId (if isKeyAlreadyReserved e then _ else throw e) l₂ s₃
        split
        · exact Calm.names (.bind (.replayKey rfl) fun _ => .bind calm_rehydrate fun _ => .pure _)
        · exact .throw (.error (hr e rfl))

/-- The order is read, and then its live payments; what is found is thrown. -/
theorem names_loadPayableOrder {principal : Principal} {k : PayableOrder → Door α}
    (hk : ∀ order l₁ s₁, order.id = orderId → Names orderId (k order) l₁ s₁) :
    Names orderId (loadPayableOrder principal orderId >>= k) l s := by
  refine .bind (.bind (.select rfl fun s₁ _ => ?_))
  cases horder : s₁.db.orders.get orderId with
  | none =>
    simp only [Query.answer, horder]
    exact .throw (.error rfl)
  | some order =>
    simp only [Query.answer, horder]
    change Decides _ _ _ (if foreign principal order then _ else _) _ _ _
    split
    · exact .throw (.error rfl)
    · split
      · exact .throw (.error rfl)
      · split
        · exact .throw (.error rfl)
        · refine .bind ?_
          refine Decides.read (q := .livePayments orderId) rfl fun s₂ _ => ?_
          cases hlive : s₂.db.livePayments orderId with
          | cons p ps =>
            simp only [Query.answer, hlive]
            refine Decides.throw (Throws.error fun x hx => ?_)
            obtain rfl := Err.paymentAlreadyActive.inj hx
            refine ⟨rfl, Or.inl ⟨p.2, ?_⟩⟩
            rw [hlive]
            exact List.mem_cons_self ..
          | nil =>
            simp only [Query.answer, hlive]
            refine Decides.pure ((hk _ l s₂ rfl).mono (fun _ _ _ _ _ _ h => h) ?_)
            exact fun r _ _ hr e he => .of_other (hr e he)

theorem names_pay {principal : Principal} {input : CreatePaymentInput}
    {reservation : Option (String × String)} :
    Names orderId (pay principal orderId input reservation) l s := by
  refine names_loadPayableOrder ?_
  rintro order l₁ s₁ rfl
  split
  · unfold takeCash
    split
    · exact .throw (.error rfl)
    · split
      · exact .throw (.error rfl)
      · split
        · exact .throw (.error rfl)
        · exact names_write (.bind .insertPayment fun _ => .bind .transitionOrder fun _ => .pure _)
  · refine .bind (Calm.createIntent.decides fun r l₂ s₂ _ hr => ?_)
    cases r with
    | error e => exact .error (hr e rfl)
    | ok created => exact names_write (.bind .insertPayment fun _ => .pure _)

theorem createPayment_names {principal : Principal} {input : CreatePaymentInput}
    {key : Option String} : Names orderId (createPayment cfg principal orderId input key) l s := by
  cases key with
  | none => exact names_pay
  | some k =>
    refine .bind ((Calm.completedResponseFor rfl).decides fun r l₁ s₁ _ hr => ?_)
    cases r with
    | error e => exact .error (hr e rfl)
    | ok answered =>
      cases answered with
      | none => exact names_pay
      | some stored =>
        change Names orderId (if stored.1 ≠ _ then _ else _) l₁ s₁
        split
        · exact .throw (.error rfl)
        · exact Calm.names (.bind calm_rehydrate fun _ => .pure _)

end decides

/-! ## Along a run -/

/-- The payment was a live payment of the order in a world of the run in which call `i` was under
way. -/
def LiveDuring (i : ℕ) (orderId x : Id) (vs : List (PosWorld × PosAct)) : Prop :=
  ∃ v ∈ vs, (∃ t, v.1.threads[i]? = some t ∧ t.Running) ∧
    ∃ p, v.1.shared.db.payments.get x = some p ∧ p.orderId = orderId ∧ p.status.isLive = true

/-- A transaction that looks for the live payments of an order finds one. -/
def rereadFindsLive : Call → Op → Sess → Shared → Bool
  | _, .query .pool (.livePayments orderId), l, s =>
    !l.active || !(s.db.livePayments orderId).isEmpty
  | _, _, _, _ => true

/-- **Where the second look finds a live payment, the error tells the truth.** -/
theorem active_answered {vs : List (PosWorld × PosAct)} {w : PosWorld} {i : ℕ} {t : PosThread}
    {principal : Principal} {orderId x : Id} {input : CreatePaymentInput} {key : Option String}
    (h : KeptTrail cfg (.ofCheck rereadFindsLive) vs w) (ht : w.threads[i]? = some t)
    (hcall : t.call = .createPayment principal orderId input key)
    (ha : t.Answered (.error (.paymentAlreadyActive x))) : LiveDuring i orderId x vs := by
  have hG : Trail.Respects (system cfg) (.ofCheck rereadFindsLive) Retention opening
      fun _ _ => True := ⟨fun _ => trivial, fun _ _ => trivial, fun _ _ _ => trivial,
    fun _ _ => trivial⟩
  have hstart : ∀ s, (program cfg (.createPayment principal orderId input key)).decides machine
      (fun _ _ => True) (reads readsLive)
      (onRead fun q l s r _ _ => Throws (NamesLive orderId q l s) r)
      (fun r _ _ => Throws Err.Other r) idle s := by
    intro s
    refine Decides.map ((createPayment_names (l := idle) (s := s)).mono ?_ ?_)
    · exact fun q l₁ s₁ r l₂ s₂ hr => hr.map _
    · exact fun r l₂ s₂ hr => hr.map _
  obtain ⟨-, -, ⟨-, hother⟩ | ⟨q, l₀, s₀, hmem, hq, hnames⟩⟩ := decided_read hG hstart h ht hcall ha
  · have hf := hother _ rfl
    cases hf
  · cases q with
    | livePayments o =>
      obtain ⟨rfl, hlive⟩ := hnames _ rfl x rfl
      obtain ⟨⟨v, a⟩, hv, hop⟩ := List.mem_filterMap.mp hmem
      obtain ⟨inp, u, k, rfl, hu, hp, rfl, rfl⟩ := World.operation_eq_some hop
      have hcheck : rereadFindsLive u.call (.query .pool (.livePayments o)) u.session v.shared :=
        (h.allows hv).1 u _ k hu hp
      refine ⟨_, hv, ⟨u, hu, _, k, hp⟩, ?_⟩
      rcases hlive with ⟨p, hp⟩ | ⟨hactive, hnone⟩
      · obtain ⟨hget, hpo⟩ := Table.mem_select.mp hp
        rw [Bool.and_eq_true, beq_iff_eq] at hpo
        exact ⟨p, hget, hpo⟩
      · simp [rereadFindsLive, hactive, hnone] at hcheck
    | _ => cases hq

/-! ## A call that nobody disturbs -/

section alone

variable {φ : Input → Prop} {s : Shared} {principal : Principal} {orderId : Id}
  {input : CreatePaymentInput} {k : String} {o : Order}

/-- `insertPayment`, of a row that its table refuses. -/
theorem Ends.insertPayment_refused {Q : Id → Sess → Shared → Prop}
    {E : Err → Sess → Shared → Prop} {l : Sess} {row : Payment} (hl : l.active = true)
    (hlog : ∀ w ∈ l.log, ∀ id p, w ≠ .payment id p)
    (hbad : 0 < row.amountMinor → Statement.paymentConflicts s.db row = true)
    (hfresh : ∀ inp, φ inp → s.db.payments.get inp.fresh = none)
    (h : ∀ e l', e ≠ .keyAlreadyReserved → E e l' s) :
    Ends φ (CafePos.insertPayment orderId row) Q E l s := by
  have hview := view_payments hlog s.db
  have hconf : Statement.paymentConflicts (l.view store s.db) row =
      Statement.paymentConflicts s.db row := by
    rw [Statement.paymentConflicts, Statement.paymentConflicts, hview]
  refine .tryCatch (.raising (.statement hl fun inp l' e hinp he hadds => ⟨?_, ?_⟩))
  · simp [Statement.idUnused, hview, hfresh inp hinp]
  · simp only [Statement.effect] at he
    split at he
    · subst he
      exact .throw (h _ l' (by simp))
    · split at he
      · subst he
        exact .throw (h _ l' (by simp))
      · rename_i hpositive
        rw [hconf, hbad (Int.not_le.mp hpositive), if_pos rfl] at he
        subst he
        -- the winner is looked for, and the call fails whether or not there is one
        exact .bind (.select (.throw (h _ l' (by simp))))

/-- Up to what is done about the money: a call on a payable order under a key without a row. -/
theorem createPayment_opens (h : Payable s.db orderId o) (hmine : foreign principal o = false)
    (hkey : s.db.idempotencyKeys.get k = none) {Q : PaymentCreated → Sess → Shared → Prop}
    {E : Err → Sess → Shared → Prop}
    (hrest : ∀ hash, Ends φ (if input.method = .cash then
        takeCash principal ⟨orderId, o.totalMinor, o.currency⟩ input (some (k, hash))
      else openGatewayPayment ⟨orderId, o.totalMinor, o.currency⟩ (some (k, hash))) Q E idle s) :
    Ends φ (createPayment cfg principal orderId input (some k)) Q E idle s := by
  refine .bind (.bind (.select ?_))
  simp only [Query.answer, hkey]
  refine .pure (.bind (.bind (.select ?_)))
  simp only [Query.answer, h.order, hmine, h.pending, Bool.false_eq_true, if_false]
  refine .bind (.select ?_)
  simp only [Query.answer, h.idle]
  exact .pure (hrest _)

/-- A request that may pay the order, if nothing is in the way. -/
inductive Requests (principal : Principal) (input : CreatePaymentInput) (o : Order) : Prop
  /-- cash, at the counter, and enough of it -/
  | cash {userId : Id} {tendered : ℤ} : principal = .staff userId →
      CashRequest input tendered o → Requests principal input o
  /-- through the gateway, for an order of one's own, whose total fits its column -/
  | gateway : input.method ≠ .cash → foreign principal o = false → int4 o.totalMinor →
      Requests principal input o

theorem Requests.mine (h : Requests principal input o) : foreign principal o = false := by
  cases h with
  | cash hstaff _ =>
    subst hstaff
    rfl
  | gateway _ hmine _ => exact hmine

/-- The gateway answers, and the ids that are drawn are new. -/
structure Supplied (s : Shared) (inp : Input) : Prop where
  reachable : inp.reachable = true
  fresh : s.db.payments.get inp.fresh = none
  intent : s.gateway.intents.get inp.stripeId = none
  unused : ∀ id p, s.db.payments.get id = some p → p.providerIntentId ≠ some inp.stripeId

/-- The key has been forgotten altogether: no payment carries it, and the gateway, if it
remembers it, remembers the same request, with an intent that has no payment. -/
structure Forgotten (s : Shared) (orderId : Id) (input : CreatePaymentInput) (k : String)
    (o : Order) : Prop where
  row : ∀ id p, s.db.payments.get id = some p → p.idempotencyKey ≠ some k
  intent : input.method ≠ .cash → ∀ i it, s.gateway.byKey (some k) = some (i, it) →
    it.Answers ⟨o.totalMinor, o.currency, some k, orderId⟩ ∧
      ∀ id p, s.db.payments.get id = some p → p.providerIntentId ≠ some i

/-- What is in the way of a gateway payment, on an order without a live one. -/
theorem gatewayRow_conflicts {i : String} (h : Payable s.db orderId o) :
    Statement.paymentConflicts s.db
        (gatewayRow ⟨orderId, o.totalMinor, o.currency⟩ i (some k)) = false ↔
      (∀ id p, s.db.payments.get id = some p → p.providerIntentId ≠ some i) ∧
        ∀ id p, s.db.payments.get id = some p → p.idempotencyKey ≠ some k := by
  rw [paymentConflicts_eq_false]
  constructor
  · rintro ⟨hintent, hkey, -⟩
    exact ⟨hintent i rfl, hkey k rfl⟩
  · rintro ⟨hintent, hkey⟩
    refine ⟨fun i' hi' => ?_, fun k' hk' => ?_, fun _ id p hp ho hlive => ?_⟩
    · obtain rfl := Option.some.inj hi'
      exact hintent
    · obtain rfl := Option.some.inj hk'
      exact hkey
    · have hmem : (id, p) ∈ s.db.livePayments orderId := by
        refine Table.mem_select.mpr ⟨hp, ?_⟩
        rw [Bool.and_eq_true, beq_iff_eq]
        exact ⟨ho, hlive⟩
      rw [h.idle] at hmem
      cases hmem

/-- What is in the way of cash. -/
theorem cashRow_conflicts_iff {tendered : ℤ} (order : PayableOrder) :
    Statement.paymentConflicts s.db (cashRow order tendered (some k)) = false ↔
      ∀ id p, s.db.payments.get id = some p → p.idempotencyKey ≠ some k := by
  rw [paymentConflicts_eq_false]
  constructor
  · rintro ⟨-, hkey, -⟩
    exact hkey k rfl
  · intro hkey
    refine ⟨fun i hi => ?_, fun k' hk' => ?_, fun hlive => ?_⟩
    · cases hi
    · obtain rfl := Option.some.inj hk'
      exact hkey
    · cases hlive

/-- The call has stored a payment of the order, over its total, and returned it as a new one. -/
def Made (orderId : Id) (o : Order) (created : PaymentCreated) (s' : Shared) : Prop :=
  ∃ view, created = ⟨.payment view, false⟩ ∧ ∃ p, s'.db.payments.get view.id = some p ∧
    p.orderId = orderId ∧ p.amountMinor = o.totalMinor

/-- Work that the table of payments refuses ends the call. -/
theorem write_refused {hash : String} {work : Door (PaymentView × List DomainEvent)}
    {Q : PaymentCreated → Sess → Shared → Prop} (hkey : s.db.idempotencyKeys.get k = none)
    (hwork : ∀ l expiry, Reserved l (some (k, hash)) expiry → ∀ {Q E},
      (∀ e l', e ≠ .keyAlreadyReserved → E e l' s) → Ends φ work Q E l s) :
    Ends φ (write (some (k, hash)) work) Q (fun _ _ _ => True) idle s := by
  have hfree : KeyFree s.db (some (k, hash)) := by
    intro r hr
    obtain rfl := Option.some.inj hr
    exact hkey
  refine .mono (write_ends (R := fun _ _ => False) (F := fun _ => True) hfree fun l expiry hl =>
    hwork l expiry hl fun e l' he => ⟨rfl, he, trivial⟩) ?_ fun _ _ _ _ => trivial
  rintro created l' s' ⟨view, ws, expiry, -, hfalse, -⟩
  exact hfalse.elim

/-- A gateway payment whose row its table takes. -/
theorem writeGateway_made {hash i : String} {secret : ClientSecret}
    (hkey : s.db.idempotencyKeys.get k = none)
    (hfresh : ∀ inp, φ inp → s.db.payments.get inp.fresh = none) (hpositive : 0 < o.totalMinor)
    (hfits : int4 o.totalMinor) (hconf : Statement.paymentConflicts s.db
      (gatewayRow ⟨orderId, o.totalMinor, o.currency⟩ i (some k)) = false) :
    Ends φ (write (some (k, hash)) do
        let row := gatewayRow ⟨orderId, o.totalMinor, o.currency⟩ i (some k)
        let paymentId ← CafePos.insertPayment orderId row
        pure (paymentView paymentId row (some secret), []))
      (fun created _ s' => Made orderId o created s') (fun _ _ _ => False) idle s := by
  have hfree : KeyFree s.db (some (k, hash)) := by
    intro r hr
    obtain rfl := Option.some.inj hr
    exact hkey
  refine .mono (write_ends (R := fun view ws => ∃ p, ws = [.payment view.id p] ∧
    p.orderId = orderId ∧ p.amountMinor = o.totalMinor) (F := fun _ => False) hfree
    fun l expiry hl => ?_) ?_ fun _ _ _ h => h.2
  · have hstore : (gatewayRow ⟨orderId, o.totalMinor, o.currency⟩ i (some k)).storable := by
      simp [Payment.storable, gatewayRow, hfits, hpositive]
    refine .bind (.insertPayment hl.active hl.no_payment hstore hconf hfresh
      fun inp l₁ _ hadds => .pure ⟨rfl, _, hadds, ?_, ?_⟩)
    · simp
    · exact ⟨_, rfl, rfl, rfl⟩
  · rintro created l' s' ⟨view, ws, expiry, rfl, ⟨p, rfl, hp⟩, hkeys, rfl⟩
    refine ⟨view, rfl, p, ?_, hp⟩
    rw [Shared.commit, applyAll_underKey hkeys]
    exact Table.get_put_self ..

/-- `createIntent`, when the gateway answers. -/
theorem Ends.createIntent {l : Sess} {request : CreateIntentRequest}
    {Q : String × ClientSecret → Sess → Shared → Prop} {E : Err → Sess → Shared → Prop}
    (hφ : ∀ inp, φ inp → Supplied s inp)
    (hnew : s.gateway.byKey request.idempotencyKey = none → ∀ inp g, φ inp →
      Q (inp.stripeId, ⟨inp.stripeId⟩) l { s with gateway := g })
    (hold : ∀ i it, s.gateway.byKey request.idempotencyKey = some (i, it) →
      it.Answers request → Q (i, ⟨i⟩) l s)
    (hrefused : ∀ i it, s.gateway.byKey request.idempotencyKey = some (i, it) →
      ¬ it.Answers request → E .stripe l s) : Ends φ (CafePos.createIntent request) Q E l s := by
  refine .bind (.perform fun inp hinp => ?_)
  obtain ⟨hreachable, -, hintent, -⟩ := hφ inp hinp
  cases hby : s.gateway.byKey request.idempotencyKey with
  | none =>
    obtain ⟨g, hg⟩ : ∃ g, stripeCreate inp request s.gateway =
        some (.ok (inp.stripeId, ⟨inp.stripeId⟩), g) := by
      simp only [stripeCreate, hreachable, hby, hintent, Bool.not_true, Bool.false_eq_true,
        if_false]
      exact ⟨_, rfl⟩
    refine ⟨.ok (inp.stripeId, ⟨inp.stripeId⟩), l, { s with gateway := g }, ?_,
      .pure (hnew hby inp g hinp)⟩
    rw [exec, hg, Option.map_some]
  | some x =>
    obtain ⟨i, it⟩ := x
    by_cases hsame : it.Answers request
    · refine ⟨.ok (i, ⟨i⟩), l, s, ?_, .pure (hold i it hby hsame)⟩
      rw [Intent.Answers] at hsame
      simp only [exec, stripeCreate, hreachable, hby, hsame, and_self, Bool.not_true,
        Bool.false_eq_true, if_false, if_true, Option.map_some]
    · refine ⟨.error .invalidRequest, l, s, ?_, .throw (hrefused i it hby hsame)⟩
      rw [Intent.Answers] at hsame
      simp only [exec, stripeCreate, hreachable, hby, hsame, Bool.not_true, Bool.false_eq_true,
        if_false, Option.map_some]

/-- A gateway payment under a forgotten key is opened. -/
theorem openGateway_made {hash : String} (h : Payable s.db orderId o)
    (hkey : s.db.idempotencyKeys.get k = none) (hφ : ∀ inp, φ inp → Supplied s inp)
    (hmethod : input.method ≠ .cash) (hfits : int4 o.totalMinor) (hpositive : 0 < o.totalMinor)
    (hforgot : Forgotten s orderId input k o) :
    Ends φ (openGatewayPayment ⟨orderId, o.totalMinor, o.currency⟩ (some (k, hash)))
      (fun created _ s' => Made orderId o created s') (fun _ _ _ => False) idle s := by
  refine .bind (.createIntent hφ ?_ ?_ ?_)
  · intro _ inp g hinp
    exact writeGateway_made (s := { s with gateway := g }) hkey (fun inp hi => (hφ inp hi).fresh)
      hpositive hfits ((gatewayRow_conflicts h).mpr ⟨(hφ inp hinp).unused, hforgot.row⟩)
  · intro i it hby _
    exact writeGateway_made hkey (fun inp hi => (hφ inp hi).fresh) hpositive hfits
      ((gatewayRow_conflicts h).mpr ⟨(hforgot.intent hmethod i it hby).2, hforgot.row⟩)
  · intro i it hby hother
    exact absurd (hforgot.intent hmethod i it hby).1 hother

/-- Otherwise it is refused. -/
theorem openGateway_refused {hash : String} {Q : PaymentCreated → Sess → Shared → Prop}
    (h : Payable s.db orderId o) (hkey : s.db.idempotencyKeys.get k = none)
    (hφ : ∀ inp, φ inp → Supplied s inp)
    (hbad : ¬ (0 < o.totalMinor ∧ Forgotten s orderId input k o)) :
    Ends φ (openGatewayPayment ⟨orderId, o.totalMinor, o.currency⟩ (some (k, hash))) Q
      (fun _ _ _ => True) idle s := by
  -- an amount the table takes leaves a conflict
  have hconf : ∀ i, (∀ i' it, s.gateway.byKey (some k) = some (i', it) → i' = i ∧
      it.Answers ⟨o.totalMinor, o.currency, some k, orderId⟩) → 0 < o.totalMinor →
      Statement.paymentConflicts s.db
        (gatewayRow ⟨orderId, o.totalMinor, o.currency⟩ i (some k)) = true := by
    intro i hby hpositive
    rw [← Bool.not_eq_false]
    intro hfree
    obtain ⟨hintent, hrow⟩ := (gatewayRow_conflicts h).mp hfree
    refine hbad ⟨hpositive, hrow, fun _ i' it hi' => ?_⟩
    obtain ⟨rfl, hsame⟩ := hby i' it hi'
    exact ⟨hsame, hintent⟩
  refine .bind (.createIntent hφ ?_ ?_ fun _ _ _ _ => trivial)
  · intro hby inp g _
    refine write_refused (s := { s with gateway := g }) hkey fun l expiry hl Q E hE =>
      .bind (.insertPayment_refused hl.active hl.no_payment (hconf _ fun i' it hi' => ?_)
        (fun inp hi => (hφ inp hi).fresh) hE)
    have hnone : s.gateway.byKey (some k) = none := hby
    rw [hnone] at hi'
    cases hi'
  · intro i it hby hsame
    refine write_refused hkey fun l expiry hl Q E hE =>
      .bind (.insertPayment_refused hl.active hl.no_payment (hconf _ fun i' it' hi' => ?_)
        (fun inp hi => (hφ inp hi).fresh) hE)
    obtain ⟨rfl, rfl⟩ := Prod.mk.inj (Option.some.inj (hby.symm.trans hi'))
    exact ⟨rfl, hsame⟩

variable (cfg) in
/-- A call that finds everything in order makes a payment. -/
theorem payment_made (h : Payable s.db orderId o) (hr : Requests principal input o)
    (hkey : s.db.idempotencyKeys.get k = none) (hφ : ∀ inp, φ inp → Supplied s inp)
    (hpositive : 0 < o.totalMinor) (hforgot : Forgotten s orderId input k o) :
    Ends φ (createPayment cfg principal orderId input (some k))
      (fun created _ s' => Made orderId o created s') (fun _ _ _ => False) idle s := by
  cases hr with
  | cash hstaff hr =>
    subst hstaff
    have hunused : KeyUnused s.db (some k) := by
      intro k' hk'
      obtain rfl := Option.some.inj hk'
      exact ⟨hkey, hforgot.row⟩
    refine .mono (takeCash_ends h hr hunused (fun inp hi => (hφ inp hi).fresh) hpositive) ?_
      fun _ _ _ hf => hf
    rintro created l' s' ⟨view, rfl, ⟨p, hp, ho, -, hamount⟩, -⟩
    exact ⟨view, rfl, p, hp, ho, hamount⟩
  | gateway hmethod hmine hfits =>
    refine createPayment_opens h hmine hkey fun hash => ?_
    rw [if_neg hmethod]
    exact openGateway_made h hkey hφ hmethod hfits hpositive hforgot

variable (cfg) in
/-- Any other ends in an error. -/
theorem payment_refused (h : Payable s.db orderId o) (hr : Requests principal input o)
    (hkey : s.db.idempotencyKeys.get k = none) (hφ : ∀ inp, φ inp → Supplied s inp)
    (hbad : ¬ (0 < o.totalMinor ∧ Forgotten s orderId input k o)) :
    Ends φ (createPayment cfg principal orderId input (some k)) (fun _ _ _ => False)
      (fun _ _ _ => True) idle s := by
  refine createPayment_opens h hr.mine hkey fun hash => ?_
  cases hr with
  | cash hstaff hr =>
    subst hstaff
    simp only [if_pos hr.method, takeCash, hr.tender, if_neg (Int.not_lt.mpr hr.covers)]
    refine write_refused hkey fun l expiry hl Q E hE =>
      .bind (.insertPayment_refused hl.active hl.no_payment (fun hpositive => ?_)
        (fun inp hi => (hφ inp hi).fresh) hE)
    rw [← Bool.not_eq_false]
    intro hfree
    exact hbad ⟨hpositive, (cashRow_conflicts_iff _).mp hfree, fun hcash => absurd hr.method hcash⟩
  | gateway hmethod hmine hfits =>
    rw [if_neg hmethod]
    exact openGateway_refused h hkey hφ hbad

end alone

/-- The call succeeds: made in state `s` while nobody else calls, with `inp n` what the outside
supplies to its `n`-th operation, it makes a payment of the order over its total. -/
def PaymentSucceeds (cfg : Config) (principal : Principal) (orderId : Id) (input : CreatePaymentInput)
    (k : String) (o : Order) (inp : ℕ → Input) (s : Shared) : Prop :=
  ∃ ops created l' s', (createPayment cfg principal orderId input (some k)).run.traced machine
      (fun _ => false) inp idle s = some (ops, .ok created, l', s') ∧ Made orderId o created s'

theorem payment_made_iff {s : Shared} {principal : Principal} {orderId : Id}
    {input : CreatePaymentInput} {k : String} {o : Order} {inp : ℕ → Input}
    (h : Payable s.db orderId o) (hr : Requests principal input o)
    (hkey : s.db.idempotencyKeys.get k = none) (hinp : ∀ n, Supplied s (inp n)) :
    PaymentSucceeds cfg principal orderId input k o inp s ↔
      0 < o.totalMinor ∧ Forgotten s orderId input k o := by
  constructor
  · rintro ⟨ops, created, l', s', ht, -⟩
    by_contra hbad
    obtain ⟨ops', r, l'', s'', ht', hend⟩ :=
      (payment_refused cfg h hr hkey (fun _ h => h) hbad).traced hinp
    obtain ⟨-, hres, -⟩ := Option.some.inj (ht.symm.trans ht') |> Prod.mk.inj
      |>.imp_right Prod.mk.inj
    rcases hend with ⟨a, -, hfalse⟩ | ⟨e, rfl, -⟩
    · exact hfalse
    · cases hres
  · rintro ⟨hpositive, hforgot⟩
    obtain ⟨ops, r, l', s', ht, hend⟩ :=
      (payment_made cfg h hr hkey (fun _ h => h) hpositive hforgot).traced hinp
    rcases hend with ⟨a, rfl, hmade⟩ | ⟨e, -, hfalse⟩
    · exact ⟨ops, a, l', s', ht, hmade⟩
    · exact hfalse.elim

/-- **`PAYMENT_ALREADY_ACTIVE` tells the truth where the second look finds a live payment.** In
every run, in which expired keys may be deleted at any moment: if each transaction that looks for
the live payments of an order, after its insert was refused, finds one, then every
`PaymentAlreadyActiveError` names a payment that was a live payment of the order during the call.
And in every state, for an order that waits for its payment, without a live one, and a key that
has no row: a call that may pay it, made while nobody else calls, succeeds if and only if the
order is worth something and the key has been forgotten altogether. -/
theorem active_error_truthful (cfg : Config) :
    (∀ (vs : List (PosWorld × PosAct)) (w : PosWorld) (i : ℕ) (t : PosThread)
      (principal : Principal) (orderId x : Id) (input : CreatePaymentInput) (key : Option String),
      KeptTrail cfg (.ofCheck rereadFindsLive) vs w → w.threads[i]? = some t →
      t.call = .createPayment principal orderId input key →
      t.Answered (.error (.paymentAlreadyActive x)) → LiveDuring i orderId x vs) ∧
    ∀ (s : Shared) (principal : Principal) (orderId : Id) (input : CreatePaymentInput)
      (k : String) (o : Order) (inp : ℕ → Input), Payable s.db orderId o →
      Requests principal input o → s.db.idempotencyKeys.get k = none →
      (∀ n, Supplied s (inp n)) →
      (PaymentSucceeds cfg principal orderId input k o inp s ↔
        0 < o.totalMinor ∧ Forgotten s orderId input k o) :=
  ⟨fun _ _ _ _ _ _ _ _ _ h ht hcall ha => active_answered h ht hcall ha,
    fun _ _ _ _ _ _ _ h hr hkey hinp => payment_made_iff h hr hkey hinp⟩

/-! ## Two tills, and a key from yesterday -/

/-- Staff member 7 pays order 100 by card, without a key. -/
def payByCardAt : Call := .createPayment (.staff 7) 100 ⟨.card, none⟩ none

/-- Call 2 finds no live payment, call 1 makes payment 200, and call 2 goes on and is refused by
the index. -/
def raceForOrder : List PosAct :=
  takeOrder ++ .start payByCardAt :: .start payByCardAt :: steps 2 2 (supply 201 "pi2") ++
    steps 1 6 (supply 200 "pi") ++ steps 2 5 (supply 201 "pi2")

/-- Call `i`, which pays order `orderId`, answered that `x` is live. -/
def SaidActive (i : ℕ) (orderId : Id) (input : CreatePaymentInput) (key : Option String) (x : Id)
    (w : PosWorld) : Prop :=
  ((w.threads[i]?).any fun t => t.call.pays orderId input key &&
    decide (t.Answered (.error (.paymentAlreadyActive x)))) = true

instance (i : ℕ) (orderId : Id) (input : CreatePaymentInput) (key : Option String) (x : Id)
    (w : PosWorld) : Decidable (SaidActive i orderId input key x w) :=
  inferInstanceAs (Decidable (_ = true))

theorem SaidActive.facts {i : ℕ} {orderId : Id} {input : CreatePaymentInput}
    {key : Option String} {x : Id} {w : PosWorld} (h : SaidActive i orderId input key x w) :
    ∃ t, w.threads[i]? = some t ∧ t.call = .createPayment (.staff 7) orderId input key ∧
      t.Answered (.error (.paymentAlreadyActive x)) := by
  simp only [SaidActive, Option.any_eq_true, Bool.and_eq_true, decide_eq_true_eq] at h
  obtain ⟨t, ht, hcall, ha⟩ := h
  exact ⟨t, ht, Call.pays_iff.mp hcall, ha⟩

theorem active_error_truthful_race : ∃ vs w t,
    KeptTrail cornerCafe (.ofCheck rereadFindsLive) vs w ∧ w.threads[2]? = some t ∧
    t.Answered (.error (.paymentAlreadyActive 200)) ∧ LiveDuring 2 100 200 vs := by
  obtain ⟨⟨vs, w⟩, hrun, hsaid⟩ := (Option.any_eq_true _ _).mp
    (show ((opening.trailIf (system cornerCafe) (World.passes rereadFindsLive) raceForOrder).any
      fun x => decide (SaidActive 2 100 ⟨.card, none⟩ none 200 x.2)) = true by decide)
  have h : KeptTrail cornerCafe (.ofCheck rereadFindsLive) vs w :=
    Trail.of_trailIf (fun _ _ => World.allows_of_passes) .refl hrun
  obtain ⟨t, ht, hcall, ha⟩ := (of_decide_eq_true hsaid).facts
  exact ⟨vs, w, t, h, ht, ha, (active_error_truthful cornerCafe).1 vs w 2 t _ _ _ _ _ h ht hcall ha⟩

/-- Order 100 is paid in cash under key `k` (call 1), and order 101 is taken (call 2). -/
def payAndTakeAnother : List PosAct :=
  takeOrder ++
    .start (.createPayment (.staff 7) 100 ⟨.cash, some 10000⟩ (some "k")) ::
      steps 1 12 (supply 200 "") ++
    .start (.createOrder (.staff 7) oneLatte none) :: steps 2 8 (supply 101 "")

/-- Order 101 is paid in cash, under the same key (call 3). -/
def payUnderOldKey : List PosAct :=
  .start (.createPayment (.staff 7) 101 ⟨.cash, some 10000⟩ (some "k")) ::
    steps 3 9 (supply 201 "")

/-- Key `k` is deleted, as it has expired. -/
def forgetKey (w : PosWorld) : PosWorld :=
  ⟨{ w.shared with db := w.shared.db.deleteExpiredIdempotencyKeys 86400006 ["k"] }, w.threads⟩

/-- In none of the worlds is there a payment 101. -/
def neverPaid (vs : List (PosWorld × PosAct)) : Bool :=
  vs.all fun v => (v.1.shared.db.payments.get 101).isNone

theorem not_liveDuring_of_neverPaid {vs : List (PosWorld × PosAct)} (h : neverPaid vs) (i : ℕ)
    (orderId : Id) : ¬ LiveDuring i orderId 101 vs := by
  rintro ⟨v, hv, -, p, hp, -⟩
  have hnone := List.all_eq_true.mp h v hv
  rw [hp] at hnone
  cases hnone

/-- Yesterday's key is used again after it was deleted: the payment that still carries it is in
the way, and the call says that order 101 is a live payment. -/
theorem order_named_live : ¬ ∀ (vs : List (PosWorld × PosAct)) (w : PosWorld) (i : ℕ)
    (t : PosThread) (principal : Principal) (orderId x : Id) (input : CreatePaymentInput)
    (key : Option String), KeptTrail cornerCafe .all vs w → w.threads[i]? = some t →
    t.call = .createPayment principal orderId input key →
    t.Answered (.error (.paymentAlreadyActive x)) → LiveDuring i orderId x vs := by
  intro hclaim
  obtain ⟨⟨vs, w⟩, hrun, hrest⟩ := (Option.any_eq_true _ _).mp
    (show ((opening.trailIf (system cornerCafe) (fun _ _ => true) payAndTakeAnother).any fun x =>
      ((forgetKey x.2).trailIf (system cornerCafe) (fun _ _ => true) payUnderOldKey).any fun y =>
        decide (SaidActive 3 101 ⟨.cash, some 10000⟩ (some "k") 101 y.2) &&
          neverPaid (x.1 ++ y.1)) = true by decide)
  obtain ⟨⟨us, w'⟩, hrun', hboth⟩ := (Option.any_eq_true _ _).mp hrest
  obtain ⟨hsaid, hnever⟩ := Bool.and_eq_true_iff.mp hboth
  have hall : ∀ (w : PosWorld) (a : PosAct), true = true →
      (Permit.all : PosPermit).Allows w a :=
    fun w a _ => Runs.allows_all w a
  have h : KeptTrail cornerCafe .all (vs ++ us) w' := by
    have hforgot : KeptTrail cornerCafe .all vs (forgetKey w) :=
      (Trail.of_trailIf hall .refl hrun).disturb ⟨86400006, ["k"], rfl⟩
    exact Trail.of_trailIf hall hforgot hrun'
  obtain ⟨t, ht, hcall, ha⟩ := (of_decide_eq_true hsaid).facts
  exact not_liveDuring_of_neverPaid hnever 3 101 (hclaim _ _ 3 t _ _ _ _ _ h ht hcall ha)

end CafePos
