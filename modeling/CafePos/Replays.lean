import CafePos.Decisive
import CafePos.KeySteps
import CafePos.Capture
import Mathlib

/-!
# Replays answer with the payment of yesterday

A replay of `CreatePaymentService.create` returns the stored copy of the payment and puts the
client secret back. Which payments get one is decided by the status in the copy, which is the
status of the moment the payment was created, and not by that of the row the replay reads: a
payment that has failed since is replayed as `PENDING`, with its secret.

* `Reachable.copies` — what the stored copies say, in every reachable state;
* `createPayment_replays` — how a replay is decided by the row it read;
* `replay_truthful_iff` — a replay is truthful exactly if that row was still `PENDING`.
-/

namespace CafePos

open Interleaving

variable {cfg : Config}

/-! ## The stored copies -/

/-- What the stored copy of a payment says of it. -/
inductive Copied (db : Db) (view : PaymentView) : Prop
  /-- a gateway payment is copied as `PENDING` -/
  | gateway {p : Payment} {i : String} : db.payments.get view.id = some p →
      p.providerIntentId = some i → view.provider = .stripe → view.status = .pending →
      Copied db view
  /-- cash has succeeded, and stays so -/
  | cash {p : Payment} : db.payments.get view.id = some p → p.status = .succeeded →
      view.provider = .cash → view.status = .succeeded → Copied db view

/-- Every stored payment is such a copy, without its secret. -/
def Copies (db : Db) : Prop :=
  ∀ k row view, db.idempotencyKeys.get k = some row → row.responseBody = some (.payment view) →
    view.clientAction = none ∧ Copied db view

theorem Copied.grows {db db' : Db} {view : PaymentView} (h : Copied db view)
    (hg : db.Grows db') : Copied db' view := by
  cases h with
  | gateway hp hi hprovider hstatus =>
    obtain ⟨p', hp', hev⟩ := hg.payments _ _ hp
    exact .gateway hp' (hev.providerIntentId.trans hi) hprovider hstatus
  | cash hp hsucc hprovider hstatus =>
    obtain ⟨p', hp', hev⟩ := hg.payments _ _ hp
    exact .cash hp' (hev.succeeded hsucc) hprovider hstatus

/-- The payment of a log is in cash and has succeeded, or it has an intent and waits. -/
def Write.isBorn : Write → Prop
  | .payment _ p => p.provider = .cash ∧ p.status = .succeeded ∨
      p.provider = .stripe ∧ p.status = .pending ∧ p.providerIntentId.isSome
  | _ => True

/-- The payments a call creates. -/
theorem Commits.isBorn {P : PosPermit} {principal : Principal} {orderId : Id}
    {input : CreatePaymentInput} {key : Option String} {s : Shared} {ws : List Write}
    (h : Commits cfg P (.createPayment principal orderId input key) s ws) :
    ∀ w ∈ ws, w.isBorn := by
  cases h with
  | cash hm ht hle hkey hrow hpending hp =>
    refine forall_underKey (φ := Write.isBorn) (fun _ _ => trivial) ?_ _ _ _
    refine List.forall_mem_cons.mpr ⟨?_, ?_⟩
    · rw [hp]
      exact Or.inl ⟨rfl, rfl⟩
    · exact forall_moveWrites (φ := Write.isBorn) trivial trivial
  | openPayment hm hkey hrow hmine hp =>
    refine forall_underKey (φ := Write.isBorn) (fun _ _ => trivial) ?_ _ _ _
    refine List.forall_mem_singleton.mpr ?_
    rw [hp]
    exact Or.inr ⟨rfl, rfl, rfl⟩
  | close hcloses => cases hcloses

theorem Copies.commit {P : PosPermit} {c : Call} {s : Shared} {ws : List Write}
    (h : Copies s.db) (hs : Settled s.db) (hc : Commits cfg P c s ws) :
    Copies (store.applyAll ws s.db) := by
  intro k row view hrow hbody
  rcases hc.keyStep.get hrow with hold | ⟨-, -, hash, body, ws', hans, -, hbody', hmem⟩
  · obtain ⟨haction, hcopied⟩ := h k row view hold hbody
    exact ⟨haction, hcopied.grows (hc.grows hs)⟩
  · obtain rfl := Option.some.inj (hbody'.symm.trans hbody)
    cases hans with
    | @payment principal orderId input _ id p ws'' hpo hkey =>
      have hborn := hc.isBorn _ (hmem _ (List.mem_cons_self ..))
      have hp := (hc.paymentStep hs).get_of_mem (hmem _ (List.mem_cons_self ..))
      refine ⟨rfl, ?_⟩
      rcases hborn with ⟨hcash, hsucc⟩ | ⟨hstripe, hpending, hintent⟩
      · exact .cash hp hsucc hcash hsucc
      · obtain ⟨i, hi⟩ := Option.isSome_iff_exists.mp hintent
        exact .gateway hp hi hstripe hpending

theorem Reachable.copies {w : PosWorld} (h : Reachable cfg w) : Copies w.shared.db :=
  h.db_invariant (J := Copies) (fun _ _ _ hk => by cases hk) fun _ _ _ hs hJ hc => hJ.commit hs hc

/-! ## How a replay is decided -/

/-- The state grew, and what it stores are copies. -/
def GrowsCopies (s s' : Shared) : Prop := Grows s s' ∧ Copies s'.db

/-- Reads of a payment by its id. -/
def readsPayment : Query → Bool
  | .payment _ => true
  | _ => false

/-- What a replay answers that read the row of a payment: the payment as it was, with a
secret. -/
def AnswersAsOpened : Query → Shared → Except Err PaymentCreated → Prop
  | .payment id, s, r => ∀ view, r = .ok ⟨.payment view, true⟩ → view.id = id ∧
      view.status = .pending ∧ view.clientAction.isSome ∧ (s.db.payments.get id).isSome
  | _, _, _ => True

/-- What a replay answers that read no row: a payment that has succeeded, without a secret. -/
def AnswersAsPaid (r : Except Err PaymentCreated) (s : Shared) : Prop :=
  ∀ view, r = .ok ⟨.payment view, true⟩ → view.clientAction = none ∧
    ∃ p, s.db.payments.get view.id = some p ∧ p.status = .succeeded ∧ view.status = .succeeded

section decides

variable {f : Query → Bool} {E : Err → Prop} {l : Sess} {s : Shared}

/-- `Decides` for the doors that replay. -/
abbrev Replays (m : Door PaymentCreated) (l : Sess) (s : Shared) : Prop :=
  Decides GrowsCopies readsPayment (fun q _ s r _ _ => AnswersAsOpened q s r) m
    (fun r _ s => AnswersAsPaid r s) l s

theorem Replays.failed {e : Err} : AnswersAsPaid (.error e) s :=
  fun _ h => by cases h

theorem Replays.fresh {body : ResponseBody} : AnswersAsPaid (.ok ⟨body, false⟩) s :=
  fun _ h => by cases h

/-- The stored body is a copy. -/
theorem replays_rehydrate {body : ResponseBody}
    (h : ∀ view, body = .payment view → view.clientAction = none ∧ Copied s.db view) :
    Replays (do let payment ← rehydrate body; pure ⟨payment, true⟩) l s := by
  refine .bind ?_
  cases body with
  | order view => exact .pure (.pure fun _ hv => by cases hv)
  | payment view =>
    obtain ⟨haction, hcopied⟩ := h view rfl
    cases hcopied with
    | cash hp hsucc hprovider hstatus =>
      rw [rehydrate, if_pos (Or.inl (by rw [hprovider]; decide))]
      refine .pure (.pure fun view' hv => ?_)
      cases hv
      exact ⟨haction, _, hp, hsucc, hstatus⟩
    | gateway hp hi hprovider hstatus =>
      rw [rehydrate, if_neg (by rw [hprovider, hstatus]; decide)]
      refine .bind (.read rfl fun s₁ hs₁ => ?_)
      obtain ⟨p', hp', hev⟩ := hs₁.1.payment hp
      have hread : (Query.payment view.id).answer s₁.db = some p' := hp'
      rw [hread]
      simp only [Verdict.next, hev.providerIntentId.trans hi]
      refine .bind (Calm.clientSecretFor.decides fun r l' s' _ _ => ?_)
      cases r with
      | error e => exact fun _ hv => by cases hv
      | ok secret =>
        refine .pure (.pure fun view' hv => ?_)
        cases hv
        exact ⟨rfl, hstatus, rfl, by rw [hp']; rfl⟩

/-- What a key stands for is a copy. -/
theorem copied_of_stored {k : String} {row : IdempotencyKey} {body : ResponseBody}
    (h : Copies s.db) (hrow : s.db.idempotencyKeys.get k = some row)
    (hbody : row.responseBody = some body) :
    ∀ view, body = .payment view → view.clientAction = none ∧ Copied s.db view := by
  rintro view rfl
  exact h k row view hrow hbody

/-- `write` returns a new payment, or replays. -/
theorem replays_write {reservation : Option (String × String)}
    {work : Door (PaymentView × List DomainEvent)} (hwork : Calm readsPayment (fun _ => True) work) :
    Replays (write reservation work) l s := by
  rcases reservation with _ | ⟨k, hash⟩
  · refine .bind (.afterCommit fun s₁ => hwork.decides fun r l' s' _ _ => ?_)
    cases r with
    | error e => exact fun _ _ _ => Replays.failed
    | ok x => exact fun _ _ _ => .pure Replays.fresh
  · have hother : ∀ e, Err.Other e → True := fun _ _ => trivial
    have htransaction : Calm readsPayment (fun _ => True) (writeUnderKey k hash work) :=
      .bind (Calm.keyExpiry.weaken hother) fun _ => .bind (Calm.reserveKey.weaken hother) fun _ =>
        .bind hwork fun _ => .bind (Calm.completeKey.weaken hother) fun _ => .pure _
    refine .tryCatch (.bind (.afterCommit fun s₁ => htransaction.decides fun r l' s' _ _ => ?_))
    intro l₂ s₂ hl₂
    cases r with
    | ok x => exact .pure Replays.fresh
    | error e =>
      change Replays (if isKeyAlreadyReserved e then _ else throw e) l₂ s₂
      split
      · refine .bind (.bind (.select rfl fun s₃ hs₃ => ?_))
        cases hrow : s₃.db.idempotencyKeys.get k with
        | none =>
          simp only [Query.answer, hrow]
          exact .throw Replays.failed
        | some row =>
          simp only [Query.answer, hrow]
          change Decides _ _ _ (if row.requestHash = hash then _ else _) _ _ _
          split
          · cases hbody : row.responseBody with
            | none => exact .throw Replays.failed
            | some body => exact .pure (replays_rehydrate (copied_of_stored hs₃.2 hrow hbody))
          · exact .throw Replays.failed
      · exact .throw Replays.failed

/-- A call may be refused before it writes anything. -/
theorem calm_loadPayableOrder {principal : Principal} {orderId : Id} :
    Calm readsPayment (fun _ => True) (loadPayableOrder principal orderId) := by
  refine .bind (.select rfl) fun answer => ?_
  cases answer with
  | none => exact .throw trivial
  | some order =>
    dsimp only
    split
    · exact .throw trivial
    · split
      · exact .throw trivial
      · split
        · exact .throw trivial
        · refine .bind (.select rfl) fun live => ?_
          cases live with
          | nil => exact .pure _
          | cons p ps => exact .throw trivial

theorem calm_insertPayment {orderId : Id} {row : Payment} :
    Calm readsPayment (fun _ => True) (insertPayment orderId row) := by
  have hinsert : Calm readsPayment (fun _ => True)
      (Door.raising (Door.statement (.insertPayment row))) :=
    .raising .statement fun _ => trivial
  refine .tryCatch hinsert fun e _ => ?_
  split
  · exact .bind (.select rfl) fun _ => .throw trivial
  · exact .throw trivial

theorem replays_pay {principal : Principal} {orderId : Id} {input : CreatePaymentInput}
    {reservation : Option (String × String)} :
    Replays (pay principal orderId input reservation) l s := by
  have hother : ∀ e, Err.Other e → True := fun _ _ => trivial
  refine .bind (calm_loadPayableOrder.decides fun r l₁ s₁ _ _ => ?_)
  cases r with
  | error e => exact Replays.failed
  | ok order =>
    change Replays (if input.method = .cash then _ else _) l₁ s₁
    split
    · unfold takeCash
      split
      · exact .throw Replays.failed
      · split
        · exact .throw Replays.failed
        · split
          · exact .throw Replays.failed
          · exact replays_write (.bind calm_insertPayment fun _ =>
              .bind (Calm.transitionOrder.weaken hother) fun _ => .pure _)
    · refine .bind (Calm.createIntent.decides fun r l₂ s₂ _ _ => ?_)
      cases r with
      | error e => exact Replays.failed
      | ok created => exact replays_write (.bind calm_insertPayment fun _ => .pure _)

/-- How `CreatePaymentService.create` answers a replay. -/
theorem createPayment_replays {principal : Principal} {orderId : Id} {input : CreatePaymentInput}
    {key : Option String} : Replays (createPayment cfg principal orderId input key) l s := by
  cases key with
  | none => exact replays_pay
  | some k =>
    refine .bind (.bind (.select rfl fun s₁ hs₁ => ?_))
    cases hrow : s₁.db.idempotencyKeys.get k with
    | none =>
      simp only [Query.answer, hrow]
      exact .pure replays_pay
    | some row =>
      simp only [Query.answer, hrow]
      refine .pure ?_
      cases hbody : row.responseBody with
      | none => exact replays_pay
      | some body =>
        change Replays (if row.requestHash ≠ _ then _ else _) l s₁
        split
        · exact .throw Replays.failed
        · exact replays_rehydrate (copied_of_stored hs₁.2 hrow hbody)

end decides

/-! ## Truthful replays -/

/-- A run with everything that happened in it. -/
abbrev PosTrail (cfg : Config) (vs : List (PosWorld × PosAct)) (w : PosWorld) : Prop :=
  Trail (system cfg) .all (fun _ _ => False) opening vs w

theorem PosTrail.reachable {vs : List (PosWorld × PosAct)} {w : PosWorld}
    (h : PosTrail cfg vs w) : Reachable cfg w := Trail.runs h

/-- Along a run the state grows, and what it stores are copies. -/
theorem respects_growsCopies :
    Trail.Respects (system cfg) .all (fun _ _ => False) opening GrowsCopies where
  refl h := ⟨.refl _, (PosTrail.reachable h).copies⟩
  trans h₁ h₂ := ⟨h₁.1.trans h₂.1, h₂.2⟩
  act h ha hs := by
    have hw := PosTrail.reachable h
    have hstep := Runs.refl.tail ha hs
    exact ⟨hw.grows hstep, Reachable.copies (hw.trans hstep)⟩
  disturb _ hD := hD.elim

/-- The row of payment `id`, if the operation reads it. -/
def rowRead (id : Id) : Op × Sess × Shared → Option Payment
  | (.query .pool (.payment id'), _, s) => if id' = id then s.db.payments.get id else none
  | _ => none

theorem rowRead_eq_none {id : Id} {x : Op × Sess × Shared}
    (h : reads readsPayment x.1 = false) : rowRead id x = none := by
  rw [rowRead.eq_def]
  split
  · cases h
  · rfl

/-- The rows of payment `id` that call `i` read. -/
def rowsRead (i : ℕ) (id : Id) (vs : List (PosWorld × PosAct)) : List Payment :=
  (operations i vs).filterMap (rowRead id)

/-- The replay tells the truth: it carries a secret only if the row it read was still
`PENDING`, and its status is that of the row. If it read none, it carries no secret, and its
status is that of the row that is there. -/
def TruthfulReplay (i : ℕ) (vs : List (PosWorld × PosAct)) (w : PosWorld) (view : PaymentView) :
    Prop :=
  (∀ p ∈ rowsRead i view.id vs,
    (view.clientAction.isSome → p.status = .pending) ∧ view.status = p.status) ∧
  (rowsRead i view.id vs = [] → view.clientAction = none ∧
    ∃ p, w.shared.db.payments.get view.id = some p ∧ view.status = p.status)

/-- What a replay answered: the payment as it was opened, with a secret, after a read of its
row; or a payment that has succeeded, without a secret, and no row was read. -/
theorem replay_answered {vs : List (PosWorld × PosAct)} {w : PosWorld} {i : ℕ} {t : PosThread}
    {principal : Principal} {orderId : Id} {input : CreatePaymentInput} {key : Option String}
    {view : PaymentView} (h : PosTrail cfg vs w) (ht : w.threads[i]? = some t)
    (hcall : t.call = .createPayment principal orderId input key)
    (ha : t.Answered (.ok (.payment ⟨.payment view, true⟩))) :
    (view.status = .pending ∧ view.clientAction.isSome ∧ rowsRead i view.id vs ≠ []) ∨
      (rowsRead i view.id vs = [] ∧ view.clientAction = none ∧
        ∃ p, w.shared.db.payments.get view.id = some p ∧ view.status = p.status) := by
  have hstart : ∀ s, (program cfg (.createPayment principal orderId input key)).decides machine
      GrowsCopies (reads readsPayment)
      (onRead fun q _ s r _ _ => ∀ created, r = .ok (.payment created) →
        AnswersAsOpened q s (.ok created))
      (fun r _ s => ∀ created, r = .ok (.payment created) → AnswersAsPaid (.ok created) s)
      idle s := by
    intro s
    refine Decides.map ((createPayment_replays (l := idle) (s := s)).mono ?_ ?_)
    · rintro q l₁ s₁ r l₂ s₂ hr created hcreated
      cases r with
      | error e => cases hcreated
      | ok c =>
        cases hcreated
        exact hr
    · rintro r l₂ s₂ hr created hcreated
      cases r with
      | error e => cases hcreated
      | ok c =>
        cases hcreated
        exact hr
  obtain ⟨s, hs, ⟨hnone, hpaid⟩ | ⟨q, l₀, s₀, hmem, hq, hopened⟩⟩ :=
    decided_read respects_growsCopies hstart h ht hcall ha
  · obtain ⟨haction, p, hp, hsucc, hstatus⟩ := hpaid _ rfl view rfl
    obtain ⟨p', hp', hev⟩ := hs.1.payment hp
    refine Or.inr ⟨?_, haction, p', hp', hstatus.trans (hev.succeeded hsucc).symm⟩
    rw [rowsRead, List.filterMap_eq_nil_iff]
    exact fun x hx => rowRead_eq_none (hnone x hx)
  · cases q with
    | payment id =>
      obtain ⟨rfl, hstatus, haction, hrow⟩ := hopened _ rfl view rfl
      obtain ⟨p, hp⟩ := Option.isSome_iff_exists.mp hrow
      refine Or.inl ⟨hstatus, haction, List.ne_nil_of_mem (a := p) ?_⟩
      refine List.mem_filterMap.mpr ⟨_, hmem, ?_⟩
      simp only [rowRead, if_true]
      exact hp
    | _ => cases hq

/-- **A replay is truthful exactly if the row it reads is still `PENDING`.** In every run, for
every call of `CreatePaymentService.create` that was answered by a replay: it carries a client
secret only if the payment's row, as it was read while answering, was `PENDING`, and its status
is that of the row, if and only if every row it read was `PENDING`. -/
theorem replay_truthful_iff (cfg : Config) (vs : List (PosWorld × PosAct)) (w : PosWorld) (i : ℕ)
    (t : PosThread) (principal : Principal) (orderId : Id) (input : CreatePaymentInput)
    (key : Option String) (view : PaymentView) (h : PosTrail cfg vs w)
    (ht : w.threads[i]? = some t) (hcall : t.call = .createPayment principal orderId input key)
    (ha : t.Answered (.ok (.payment ⟨.payment view, true⟩))) :
    TruthfulReplay i vs w view ↔ ∀ p ∈ rowsRead i view.id vs, p.status = .pending := by
  rcases replay_answered h ht hcall ha with ⟨hstatus, haction, hread⟩ | ⟨hnone, htrue⟩
  · constructor
    · intro htruth p hp
      exact (htruth.1 p hp).1 haction
    · intro hpending
      exact ⟨fun p hp => ⟨fun _ => hpending p hp, hstatus.trans (hpending p hp).symm⟩,
        fun hempty => absurd hempty hread⟩
  · constructor
    · intro _ p hp
      rw [hnone] at hp
      cases hp
    · intro _
      refine ⟨fun p hp => ?_, fun _ => htrue⟩
      rw [hnone] at hp
      cases hp

/-! ## A declined card -/

/-- Staff member 7 opens a gateway payment for order 100 under key `k`. -/
def cardUnderKey : Call := .createPayment (.staff 7) 100 ⟨.card, none⟩ (some "k")

/-- Payment 200 is opened under the key (call 1). -/
def openUnderKey : List PosAct := .start cardUnderKey :: steps 1 10 (supply 200 "pi")

/-- The call is repeated (call `i`). -/
def repeatUnderKey (i : ℕ) : List PosAct := .start cardUnderKey :: steps i 3 (supply 0 "")

/-- The card is declined: the gateway says so, and payment 200 is `FAILED` (calls 2 and 3). -/
def declineCard : List PosAct :=
  .world (.decline "pi" "ev1") :: deliver 2 (eventAboutPi "ev1" "payment_intent.payment_failed")
    300 9

/-- Call `i` replayed payment 200 as `PENDING`, with its secret, and the row it read was in
`status`. -/
def HasReplayed (i : ℕ) (status : PaymentStatus) (vs : List (PosWorld × PosAct)) (w : PosWorld) :
    Prop :=
  ((w.threads[i]?).any fun t => t.call.pays 100 ⟨.card, none⟩ (some "k") && decide (t.Answered (.ok (.payment
    ⟨.payment ⟨200, .pending, none, 9000, "THB", .stripe, some ⟨"pi"⟩⟩, true⟩)))) = true ∧
  (rowsRead i 200 vs).map Payment.status = [status]

instance (i : ℕ) (status : PaymentStatus) (vs : List (PosWorld × PosAct)) (w : PosWorld) :
    Decidable (HasReplayed i status vs w) := inferInstanceAs (Decidable (_ ∧ _))

/-- The view of that replay. -/
abbrev replayedView : PaymentView := ⟨200, .pending, none, 9000, "THB", .stripe, some ⟨"pi"⟩⟩

theorem HasReplayed.facts {i : ℕ} {status : PaymentStatus} {vs : List (PosWorld × PosAct)}
    {w : PosWorld} (h : HasReplayed i status vs w) :
    (∃ t, w.threads[i]? = some t ∧ t.call = cardUnderKey ∧
      t.Answered (.ok (.payment ⟨.payment replayedView, true⟩))) ∧
    ∃ p, rowsRead i 200 vs = [p] ∧ p.status = status := by
  obtain ⟨hany, hrows⟩ := h
  simp only [Option.any_eq_true, Bool.and_eq_true, decide_eq_true_eq] at hany
  obtain ⟨t, ht, hcall, ha⟩ := hany
  refine ⟨⟨t, ht, Call.pays_iff.mp hcall, ha⟩, ?_⟩
  obtain ⟨p, hp, hstatus⟩ := List.map_eq_singleton_iff.mp hrows
  exact ⟨p, hp, hstatus⟩

/-- A sequence of actions from the opening, evaluated with everything that happened. -/
theorem PosTrail.exists_of_acts (cfg : Config) (acts : List PosAct)
    (p : List (PosWorld × PosAct) → PosWorld → Prop) [∀ vs w, Decidable (p vs w)]
    (h : (opening.trailIf (system cfg) (fun _ _ => true) acts).any (fun x => decide (p x.1 x.2)) = true) :
    ∃ vs w, PosTrail cfg vs w ∧ p vs w := by
  obtain ⟨⟨vs, w⟩, hrun, hp⟩ := (Option.any_eq_true _ _).mp h
  exact ⟨vs, w, Trail.of_trailIf (fun w a _ => Runs.allows_all w a) .refl hrun,
    of_decide_eq_true hp⟩

theorem replay_truthful_at_once : ∃ vs w, PosTrail cornerCafe vs w ∧
    TruthfulReplay 2 vs w replayedView := by
  obtain ⟨vs, w, h, hreplayed⟩ := PosTrail.exists_of_acts cornerCafe
    (takeOrder ++ openUnderKey ++ repeatUnderKey 2) (HasReplayed 2 .pending) (by decide)
  obtain ⟨⟨t, ht, hcall, ha⟩, p, hrows, hstatus⟩ := hreplayed.facts
  refine ⟨vs, w, h, (replay_truthful_iff cornerCafe vs w 2 t _ _ _ _ _ h ht hcall ha).mpr ?_⟩
  intro q hq
  rw [hrows, List.mem_singleton] at hq
  rw [hq, hstatus]

/-- The card was declined and the payment has failed when the call is repeated: the replay says
`PENDING`, and hands out the secret. -/
theorem failed_payment_replayed : ¬ ∀ (vs : List (PosWorld × PosAct)) (w : PosWorld) (i : ℕ)
    (t : PosThread) (principal : Principal) (orderId : Id) (input : CreatePaymentInput)
    (key : Option String) (view : PaymentView), PosTrail cornerCafe vs w →
    w.threads[i]? = some t → t.call = .createPayment principal orderId input key →
    t.Answered (.ok (.payment ⟨.payment view, true⟩)) → TruthfulReplay i vs w view := by
  intro hclaim
  obtain ⟨vs, w, h, hreplayed⟩ := PosTrail.exists_of_acts cornerCafe
    (takeOrder ++ openUnderKey ++ declineCard ++ repeatUnderKey 4) (HasReplayed 4 .failed)
    (by decide)
  obtain ⟨⟨t, ht, hcall, ha⟩, p, hrows, hstatus⟩ := hreplayed.facts
  have htruth := hclaim vs w 4 t _ _ _ _ _ h ht hcall ha
  have hmem : p ∈ rowsRead 4 200 vs := by
    rw [hrows]
    exact List.mem_singleton.mpr rfl
  have hpending := (htruth.1 p hmem).1 rfl
  rw [hstatus] at hpending
  cases hpending

end CafePos
