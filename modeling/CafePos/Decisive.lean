import CafePos.Interleaving.Trail
import CafePos.Soundness
import Mathlib

/-!
# The read that decided an answer

Two questions about `CreatePaymentService.create` are about what it saw while it was answering:
in which state was the row that a replay read, and which payment was live when the call said
that one was. `Decides G f ψ m Φ l s`: of the reads through the pool that `f` picks, the last one
decides how the door `m` ends, within `ψ q l s` if it was the query `q` with session `l` in state
`s`, and within `Φ` if there was none; between two operations the state moves along `G`. There is
one rule for each way a door is built; `Calm f E m` is for the doors that make no such read, leave
the session in or out of its transaction, and throw within `E` only.
-/

namespace CafePos

open Interleaving

/-- How a door may end. -/
abbrev Verdict (α : Type) : Type := Except Err α → Sess → Shared → Prop

/-- The reads through the pool that `f` picks. -/
def reads (f : Query → Bool) : Op → Bool
  | .query .pool q => f q
  | _ => false

theorem reads_eq_true {f : Query → Bool} {o : Op} (h : reads f o = true) :
    ∃ q, o = .query .pool q ∧ f q = true := by
  cases o with
  | query conn q =>
    cases conn with
    | pool => exact ⟨q, rfl, h⟩
    | tx => cases h
  | _ => cases h

/-- What a read through the pool leaves a door. -/
def onRead {α : Type} (ψ : Query → Sess → Shared → Verdict α) : Op → Sess → Shared → Verdict α
  | .query .pool q => ψ q
  | _ => fun _ _ _ _ _ => True

/-- The last read that `f` picks decides how the door ends. -/
def Decides {α : Type} (G : Shared → Shared → Prop) (f : Query → Bool)
    (ψ : Query → Sess → Shared → Verdict α) (m : Door α) (Φ : Verdict α) (l : Sess)
    (s : Shared) : Prop :=
  m.run.decides machine G (reads f) (onRead ψ) Φ l s

/-- The door goes on with `k`. -/
def Verdict.next {α β : Type} (G : Shared → Shared → Prop) (f : Query → Bool)
    (ψ : Query → Sess → Shared → Verdict α) (k : β → Door α) (Φ : Verdict α) : Verdict β
  | .ok b, l, s => Decides G f ψ (k b) Φ l s
  | .error e, l, s => Φ (.error e) l s

/-- What was thrown is handled. -/
def Verdict.handled {α : Type} (G : Shared → Shared → Prop) (f : Query → Bool)
    (ψ : Query → Sess → Shared → Verdict α) (handle : Err → Door α) (Φ : Verdict α) : Verdict α
  | .ok a, l, s => Φ (.ok a) l s
  | .error e, l, s => Decides G f ψ (handle e) Φ l s

/-- The transaction is over, and so is the door. -/
def Verdict.ended {α : Type} (Φ : Verdict α) : Verdict α :=
  fun r _ _ => ∀ l' s', l'.active = false → Φ r l' s'

/-- The same, for work that says what to announce. -/
def Verdict.announced {α : Type} (Φ : Verdict α) : Verdict (α × List DomainEvent) :=
  fun r _ _ => ∀ l' s', l'.active = false → Φ (r.map Prod.fst) l' s'

/-- How a transaction ends: it commits what was done, or rolls it back and rethrows. -/
def closing {α : Type} : Except Err α → Prog Op Op.Res (Except Err α)
  | .ok a => do
    Prog.perform Op.commit
    pure (.ok a)
  | .error e => do
    Prog.perform Op.rollback
    pure (.error e)

namespace Decides

variable {α β : Type} {G : Shared → Shared → Prop} {f : Query → Bool}
  {ψ : Query → Sess → Shared → Verdict α} {Φ : Verdict α} {l : Sess} {s : Shared}

theorem pure {a : α} (h : Φ (.ok a) l s) : Decides G f ψ (Pure.pure a) Φ l s := h

theorem throw {e : Err} (h : Φ (.error e) l s) :
    Decides G f ψ (MonadExcept.throw e : Door α) Φ l s := h

/-- A door that ends within less ends within more. -/
theorem mono {ψ' : Query → Sess → Shared → Verdict α} {Φ' : Verdict α} {m : Door α}
    (h : Decides G f ψ' m Φ' l s) (hψ : ∀ q l s r l' s', ψ' q l s r l' s' → ψ q l s r l' s')
    (hΦ : ∀ r l s, Φ' r l s → Φ r l s) : Decides G f ψ m Φ l s := by
  refine Prog.decides_mono (fun o l s r l' s' ho hr => ?_) hΦ h
  obtain ⟨q, rfl, -⟩ := reads_eq_true ho
  exact hψ q l s r l' s' hr

theorem bind {m : Door β} {k : β → Door α}
    (h : Decides G f (fun q l s => .next G f ψ k (ψ q l s)) m (.next G f ψ k Φ) l s) :
    Decides G f ψ (m >>= k) Φ l s := by
  refine Prog.decides_bind
    (Prog.decides_mono (fun o l s r l' s' ho hr => ?_) (fun r l' s' hr => ?_) h)
  · obtain ⟨q, rfl, -⟩ := reads_eq_true ho
    cases r with
    | ok b => exact hr
    | error e => exact hr
  · cases r with
    | ok b => exact hr
    | error e => exact hr

theorem map {m : Door β} {g : β → α}
    (h : Decides G f (fun q l s r => ψ q l s (r.map g)) m (fun r => Φ (r.map g)) l s) :
    Decides G f ψ (g <$> m) Φ l s := by
  refine Prog.decides_bind
    (Prog.decides_mono (fun o l s r l' s' ho hr => ?_) (fun r l' s' hr => ?_) h)
  · obtain ⟨q, rfl, -⟩ := reads_eq_true ho
    cases r with
    | ok b => exact hr
    | error e => exact hr
  · cases r with
    | ok b => exact hr
    | error e => exact hr

theorem tryCatch {m : Door α} {handle : Err → Door α}
    (h : Decides G f (fun q l s => .handled G f ψ handle (ψ q l s)) m
      (.handled G f ψ handle Φ) l s) :
    Decides G f ψ (MonadExcept.tryCatch m handle) Φ l s := by
  refine Prog.decides_bind
    (Prog.decides_mono (fun o l s r l' s' ho hr => ?_) (fun r l' s' hr => ?_) h)
  · obtain ⟨q, rfl, -⟩ := reads_eq_true ho
    cases r with
    | ok b => exact hr
    | error e => exact hr
  · cases r with
    | ok b => exact hr
    | error e => exact hr

/-! ## Operations -/

/-- A read that decides. -/
theorem read {q : Query} {ψ : Query → Sess → Shared → Verdict q.Answer} {Φ : Verdict q.Answer}
    (hq : f q = true) (h : ∀ s₁, G s s₁ → ψ q l s₁ (.ok (q.answer s₁.db)) l s₁) :
    Decides G f ψ (Door.select q) Φ l s := by
  intro inp locked s₁ r l' s' hG hx
  obtain ⟨rfl, rfl, rfl⟩ := Option.some.inj hx |> Prod.mk.inj |>.imp_right Prod.mk.inj
  have hread : reads f (.query .pool q) = true := hq
  rw [hread]
  exact h s₁ hG

/-- An operation that decides nothing. -/
theorem perform {o : Op} {ψ : Query → Sess → Shared → Verdict o.Res} {Φ : Verdict o.Res}
    (ho : reads f o = false) (h : ∀ inp locked s₁ r l' s', G s s₁ →
      exec inp locked l s₁ o = some (r, l', s') → Φ (.ok r) l' s') :
    Decides G f ψ (Door.perform o) Φ l s := by
  intro inp locked s₁ r l' s' hG hx
  rw [ho]
  exact h inp locked s₁ r l' s' hG hx

theorem select {q : Query} {ψ : Query → Sess → Shared → Verdict q.Answer} {Φ : Verdict q.Answer}
    (hq : f q = false) (h : ∀ s₁, G s s₁ → Φ (.ok (q.answer s₁.db)) l s₁) :
    Decides G f ψ (Door.select q) Φ l s := by
  refine perform hq fun inp locked s₁ r l' s' hG hx => ?_
  obtain ⟨rfl, rfl, rfl⟩ := Option.some.inj hx |> Prod.mk.inj |>.imp_right Prod.mk.inj
  exact h s₁ hG

/-- `db.transaction(work)`. -/
theorem transaction {work : Door α}
    (h : ∀ s, Decides G f (fun q l s => .ended (ψ q l s)) work (.ended Φ) l.begin s) :
    Decides G f ψ (Door.transaction work) Φ l s := by
  -- the last operation commits or rolls back
  have hend : ∀ {Φ : Verdict α} {r : Except Err α} {l : Sess} {s : Shared}, Φ.ended r l s →
      (closing r).decides machine G (reads f) (onRead ψ) Φ l s := by
    intro Φ r l s hr
    cases r with
    | ok a =>
      intro inp locked s₁ u l' s' _ hx
      obtain ⟨-, rfl, -⟩ := Option.some.inj hx |> Prod.mk.inj |>.imp_right Prod.mk.inj
      exact hr _ _ rfl
    | error e =>
      intro inp locked s₁ u l' s' _ hx
      obtain ⟨-, rfl, -⟩ := Option.some.inj hx |> Prod.mk.inj |>.imp_right Prod.mk.inj
      exact hr _ _ rfl
  intro inp locked s₁ u l' s' _ hx
  obtain ⟨-, rfl, -⟩ := Option.some.inj hx |> Prod.mk.inj |>.imp_right Prod.mk.inj
  have hwork : (work.run >>= closing).decides machine G (reads f) (onRead ψ) Φ l.begin s' := by
    refine Prog.decides_bind
      (Prog.decides_mono (fun o l s r l' s' ho hr => ?_) (fun r l' s' hr => ?_) (h s'))
    · obtain ⟨q, rfl, -⟩ := reads_eq_true ho
      exact hend hr
    · exact hend hr
  exact hwork

/-- `AfterCommit.run(work)`. -/
theorem afterCommit {work : Door (α × List DomainEvent)}
    (h : ∀ s, Decides G f (fun q l s => .announced (ψ q l s)) work (.announced Φ) l.begin s) :
    Decides G f ψ (Door.afterCommit work) Φ l s := by
  -- publishing changes nothing
  have hpublish : ∀ {Φ : Verdict α} {r : Except Err (α × List DomainEvent)} {l : Sess}
      {s : Shared}, Φ.announced r l s →
      Verdict.ended (.next G f ψ (fun x : α × List DomainEvent =>
        if x.2.isEmpty then Pure.pure x.1 else do
          Door.perform (.publish x.2)
          Pure.pure x.1) Φ) r l s := by
    intro Φ r l s hr l' s' hl'
    cases r with
    | error e => exact hr l' s' hl'
    | ok x =>
      change Decides G f ψ (if x.2.isEmpty then Pure.pure x.1 else _) Φ l' s'
      split
      · exact pure (hr l' s' hl')
      · refine bind (perform rfl fun inp locked s₁ u l'' s'' _ hx => ?_)
        obtain ⟨-, rfl, -⟩ := Option.some.inj hx |> Prod.mk.inj |>.imp_right Prod.mk.inj
        exact pure (hr _ _ hl')
  exact bind (transaction fun s₁ => mono (h s₁) (fun q l s r l' s' hr => hpublish hr)
    fun r l' s' hr => hpublish hr)

end Decides

/-! ## Doors that make no such read -/

/-- The door makes no read that `f` picks, ends in the transaction it began in, or in none, and
throws within `E`. -/
def Calm {α : Type} (f : Query → Bool) (E : Err → Prop) (m : Door α) : Prop :=
  ∀ G l s, Decides G f (fun _ _ _ _ _ _ => False) m
    (fun r l' _ => l'.active = l.active ∧ ∀ e, r = .error e → E e) l s

namespace Calm

variable {α β : Type} {f : Query → Bool} {E : Err → Prop} {m : Door α}

theorem decides (h : Calm f E m) {G : Shared → Shared → Prop}
    {ψ : Query → Sess → Shared → Verdict α} {Φ : Verdict α} {l : Sess} {s : Shared}
    (hΦ : ∀ r l' s', l'.active = l.active → (∀ e, r = .error e → E e) → Φ r l' s') :
    Decides G f ψ m Φ l s :=
  (h G l s).mono (fun _ _ _ _ _ _ hf => hf.elim) fun r l' s' hr => hΦ r l' s' hr.1 hr.2

theorem weaken {E' : Err → Prop} (h : Calm f E m) (hE : ∀ e, E e → E' e) : Calm f E' m :=
  fun _ _ _ => h.decides fun _ _ _ hl hr => ⟨hl, fun e he => hE e (hr e he)⟩

theorem pure (a : α) : Calm f E (Pure.pure a : Door α) :=
  fun _ _ _ => ⟨rfl, fun _ he => by cases he⟩

theorem throw {e : Err} (he : E e) : Calm f E (MonadExcept.throw e : Door α) := by
  refine fun _ l s => ⟨rfl, fun e' he' => ?_⟩
  obtain rfl := Except.error.inj he'
  exact he

theorem bind {m : Door β} {k : β → Door α} (h : Calm f E m) (hk : ∀ b, Calm f E (k b)) :
    Calm f E (m >>= k) := by
  intro G l s
  refine .bind (h.decides fun r l' s' hl' hr => ?_)
  cases r with
  | ok b => exact (hk b).decides fun r l'' s'' hl'' hr'' => ⟨hl''.trans hl', hr''⟩
  | error e =>
    refine ⟨hl', fun e' he' => ?_⟩
    obtain rfl := Except.error.inj he'
    exact hr e rfl

theorem tryCatch {E' : Err → Prop} {handle : Err → Door α} (h : Calm f E' m)
    (hh : ∀ e, E' e → Calm f E (handle e)) : Calm f E (MonadExcept.tryCatch m handle) := by
  intro G l s
  refine .tryCatch (h.decides fun r l' s' hl' hr => ?_)
  cases r with
  | ok a => exact ⟨hl', fun _ he => by cases he⟩
  | error e =>
    exact (hh e (hr e rfl)).decides fun r l'' s'' hl'' hr'' => ⟨hl''.trans hl', hr''⟩

/-- An operation that leaves the transaction alone. -/
theorem perform {o : Op} (ho : reads f o = false)
    (h : ∀ inp locked l s r l' s', exec inp locked l s o = some (r, l', s') →
      l'.active = l.active) : Calm f E (Door.perform o) :=
  fun _ l _ => .perform ho fun inp locked s₁ r l' s' _ hx =>
    ⟨h inp locked l s₁ r l' s' hx, fun _ he => by cases he⟩

theorem select {q : Query} (hq : f q = false) : Calm f E (Door.select q) := by
  refine perform hq fun inp locked l s r l' s' hx => ?_
  obtain ⟨-, rfl, -⟩ := Option.some.inj hx |> Prod.mk.inj |>.imp_right Prod.mk.inj
  rfl

theorem selectTx {q : Query} : Calm f E (Door.selectTx q) := by
  refine perform rfl fun inp locked l s r l' s' hx => ?_
  obtain ⟨-, rfl, -⟩ := Option.some.inj hx |> Prod.mk.inj |>.imp_right Prod.mk.inj
  rfl

theorem now : Calm f E (Door.perform .now) := by
  refine perform rfl fun inp locked l s r l' s' hx => ?_
  obtain ⟨-, rfl, -⟩ := Option.some.inj hx |> Prod.mk.inj |>.imp_right Prod.mk.inj
  rfl

theorem stripeRetrieve {i : String} : Calm f E (Door.perform (.stripeRetrieve i)) := by
  refine perform rfl fun inp locked l s r l' s' hx => ?_
  obtain ⟨-, rfl, -⟩ := Option.some.inj hx |> Prod.mk.inj |>.imp_right Prod.mk.inj
  rfl

theorem stripeCreate {request : CreateIntentRequest} :
    Calm f E (Door.perform (.stripeCreate request)) := by
  refine perform rfl fun inp locked l s r l' s' hx => ?_
  obtain ⟨x, -, hx'⟩ := Option.map_eq_some_iff.mp hx
  obtain ⟨-, rfl, -⟩ := Prod.mk.inj hx' |>.imp_right Prod.mk.inj
  rfl

/-- A statement runs in the transaction, or outside one. -/
theorem statement {st : Statement} : Calm f E (Door.statement st) := by
  refine perform rfl fun inp locked l s r l' s' hx => ?_
  simp only [exec] at hx
  split at hx
  · obtain ⟨x, hexec, hx'⟩ := Option.map_eq_some_iff.mp hx
    obtain ⟨-, rfl, -⟩ := Prod.mk.inj hx' |>.imp_right Prod.mk.inj
    obtain ⟨-, ⟨hactive, hl', -⟩ | ⟨hidle, -, hl', -⟩ | ⟨hidle, -, hl', -⟩⟩ :=
      Session.execute_cases hexec
    · rw [hl', hactive]
      rfl
    · rw [hl']
    · rw [hl', hidle]
      rfl
  · cases hx

/-- A statement's SQLSTATE is thrown. -/
theorem raising {m : Door (Except SqlState α)} (h : Calm f E m) (hE : ∀ state, E (.sql state)) :
    Calm f E (Door.raising m) := by
  refine bind h fun r => ?_
  cases r with
  | ok a => exact pure a
  | error state => exact throw (hE state)

end Calm

/-! ## The doors of a payment -/

/-- The error says that a payment is live. -/
def Err.saysActive : Err → Bool
  | .paymentAlreadyActive _ => true
  | _ => false

/-- The error says no such thing. -/
def Err.Other (e : Err) : Prop := e.saysActive = false

namespace Calm

variable {f : Query → Bool} {k : String}

theorem keyExpiry : Calm f Err.Other CafePos.keyExpiry := bind now fun _ => pure _

theorem reserveKey {hash : String} {expiresAt : Instant} :
    Calm f Err.Other (CafePos.reserveKey k hash expiresAt) := by
  have hinsert : Calm f Err.Other
      (Door.raising (Door.statement (.insertKey k hash expiresAt))) :=
    raising statement fun _ => rfl
  refine tryCatch hinsert fun e he => ?_
  split
  · exact throw rfl
  · exact throw he

theorem completeKey {status : ℕ} {body : ResponseBody} :
    Calm f Err.Other (CafePos.completeKey k status body) := statement

theorem completedResponseFor (hf : f (.key k) = false) :
    Calm f Err.Other (CafePos.completedResponseFor k) := by
  refine bind (select hf) fun r => ?_
  cases r with
  | none => exact pure _
  | some row => exact pure _

theorem replayKey {hash : String} (hf : f (.key k) = false) :
    Calm f Err.Other (CafePos.replayKey k hash) := by
  refine bind (select hf) fun r => ?_
  cases r with
  | none => exact throw rfl
  | some row =>
    dsimp only
    split
    · split
      · exact throw rfl
      · exact pure _
    · exact throw rfl

theorem createIntent {request : CreateIntentRequest} :
    Calm f Err.Other (CafePos.createIntent request) := by
  refine bind stripeCreate fun r => ?_
  cases r with
  | ok created => exact pure _
  | error e =>
    cases e with
    | unreachable => exact throw rfl
    | invalidRequest => exact throw rfl

theorem clientSecretFor {i : String} : Calm f Err.Other (CafePos.clientSecretFor i) := by
  refine bind stripeRetrieve fun r => ?_
  cases r with
  | ok intent => exact pure _
  | error e =>
    cases e with
    | unreachable => exact throw rfl
    | invalidRequest => exact throw rfl

theorem transitionOrder {r : TransitionRequest} :
    Calm f Err.Other (CafePos.transitionOrder r) := by
  refine bind statement fun updated => ?_
  cases updated with
  | some row => exact bind statement fun _ => pure _
  | none =>
    -- why the move failed is read again, and thrown
    intro G l s
    refine .bind (.bind (selectTx (E := Err.Other).decides fun answer l₁ s₁ hl₁ hthrown => ?_))
    cases answer with
    | error e =>
      refine ⟨hl₁, fun e' he' => ?_⟩
      obtain rfl := Except.error.inj he'
      exact hthrown e rfl
    | ok current =>
      cases current with
      | none =>
        refine ⟨hl₁, fun e he => ?_⟩
        obtain rfl := Except.error.inj he
        rfl
      | some row =>
        refine ⟨hl₁, fun e he => ?_⟩
        obtain rfl := Except.error.inj he
        rfl

end Calm

/-- The transaction of `write`, under a key. -/
def writeUnderKey (k hash : String) (work : Door (PaymentView × List DomainEvent)) :
    Door (PaymentView × List DomainEvent) := do
  reserveKey k hash (← keyExpiry)
  let (view, events) ← work
  completeKey k 201 (.payment { view with clientAction := none })
  pure (view, events)

/-! ## Along a trail -/

/-- An answered call made no read that `f` picks, or one that it made decided its answer. -/
theorem decided_read {cfg : Config} {P : PosPermit} {D G : Shared → Shared → Prop}
    {f : Query → Bool} {c : Call} {ψ : Query → Sess → Shared → Verdict Reply} {Φ : Verdict Reply}
    {vs : List (PosWorld × PosAct)} {w : PosWorld} {i : ℕ} {t : PosThread} {a : Answer}
    (hG : Trail.Respects (system cfg) P D opening G)
    (hstart : ∀ s, (program cfg c).decides machine G (reads f) (onRead ψ) Φ idle s)
    (h : Trail (system cfg) P D opening vs w) (ht : w.threads[i]? = some t) (hc : t.call = c)
    (ha : t.Answered a) :
    ∃ s, G s w.shared ∧ (((∀ x ∈ operations i vs, reads f x.1 = false) ∧ Φ a t.session s) ∨
      ∃ q l₀ s₀, (.query .pool q, l₀, s₀) ∈ operations i vs ∧ f q = true ∧
        ψ q l₀ s₀ a t.session s) := by
  obtain ⟨s, hs, hnone | ⟨o, l₀, s₀, hmem, hread, hψ⟩⟩ :=
    Trail.decided (M := system cfg) hG hstart h rfl ht hc ha
  · exact ⟨s, hs, Or.inl hnone⟩
  · obtain ⟨q, rfl, hq⟩ := reads_eq_true hread
    exact ⟨s, hs, Or.inr ⟨q, l₀, s₀, hmem, hq, hψ⟩⟩

/-- The call is one of `CreatePaymentService.create`, of staff member 7. -/
def Call.pays (c : Call) (orderId : Id) (input : CreatePaymentInput) (key : Option String) :
    Bool :=
  match c with
  | .createPayment principal orderId' input' key' => decide (principal = .staff 7 ∧
      orderId' = orderId ∧ input' = input ∧ key' = key)
  | _ => false

theorem Call.pays_iff {orderId : Id} {input : CreatePaymentInput} {key : Option String}
    {c : Call} : c.pays orderId input key ↔ c = .createPayment (.staff 7) orderId input key := by
  cases c with
  | createPayment => simp [pays]
  | _ => simp [pays]

end CafePos
