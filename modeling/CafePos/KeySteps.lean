import CafePos.PaymentSteps

/-!
# What a commit does to the idempotency keys

A call that carries a key commits nothing but one log: the key is reserved, the work is done,
the key is completed. A call that carries none writes no key. `KeyStep` says so, and from it
follows what is true of the stored keys in every reachable state: each is completed, and what
it stands for is an order, or a payment without its client secret.
-/

namespace CafePos

open Interleaving

variable {cfg : Config}

/-- The idempotency key a call carries. -/
def Call.key : Call → Option String
  | .createOrder _ _ key => key
  | .createPayment _ _ _ key => key
  | _ => none

/-- What a call does under its key, and the answer it leaves there. -/
inductive AnswersKey (cfg : Config) : Call → String → String → ResponseBody → List Write → Prop
  /-- an order, with everything it consists of -/
  | order {principal : Principal} {input : CreateOrderInput} {k : String} {id : Id} {row : Order}
      {priced : PricedOrder} {n : ℕ} :
      AnswersKey cfg (.createOrder principal input (some k)) k (orderHash cfg principal input)
        (.order (toView id row priced)) (createWrites principal input priced id row n)
  /-- a payment; in cash it moves the order too -/
  | payment {principal : Principal} {orderId : Id} {input : CreatePaymentInput} {k : String}
      {id : Id} {p : Payment} {ws : List Write} : p.orderId = orderId →
      p.idempotencyKey = some k →
      AnswersKey cfg (.createPayment principal orderId input (some k)) k
        (paymentHash cfg principal orderId input) (.payment (paymentView id p none))
        (.payment id p :: ws)

/-- What a log does to the keys of the state it is committed in. -/
inductive KeyStep (cfg : Config) (c : Call) (s : Shared) : List Write → Prop
  /-- nothing: the call carries no key -/
  | stays {ws : List Write} : c.key = none → (∀ w ∈ ws, ∀ k row, w ≠ .key k row) →
      KeyStep cfg c s ws
  /-- the call's key, which was free, gets its answer -/
  | answers {k hash : String} {expiry : Instant} {body : ResponseBody} {ws : List Write} :
      c.key = some k → s.db.idempotencyKeys.get k = none →
      (∀ w ∈ ws, ∀ k row, w ≠ .key k row) → AnswersKey cfg c k hash body ws →
      KeyStep cfg c s (underKey (some (k, hash)) expiry body ws)

/-- Every log does one of these. -/
theorem Commits.keyStep {P : PosPermit} {c : Call} {s : Shared} {ws : List Write}
    (h : Commits cfg P c s ws) : KeyStep cfg c s ws := by
  have hmove : ∀ {r : TransitionRequest} {row : Order}, ∀ w ∈ moveWrites r row,
      ∀ k row, w ≠ .key k row := forall_moveWrites (fun _ _ => nofun) (fun _ _ => nofun)
  cases h with
  | @create _ principal input key _ _ priced _ expiry id n row hkey hpriced hn hrow hfree =>
    cases key with
    | none => exact .stays rfl createWrites_not_key
    | some k => exact .answers rfl (hkey _ rfl) createWrites_not_key .order
  | checkout => exact .stays rfl (List.forall_mem_append.mpr ⟨hmove, by simp⟩)
  | @cash _ userId orderId id tendered input key row expiry p hm ht hle hkey hrow hst hp =>
    have hws : ∀ r : TransitionRequest, ∀ w ∈ .payment id p :: moveWrites r row,
        ∀ k row, w ≠ .key k row :=
      fun r => List.forall_mem_cons.mpr ⟨fun _ _ => nofun, hmove⟩
    cases key with
    | none => exact .stays rfl (hws _)
    | some k =>
      refine .answers rfl (hkey _ rfl) (hws _) (.payment ?_ ?_) <;> rw [hp] <;> rfl
  | @openPayment _ principal orderId id i input key row expiry p hm hkey hrow hmine hp =>
    have hws : ∀ w ∈ [Write.payment id p], ∀ k row, w ≠ .key k row := by simp
    cases key with
    | none => exact .stays rfl hws
    | some k =>
      refine .answers rfl (hkey _ rfl) hws (.payment ?_ ?_) <;> rw [hp] <;> rfl
  | record => exact .stays rfl (by simp)
  | skip => exact .stays rfl (forall_stampWrites fun _ _ _ => nofun)
  | markPayment =>
    exact .stays rfl (List.forall_mem_append.mpr
      ⟨forall_settleWrites fun _ _ => nofun, forall_stampWrites fun _ _ _ => nofun⟩)
  | markPaid =>
    exact .stays rfl (List.forall_mem_append.mpr ⟨hmove, List.forall_mem_append.mpr
      ⟨forall_settleWrites fun _ _ => nofun, forall_stampWrites fun _ _ _ => nofun⟩⟩)
  | close hcloses =>
    refine .stays ?_ (List.forall_mem_append.mpr
      ⟨hmove, forall_liveWrites fun _ _ _ _ => nofun⟩)
    cases hcloses with
    | cancel => rfl
    | expire => rfl
  | staff => exact .stays rfl hmove
  | refundPart => exact .stays rfl (by simp)
  | refundAll => exact .stays rfl (List.forall_mem_cons.mpr ⟨fun _ _ => nofun, hmove⟩)

/-- A key after a log: what it was, or the answer of the call that committed it. -/
theorem KeyStep.get {c : Call} {s : Shared} {ws : List Write} (h : KeyStep cfg c s ws)
    {k : String} {row : IdempotencyKey}
    (hrow : (store.applyAll ws s.db).idempotencyKeys.get k = some row) :
    s.db.idempotencyKeys.get k = some row ∨
      c.key = some k ∧ s.db.idempotencyKeys.get k = none ∧ ∃ hash body ws',
        AnswersKey cfg c k hash body ws' ∧ row.requestHash = hash ∧
        row.responseBody = some body ∧ ∀ w ∈ ws', w ∈ ws := by
  cases h with
  | stays _ hws =>
    rw [applyAll_idempotencyKeys hws] at hrow
    exact Or.inl hrow
  | @answers k' hash expiry body ws' hkey hfree hws hans =>
    rw [applyAll_underKey hws] at hrow
    simp only [keysAfter, Table.get_put] at hrow
    split at hrow
    · rename_i hk
      subst hk
      obtain rfl := Option.some.inj hrow
      exact Or.inr ⟨hkey, hfree, hash, body, ws', hans, rfl, rfl, fun w hw =>
        List.mem_cons_of_mem _ (List.mem_append_left _ hw)⟩
    · exact Or.inl hrow

/-- Every stored key is completed, and stands for an order or for a payment without its
client secret, which is stored under the key. -/
structure KeysAnswered (db : Db) : Prop where
  completed : ∀ k row, db.idempotencyKeys.get k = some row → ∃ body, row.responseBody = some body
  payment : ∀ k row view, db.idempotencyKeys.get k = some row →
    row.responseBody = some (.payment view) → view.clientAction = none ∧
      ∃ p, db.payments.get view.id = some p ∧ p.idempotencyKey = some k

theorem KeysAnswered.commit {P : PosPermit} {c : Call} {s : Shared} {ws : List Write}
    (h : KeysAnswered s.db) (hs : Settled s.db) (hc : Commits cfg P c s ws) :
    KeysAnswered (store.applyAll ws s.db) := by
  have hg := hc.grows hs
  refine ⟨fun k row hrow => ?_, fun k row view hrow hbody => ?_⟩
  · rcases hc.keyStep.get hrow with hold | ⟨-, -, hash, body, -, -, -, hbody, -⟩
    · exact h.completed k row hold
    · exact ⟨body, hbody⟩
  · rcases hc.keyStep.get hrow with hold | ⟨-, -, hash, body, ws', hans, -, hbody', hmem⟩
    · obtain ⟨haction, p, hp, hkey⟩ := h.payment k row view hold hbody
      obtain ⟨p', hp', hev⟩ := hg.payments _ p hp
      exact ⟨haction, p', hp', hev.idempotencyKey.trans hkey⟩
    · obtain rfl := Option.some.inj (hbody'.symm.trans hbody)
      cases hans with
      | @payment principal orderId input _ id p ws'' hpo hkey =>
        exact ⟨rfl, p, (hc.paymentStep hs).get_of_mem (hmem _ (List.mem_cons_self ..)), hkey⟩

theorem Reachable.keysAnswered {w : PosWorld} (h : Reachable cfg w) : KeysAnswered w.shared.db :=
  h.db_invariant ⟨fun _ _ hk => (by cases hk), fun _ _ _ hk => (by cases hk)⟩
    fun _ _ _ hs hJ hc => hJ.commit hs hc

end CafePos
