import CafePos.LockOrder

/-!
# No deadlock

Every door climbs inside its transactions and holds nothing between them (`unlocked_program`). So in
no world of any run do calls wait for each other in a circle (`some_call_goes_on`), and every
scheduler that keeps the calls going answers them all (`calls_are_answered`).
-/

namespace CafePos

open Interleaving

variable {cfg : Config}

/-! ## Doors that only look -/

theorem looks_keyExpiry : Looks keyExpiry := .bind (.perform rfl) fun _ => .pure _

theorem looks_explainFailure (orderId : Id) (requested : OrderStatus) :
    Looks (explainFailure orderId requested) := by
  refine .bind (.selectTx _) fun current => ?_
  cases current with
  | none => exact .pure _
  | some current => exact .pure _

theorem looks_completedResponseFor (key : String) : Looks (completedResponseFor key) := by
  refine .bind (.select _) fun stored => ?_
  cases stored with
  | none => exact .pure _
  | some stored => exact .pure _

theorem looks_replayKey (key requestHash : String) : Looks (replayKey key requestHash) := by
  refine .bind (.select _) fun stored => ?_
  cases stored with
  | none => exact .throw _
  | some stored =>
    dsimp only
    split
    · split
      · exact .throw _
      · exact .pure _
    · exact .throw _

theorem looks_resolveChannel (principal : Principal) (input : CreateOrderInput) :
    Looks (resolveChannel principal input) := by
  cases principal with
  | staff userId =>
    rw [resolveChannel]
    split
    · exact .throw _
    · exact .pure _
  | device deviceId =>
    rw [resolveChannel]
    split
    · exact .throw _
    · split
      · exact .throw _
      · refine .bind (.perform rfl) fun status => ?_
        split
        · exact .throw _
        · exact .pure _

theorem looks_readCatalog (menuItemIds : List Id) : Looks (readCatalog menuItemIds) :=
  .bind (.perform rfl) fun _ => .pure _

theorem looks_createIntent (request : CreateIntentRequest) : Looks (createIntent request) := by
  refine .bind (.perform rfl) fun created => ?_
  cases created with
  | ok created => exact .pure _
  | error e => exact .throw _

theorem looks_cancelIntent (intentId : String) : Looks (cancelIntent intentId) := by
  refine .bind (.perform rfl) fun cancelled => ?_
  rcases cancelled with e | _
  · cases e with
    | unreachable => exact .throw _
    | invalidRequest =>
      refine .bind (.perform rfl) fun retrieved => ?_
      cases retrieved with
      | error e => exact .throw _
      | ok intent =>
        dsimp only
        split
        · exact .pure _
        · exact .pure _
        · exact .throw _
  · exact .pure _

theorem looks_clientSecretFor (intentId : String) : Looks (clientSecretFor intentId) := by
  refine .bind (.perform rfl) fun retrieved => ?_
  cases retrieved with
  | ok intent => exact .pure _
  | error e => exact .throw _

theorem looks_resolveMethod (intentId : String) : Looks (resolveMethod intentId) := by
  refine .bind (.perform rfl) fun retrieved => ?_
  cases retrieved with
  | ok intent => exact .pure _
  | error e => exact .pure _

theorem looks_loadPayableOrder (principal : Principal) (orderId : Id) :
    Looks (loadPayableOrder principal orderId) := by
  refine .bind (.select _) fun order => ?_
  cases order with
  | none => exact .throw _
  | some order =>
    dsimp only
    split
    · exact .throw _
    · split
      · exact .throw _
      · split
        · exact .throw _
        · refine .bind (.select _) fun live => ?_
          split
          · exact .throw _
          · exact .pure _

theorem looks_rehydrate (body : ResponseBody) : Looks (rehydrate body) := by
  cases body with
  | order view => exact .pure _
  | payment view =>
    rw [rehydrate]
    split
    · exact .pure _
    · refine .bind (.select _) fun row => ?_
      cases row with
      | none => exact .pure _
      | some row =>
        dsimp only
        split
        · exact .pure _
        · exact .bind (looks_clientSecretFor _) fun _ => .pure _

theorem looks_load (outcome : GatewayOutcome) : Looks (load outcome) := by
  rw [load]
  split
  · exact .pure _
  · refine .bind (.select _) fun payment => ?_
    cases payment with
    | none => exact .pure _
    | some payment => exact .bind (.select _) fun _ => .pure _

theorem looks_methodOf (paymentId : Id) : Looks (methodOf paymentId) := by
  refine .bind (.select _) fun row => ?_
  cases row with
  | none => exact .pure _
  | some row =>
    dsimp only
    split
    · exact .pure _
    · exact looks_resolveMethod _

theorem looks_announceFailure (settled : Option Id) (status : PaymentStatus) (paymentId : Id) :
    Looks (announceFailure settled status paymentId) := by
  cases settled with
  | none => exact .pure _
  | some orderId =>
    rw [announceFailure]
    split
    · refine .bind (.selectTx _) fun order => ?_
      cases order with
      | none => exact .pure _
      | some order => exact .pure _
    · exact .pure _

theorem looks_cancelLiveIntent (live : Option (Id × Payment)) : Looks (cancelLiveIntent live) := by
  rw [cancelLiveIntent]
  split
  · exact .pure _
  · refine .bind (.tryCatch (looks_cancelIntent _) fun _ => .throw _) fun outcome => ?_
    cases outcome with
    | alreadySucceeded => exact .throw _
    | cancelled => exact .pure _

theorem looks_cancelOverdueIntent (live : Option (Id × Payment)) :
    Looks (cancelOverdueIntent live) := by
  rw [cancelOverdueIntent]
  split
  · exact .pure _
  · exact looks_cancelIntent _

/-! ## The work of the transactions -/

/-- A transaction is open and holds `R`. -/
def Holding (R : List Row) (l : Sess) (s : Shared) : Prop := ∃ a, Under a R l s

namespace Climbs

variable {α β : Type} {a b : ℕ} {R : List Row}

/-- Whatever the transaction holds besides. -/
theorem holding {m : Door α} {B : α → Sess → Shared → Prop}
    (h : ∀ a, Climbs cfg (Under a R) m B) : Climbs cfg (Holding R) m B :=
  fun l s ⟨a, hl⟩ => h a l s hl

/-- What is needed less of an end. -/
theorem ending {m : Door α} {A : Sess → Shared → Prop} {B C : α → Sess → Shared → Prop}
    (h : Climbs cfg A m B) (hBC : ∀ x l s, B x l s → C x l s) : Climbs cfg A m C := by
  intro l s hl
  refine Spec.asserts_mono (fun r l' s' hr => ?_) (h l s hl)
  cases r with
  | ok x => exact hBC x l' s' hr
  | error e => trivial

/-- A look and then an error: from anywhere, and to anything. -/
theorem refuses {m : Door β} (hm : Looks m) (e : β → Err) (B : α → Sess → Shared → Prop) (l : Sess)
    (s : Shared) :
    ClimbsTo cfg (m >>= fun b => MonadExcept.throw (e b)) B (fun _ _ => True) l s := by
  refine Spec.asserts_bind (Spec.asserts_mono (Q := fun _ _ _ => True) (fun r _ _ _ => ?_)
    (Spec.asserts_of_only (I := fun _ _ => True) (fun o l s s₁ ho _ _ => ?_) hm trivial))
  · cases r with
    | ok b => trivial
    | error e => trivial
  · exact ⟨rising_of_looks ho l s₁, fun _ _ _ _ _ _ => trivial⟩

theorem transitionOrder (r : TransitionRequest) {n : ℕ} (hn : r.source.lockRank = n) (ha : a ≤ n) :
    Climbs cfg (Under a R) (CafePos.transitionOrder r)
      fun _ => Under (n + 1) (.order r.orderId :: R) := by
  subst hn
  refine .bind (.moveOrder ha r.orderId r.target) fun moved => ?_
  cases moved with
  | none => exact fun l s _ => refuses (looks_explainFailure _ _) _ _ l s
  | some updated => exact .bind (.insertHistory List.mem_cons_self) fun _ => .pure fun _ _ h => h

theorem reserveKey (key requestHash : String) (expiresAt : Instant) :
    Climbs cfg (Under 0 []) (CafePos.reserveKey key requestHash expiresAt)
      fun _ => Under 1 [.key key] := by
  refine .tryCatch (.raising (.insertKey key requestHash expiresAt)) fun e l s => ?_
  split
  · trivial
  · trivial

/-- The violation of an index is explained by a look at the live payments. -/
theorem insertPaymentDoor (ha : a ≤ 1) (orderId : Id) (row : Payment) (hb : 2 ≤ b)
    (hlive : row.status.isLive = true ∨ row.providerIntentId.isSome = true → 4 ≤ b) :
    Climbs cfg (Under a R) (CafePos.insertPayment orderId row) fun _ => Under b R := by
  refine .tryCatch (.raising (.insertPayment ha row hb hlive)) fun e l s => ?_
  split
  · exact refuses (.select _) _ _ l s
  · trivial

theorem settleLive (ha : a ≤ 3) (live : Option (Id × Payment)) (guarded : Bool) :
    Climbs cfg (Under a R) (CafePos.settleLive live guarded) fun _ => Under 4 R := by
  cases live with
  | none => exact .pure fun _ _ h => h.mono (by omega) (List.Subset.refl R)
  | some p => exact .bind (.updatePayment ha _ _ _ _) fun _ => .pure fun _ _ h => h

/-- The response is stored under the key that was reserved. -/
theorem completeKey {key : String} (view : α) (status : ℕ) (body : ResponseBody) :
    Climbs cfg (Holding [.key key])
      (do CafePos.completeKey key status body; Pure.pure view) fun _ => Holding [] := by
  refine .bind (.holding fun a => ?_) fun _ => .pure fun _ _ h => h
  refine ending (.updateKey (List.mem_singleton_self _) _ _) fun _ _ _ h => ?_
  exact ⟨a, h.mono (le_refl a) (List.nil_subset _)⟩

theorem nextOrderNumber (ha : a ≤ 3) (businessDay : String) :
    Climbs cfg (Under a R) (CafePos.nextOrderNumber businessDay) fun _ => Under 4 R :=
  .bind (.nextCounter ha _) fun _ => .pure fun _ _ h => h

/-- An order that is new: its number, its row, its lines and its history. -/
theorem build (principal : Principal) (input : CreateOrderInput) (ha : a ≤ 1) :
    Climbs cfg (Under a R) (CafePos.build cfg principal input) fun _ => Holding R := by
  refine .bind (.looks (looks_resolveChannel _ _)) fun channel => ?_
  refine .bind (.looks (looks_readCatalog _)) fun catalog => ?_
  split
  · exact .throw
  · rename_i priced _
    split
    · exact .throw
    · refine .bind (.looks (.perform rfl)) fun now => ?_
      refine .bind (C := fun _ => Under 4 R) ?_ fun orderNumber => ?_
      · rw [claimNumber]
        split
        · exact .pure fun _ _ h => h.mono (by omega) (List.Subset.refl R)
        · exact .bind (.nextOrderNumber (by omega) _) fun _ => .pure fun _ _ h => h
      refine .bind (.raising (.insertOrder (by omega) _)) fun id => ?_
      refine .bind (.raises (.insertOrderItems List.mem_cons_self fun i hi => ?_)) fun _ => ?_
      · obtain ⟨line, -, rfl⟩ := List.mem_map.mp hi
        rfl
      · refine .bind (.insertHistory List.mem_cons_self) fun _ => .pure fun _ _ h => ?_
        exact ⟨7, h.mono (le_refl 7) (List.subset_cons_self _ _)⟩

end Climbs

/-! ## Between transactions -/

/-- No transaction is open, and no row is held. -/
structure Free (l : Sess) : Prop where
  inactive : l.active = false
  held : l.held = []

/-- Every statement of the door climbs, and it holds nothing before and after. -/
def Unlocked {α : Type} (cfg : Config) (m : Door α) : Prop :=
  ∀ l s, Free l → ClimbsTo cfg m (fun _ l _ => Free l) (fun l _ => Free l) l s

/-- A call that holds nothing may need any row. -/
theorem Free.rising {l : Sess} (h : Free l) (o : Op) (s : Shared) :
    Rising waits Shared.rank o l s := by
  intro inp x _
  refine Or.inr fun y hy => ?_
  have hy' : y ∈ l.held := hy
  rw [h.held] at hy'
  cases hy'

namespace Unlocked

variable {α β : Type}

theorem pure (a : α) : Unlocked cfg (Pure.pure a : Door α) := fun _ _ h => h

theorem throw (e : Err) : Unlocked cfg (MonadExcept.throw e : Door α) := fun _ _ h => h

theorem bind {m : Door β} {f : β → Door α} (hm : Unlocked cfg m) (hf : ∀ b, Unlocked cfg (f b)) :
    Unlocked cfg (m >>= f) := by
  intro l s hl
  refine Spec.asserts_bind (Spec.asserts_mono (fun r l' s' hr => ?_) (hm l s hl))
  cases r with
  | ok b => exact hf b l' s' hr
  | error e => exact hr

theorem map {m : Door β} {f : β → α} (hm : Unlocked cfg m) : Unlocked cfg (f <$> m) :=
  bind hm fun b => pure (f b)

theorem tryCatch {m : Door α} {handle : Err → Door α} (hm : Unlocked cfg m)
    (hf : ∀ e, Unlocked cfg (handle e)) : Unlocked cfg (MonadExcept.tryCatch m handle) := by
  intro l s hl
  refine Spec.asserts_bind (Spec.asserts_mono (fun r l' s' hr => ?_) (hm l s hl))
  cases r with
  | ok b => exact hr
  | error e => exact hf e l' s' hr

/-- An operation that leaves the session free. -/
theorem perform {o : Op} (h : ∀ l inp locked s r l' s', Free l →
    exec inp locked l s o = some (r, l', s') → Free l') : Unlocked cfg (Door.perform o) :=
  fun l _ hl s₁ _ => ⟨hl.rising o s₁, fun inp locked r l' s₂ hx => h l inp locked s₁ r l' s₂ hl hx⟩

theorem looks {m : Door α} (hm : Looks m) : Unlocked cfg m := by
  intro l s hl
  refine Spec.asserts_mono (Q := fun _ l _ => Free l) (fun r _ _ hr => ?_)
    (Spec.asserts_of_only (fun o l s s₁ ho hl _ =>
      ⟨hl.rising o s₁, fun inp locked r l' s₂ hx => ?_⟩) hm hl)
  · cases r with
    | ok _ => exact hr
    | error _ => exact hr
  · obtain ⟨rfl, -⟩ := session_of_looks ho hx
    exact hl

/-- A statement on its own gives up its rows at once. -/
theorem statement (st : Statement) : Unlocked cfg (Door.statement st) := by
  refine perform fun l inp locked s r l' s' hl hx => ?_
  simp only [exec] at hx
  split at hx
  · obtain ⟨r', hr, hr'⟩ := Option.map_eq_some_iff.mp hx
    obtain ⟨-, rfl, -⟩ := Prod.mk.inj hr' |>.imp_right Prod.mk.inj
    obtain ⟨-, ⟨hin, -, -⟩ | ⟨-, -, hl', -⟩ | ⟨-, -, hl', -⟩⟩ := Session.execute_cases hr
    · rw [hl.inactive] at hin
      cases hin
    · rw [hl']
      exact hl
    · rw [hl']
      exact ⟨rfl, rfl⟩
  · cases hx

/-- A transaction whose work climbs. -/
theorem transaction {work : Door α} {B : α → Sess → Shared → Prop}
    (h : Climbs cfg (Under 0 []) work B) : Unlocked cfg (Door.transaction work) := by
  intro l s hl s₁ _
  refine ⟨rising_of_needs fun _ => rfl, fun inp locked r l' s₂ hx => ?_⟩
  obtain ⟨-, rfl, rfl⟩ := Option.some.inj hx |> Prod.mk.inj |>.imp_right Prod.mk.inj
  have hbegun : Under 0 [] l.begin s₁ :=
    ⟨rfl, fun x hx => absurd hx List.not_mem_nil, fun x hx => absurd hx List.not_mem_nil⟩
  refine Spec.asserts_bind (m := work.run) (Spec.asserts_mono (fun r l' s' hr => ?_)
    (h l.begin s₁ hbegun))
  cases r with
  | ok a =>
    refine fun s₂ _ => ⟨rising_of_needs fun _ => rfl, fun inp locked r l'' s₃ hx => ?_⟩
    obtain ⟨-, rfl, rfl⟩ := Option.some.inj hx |> Prod.mk.inj |>.imp_right Prod.mk.inj
    exact ⟨rfl, rfl⟩
  | error e =>
    refine fun s₂ _ => ⟨rising_of_needs fun _ => rfl, fun inp locked r l'' s₃ hx => ?_⟩
    obtain ⟨-, rfl, rfl⟩ := Option.some.inj hx |> Prod.mk.inj |>.imp_right Prod.mk.inj
    exact ⟨rfl, rfl⟩

theorem afterCommit {work : Door (α × List DomainEvent)}
    {B : α × List DomainEvent → Sess → Shared → Prop} (h : Climbs cfg (Under 0 []) work B) :
    Unlocked cfg (Door.afterCommit work) := by
  refine bind (transaction h) fun r => ?_
  obtain ⟨result, pending⟩ := r
  dsimp only
  split
  · exact pure _
  · refine bind (perform fun l inp locked s r l' s' hl hx => ?_) fun _ => pure _
    obtain ⟨-, rfl, -⟩ := Option.some.inj hx |> Prod.mk.inj |>.imp_right Prod.mk.inj
    exact ⟨hl.inactive, hl.held⟩

end Unlocked

/-! ## The doors -/

theorem unlocked_create (principal : Principal) (input : CreateOrderInput)
    (idempotencyKey : Option String) :
    Unlocked cfg (create cfg principal input idempotencyKey) := by
  cases idempotencyKey with
  | none => exact .bind (.transaction (.build principal input (by omega))) fun _ => .pure _
  | some key =>
    refine .tryCatch (.bind (.transaction (B := fun _ => Holding []) ?_) fun _ => .pure _)
      fun error => ?_
    · refine .bind (.looks looks_keyExpiry) fun _ => .bind (.reserveKey _ _ _) fun _ => ?_
      exact .bind (.build principal input (le_refl 1)) fun view => .completeKey view _ _
    · split
      · exact .bind (.looks (looks_replayKey _ _)) fun _ => .pure _
      · exact .throw _

theorem unlocked_checkout (principal : Principal) (orderId : Id) :
    Unlocked cfg (checkout cfg principal orderId) := by
  refine .transaction (B := fun _ => Holding []) (.bind (.looks (.selectTx _)) fun current => ?_)
  cases current with
  | none => exact .throw
  | some current =>
    dsimp only
    split
    · exact .throw
    · refine .bind (.transitionOrder (n := 2) _ rfl (by decide)) fun _ => ?_
      refine .bind (.nextOrderNumber (le_refl 3) _) fun number => ?_
      refine .bind (.looks (.perform rfl)) fun now => ?_
      refine .bind (.raises (.queueOrder List.mem_cons_self _ _)) fun queued => ?_
      cases queued with
      | none => exact .throw
      | some queued => exact .pure fun _ _ h => ⟨4, h.mono (le_refl 4) (List.nil_subset _)⟩

theorem unlocked_write (reservation : Option (String × String))
    {work : Door (PaymentView × List DomainEvent)}
    (h : ∀ R, Climbs cfg (Under 1 R) work fun _ => Holding R) :
    Unlocked cfg (write reservation work) := by
  cases reservation with
  | none =>
    refine .bind (.afterCommit (B := fun _ => Holding []) fun l s hl => ?_) fun _ => .pure _
    exact h [] l s (hl.mono (Nat.zero_le 1) (List.Subset.refl _))
  | some r =>
    refine .tryCatch (.bind (.afterCommit (B := fun _ => Holding []) ?_) fun _ => .pure _)
      fun error => ?_
    · refine .bind (.looks looks_keyExpiry) fun _ => .bind (.reserveKey _ _ _) fun _ => ?_
      exact .bind (h _) fun result => .completeKey result _ _
    · split
      · exact .bind (.looks (looks_replayKey _ _)) fun _ =>
          .bind (.looks (looks_rehydrate _)) fun _ => .pure _
      · exact .throw _

theorem unlocked_pay (principal : Principal) (orderId : Id) (input : CreatePaymentInput)
    (reservation : Option (String × String)) :
    Unlocked cfg (pay principal orderId input reservation) := by
  refine .bind (.looks (looks_loadPayableOrder _ _)) fun order => ?_
  split
  · cases principal with
    | device deviceId => exact .throw _
    | staff userId =>
      rw [takeCash]
      split
      · exact .throw _
      · split
        · exact .throw _
        · refine unlocked_write _ fun R => ?_
          refine .bind (.insertPaymentDoor (b := 2) (le_refl 1) _ _ (le_refl 2) ?_) fun _ => ?_
          · simp [cashRow, PaymentStatus.isLive]
          · refine .bind (.transitionOrder (n := 2) _ rfl (by decide)) fun updated =>
              .pure fun _ _ h => ?_
            exact ⟨_, h.mono (le_refl _) (List.subset_cons_self _ _)⟩
  · refine .bind (.looks (looks_createIntent _)) fun created => unlocked_write _ fun R => ?_
    exact .bind (.insertPaymentDoor (b := 4) (le_refl 1) _ _ (by decide) fun _ => le_refl 4)
      fun paymentId => .pure fun _ _ h => ⟨4, h⟩

theorem unlocked_createPayment (principal : Principal) (orderId : Id) (input : CreatePaymentInput)
    (idempotencyKey : Option String) :
    Unlocked cfg (createPayment cfg principal orderId input idempotencyKey) := by
  cases idempotencyKey with
  | none => exact unlocked_pay principal orderId input none
  | some key =>
    refine .bind (.looks (looks_completedResponseFor key)) fun stored => ?_
    cases stored with
    | none => exact unlocked_pay principal orderId input _
    | some stored =>
      dsimp only
      split
      · exact .throw _
      · exact .bind (.looks (looks_rehydrate _)) fun _ => .pure _

/-- A `SELECT` between transactions sees what is committed when it runs. -/
theorem ClimbsTo.select {α : Type} {q : Query} {f : q.Answer → Door α}
    {Q : α → Sess → Shared → Prop} {E : Sess → Shared → Prop} {l : Sess} {s : Shared} (hl : Free l)
    (h : ∀ s₁, Later cfg l s s₁ → ClimbsTo cfg (f (q.answer s₁.db)) Q E l s₁) :
    ClimbsTo cfg (Door.select q >>= f) Q E l s := by
  intro s₁ hs₁
  refine ⟨hl.rising _ _, fun inp locked r l' s₂ hx => ?_⟩
  obtain ⟨rfl, rfl, rfl⟩ := Option.some.inj hx |> Prod.mk.inj |>.imp_right Prod.mk.inj
  exact h s₁ hs₁

/-- The order of a payment that has succeeded has been paid for, so a refund, which holds the
payment, may take its order after it. -/
theorem unlocked_refund (userId paymentId : Id) (input : CreateRefundInput) :
    Unlocked cfg (refund cfg userId paymentId input) := by
  intro l s hl
  refine .select hl fun s₁ _ => ?_
  cases hp : s₁.db.payments.get paymentId with
  | none =>
    simp only [Query.answer, hp]
    exact Unlocked.throw _ l s₁ hl
  | some payment =>
    simp only [Query.answer, hp]
    split
    · exact Unlocked.throw _ l s₁ hl
    · rename_i hsucceeded
      refine .select hl fun s₂ hs₂ => ?_
      simp only [Query.answer]
      cases ho : s₂.db.orders.get payment.orderId with
      | none => exact Unlocked.throw _ l s₂ hl
      | some order =>
        -- the order has been paid for when it is read
        have hsettled : order.status.lockRank = 4 := by
          obtain ⟨p, hp₂, hevolves⟩ := hs₂.rely.payment hp
          obtain ⟨o, ho₂, hfits⟩ := hs₂.inv.1.payment hp₂
          rw [hevolves.orderId, ho] at ho₂
          obtain rfl := Option.some.inj ho₂
          have h := hfits.settled (hevolves.succeeded (not_not.mp hsucceeded))
          simp only [OrderStatus.lockRank, h, if_true]
        refine Unlocked.bind (.looks (.perform rfl)) (fun now => ?_) l s₂ hl
        split
        · exact .throw _
        · refine .afterCommit (B := fun _ => Holding []) ?_
          refine .bind (.lockPayment paymentId) fun _ => ?_
          refine .bind (.looks (.selectTx _)) fun already => ?_
          split
          · exact .throw
          · refine .bind (.raises (.insertRefund List.mem_cons_self _ _ _)) fun id => ?_
            split
            · refine .bind (.transitionOrder _ hsettled (le_refl 4)) fun updated =>
                .pure fun _ _ h => ?_
              exact ⟨_, h.mono (le_refl _) (List.nil_subset _)⟩
            · exact .pure fun _ _ h => ⟨4, h.mono (le_refl 4) (List.nil_subset _)⟩

theorem unlocked_markPaid (eventId paymentId orderId : Id) :
    Unlocked cfg (markPaid eventId paymentId orderId) := by
  refine .bind (.looks (looks_methodOf _)) fun method => ?_
  refine .bind (.afterCommit (B := fun _ => Holding []) ?_) fun _ => .pure _
  refine .bind (.transitionOrder (n := 2) _ rfl (by decide)) fun updated => ?_
  refine .bind (.updatePayment (by decide) _ _ _ _) fun _ => ?_
  refine .bind (.stampEvent (by decide) _ _) fun _ => .pure fun _ _ h => ?_
  exact ⟨6, h.mono (le_refl 6) (List.nil_subset _)⟩

theorem unlocked_markPayment (eventId paymentId : Id) (status : PaymentStatus) :
    Unlocked cfg (markPayment eventId paymentId status) := by
  refine .bind (.afterCommit (B := fun _ => Under 6 []) ?_) fun _ => .pure _
  refine .bind (.updatePayment (by decide) _ _ _ _) fun settled => ?_
  refine .bind (.stampEvent (by decide) _ _) fun _ => ?_
  exact .bind (.looks (looks_announceFailure _ _ _)) fun _ => .pure fun _ _ h => h

theorem unlocked_processEvent (eventId : Id) : Unlocked cfg (processEvent eventId) := by
  refine .tryCatch (.bind (.looks (.select _)) fun event => ?_) fun _ => .pure _
  cases event with
  | none => exact .pure _
  | some event =>
    dsimp only
    split
    · exact .throw _
    · refine .bind (.looks (looks_load _)) fun loaded => ?_
      obtain ⟨payment, order⟩ := loaded
      dsimp only
      generalize decidePaymentOutcome _ payment order = decision
      cases decision with
      | refuse why => exact .pure _
      | skip why => exact .bind (.statement _) fun _ => .pure _
      | markPayment paymentId status => exact unlocked_markPayment eventId paymentId status
      | markPaid paymentId orderId => exact unlocked_markPaid eventId paymentId orderId

theorem unlocked_cancel (principal : Principal) (orderId : Id) (reason : Option String) :
    Unlocked cfg (cancel principal orderId reason) := by
  refine .bind (.looks (.select _)) fun current => ?_
  cases current with
  | none => exact .throw _
  | some current =>
    dsimp only
    split
    · exact .throw _
    · rename_i hcancellable
      refine .bind (.looks (.select _)) fun rows => ?_
      refine .bind (.looks (looks_cancelLiveIntent _)) fun _ => ?_
      have hopen : OrderStatus.lockRank current.status = 2 := by
        revert hcancellable
        cases current.status <;> decide
      refine .afterCommit (B := fun _ => Holding []) ?_
      refine .bind (.transitionOrder _ hopen (Nat.zero_le 2)) fun updated => ?_
      refine .bind (.settleLive (le_refl 3) _ _) fun _ => .pure fun _ _ h => ?_
      exact ⟨4, h.mono (le_refl 4) (List.nil_subset _)⟩

theorem unlocked_expireOne (orderId : Id) : Unlocked cfg (expireOne orderId) := by
  refine .tryCatch (.bind (.looks (.select _)) fun rows => ?_) fun _ => .pure _
  refine .bind (.looks (looks_cancelOverdueIntent _)) fun outcome => ?_
  cases outcome with
  | alreadySucceeded => exact .pure _
  | cancelled =>
    refine .bind (.transaction (B := fun _ => Holding []) ?_) fun _ => .pure _
    refine .bind (.transitionOrder (n := 2) _ rfl (by decide)) fun updated => ?_
    refine .bind (.settleLive (by decide) _ _) fun _ => .pure fun _ _ h => ?_
    exact ⟨4, h.mono (le_refl 4) (List.nil_subset _)⟩

theorem unlocked_transition (principal : Principal) (orderId : Id) (target : OrderStatus) :
    Unlocked cfg (transition principal orderId target) := by
  refine .afterCommit (B := fun _ => Holding []) (.bind (.looks (.selectTx _)) fun current => ?_)
  cases current with
  | none => exact .throw
  | some current =>
    dsimp only
    split
    · refine .bind (.transitionOrder _ rfl (Nat.zero_le _)) fun updated => .pure fun _ _ h => ?_
      exact ⟨_, h.mono (le_refl _) (List.nil_subset _)⟩
    · exact .throw

/-- Every call climbs, from its start to its answer. -/
theorem unlocked_program (cfg : Config) (c : Call) (s : Shared) :
    (Context.plain cfg).spec.asserts machine (Rising waits Shared.rank) (fun _ l _ => l.held = [])
      (program cfg c) idle s := by
  have hend : ∀ {α : Type} {m : Door α}, Unlocked cfg m →
      (Context.plain cfg).spec.asserts machine (Rising waits Shared.rank)
        (fun _ l _ => l.held = []) m.run idle s := by
    intro α m hm
    refine Spec.asserts_mono (fun r l' s' hr => ?_) (hm idle s ⟨rfl, rfl⟩)
    cases r with
    | ok _ => exact hr.held
    | error _ => exact hr.held
  cases c with
  | createOrder principal input key => exact hend (.map (unlocked_create principal input key))
  | checkout principal orderId => exact hend (.map (unlocked_checkout principal orderId))
  | createPayment principal orderId input key =>
    exact hend (.map (unlocked_createPayment principal orderId input key))
  | record event => exact hend (.map (.statement _))
  | processEvent eventId => exact hend (.map (unlocked_processEvent eventId))
  | cancel principal orderId reason => exact hend (.map (unlocked_cancel principal orderId reason))
  | expireOne orderId => exact hend (.map (unlocked_expireOne orderId))
  | transition principal orderId target =>
    exact hend (.map (unlocked_transition principal orderId target))
  | refund userId paymentId input => exact hend (.map (unlocked_refund userId paymentId input))

/-! ## Every run -/

/-- In every world of every run, every call is on its way to its answer, taking rows in order. -/
theorem Reachable.climbs {w : PosWorld} (h : Reachable cfg w) :
    Sound ((Context.plain cfg).spec.upholding (Rising waits Shared.rank)) (system cfg)
      opening.shared 0 (fun _ c a l s => Post (.plain cfg) opening.shared c a l s ∧ l.held = [])
      w := by
  have hstarts : Starts ((Context.plain cfg).spec.upholding (Rising waits Shared.rank)) (system cfg)
      opening.shared 0 fun _ c a l s => Post (.plain cfg) opening.shared c a l s ∧ l.held = [] :=
    fun i c s hi hp hinv hbase => Spec.wp_upholding
      ((Context.plain cfg).starts opening.shared 0 i c s hi hp hinv hbase)
      (unlocked_program cfg c s)
  refine Sound.runs hstarts (fun e s s' hp hi hs => (Context.plain cfg).happens e s s' hp hi hs)
    (.initial ⟨.empty, trivial⟩) h

/-- A call that is over holds no row. -/
theorem Reachable.released {w : PosWorld} (h : Reachable cfg w) :
    ∀ t ∈ w.threads, ¬ t.Running → t.session.held = [] := by
  intro t ht hover
  obtain ⟨i, hi⟩ := List.getElem?_of_mem ht
  cases hp : t.prog with
  | none => exact Runs.died_held (M := system cfg) h t ht hp
  | some p =>
    cases p with
    | done a =>
      obtain ⟨s₀, -, -, -, hheld⟩ := h.climbs.answered hi hp
      exact hheld
    | op o k => exact absurd ⟨o, k, hp⟩ hover

/-- **No deadlock**: in every world of every run, while a call is under way, some call can perform
its next operation. -/
theorem some_call_goes_on {w : PosWorld} (h : Reachable cfg w) {t : PosThread} (ht : t ∈ w.threads)
    (hrun : t.Running) : ∃ w', w.Steps (system cfg) w' := by
  obtain ⟨i, hi⟩ := List.getElem?_of_mem ht
  exact h.climbs.can_step (fun _ _ _ _ => trivial) h.released (fun s x => x.rank_le s.db) hi hrun

/-- Two calls under one key: the first has reserved it, and the second waits for it. -/
def underOneKey : List PosAct :=
  .start (.createOrder (.staff 7) oneLatte (some "k")) :: steps 0 3 (supply 0 "") ++
    .start (.createOrder (.staff 7) oneLatte (some "k")) :: steps 1 2 (supply 0 "")

theorem exists_waiting : ∃ w, Reachable cornerCafe w ∧
    (w.act (system cornerCafe) (.step 1 (supply 0 ""))).isNone = true ∧
    (w.threads[1]?.any Thread.running) = true := by
  obtain ⟨w, hw, hwaits⟩ := Reachable.exists_of_runIf cornerCafe underOneKey
    (fun w => (w.act (system cornerCafe) (.step 1 (supply 0 ""))).isNone &&
      w.threads[1]?.any Thread.running) (by decide)
  rw [Bool.and_eq_true] at hwaits
  exact ⟨w, hw, hwaits⟩

theorem some_call_goes_on_waiting : ∃ w, Reachable cornerCafe w ∧
    (w.act (system cornerCafe) (.step 1 (supply 0 ""))).isNone = true ∧
    ∃ w', w.Steps (system cornerCafe) w' := by
  obtain ⟨w, hw, hwaits, hrun⟩ := exists_waiting
  obtain ⟨t, ht, hrun⟩ := (Option.any_eq_true _ _).mp hrun
  exact ⟨w, hw, hwaits, some_call_goes_on hw (List.mem_of_getElem? ht) (Thread.running_iff.mp hrun)⟩

/-- Every call that was under way in `w` has been answered in `w'`. -/
def AllAnswered (w w' : PosWorld) : Prop :=
  ∀ (i : ℕ) (t : PosThread), w.threads[i]? = some t → t.Running →
    ∃ (t' : PosThread) (a : Answer), w'.threads[i]? = some t' ∧ t'.call = t.call ∧ t'.Answered a

/-- **Every call is answered**: from every world of every run, whichever call a scheduler lets go
next and whatever the outside supplies to it, it comes to a world in which all calls that were under
way have been answered. -/
theorem calls_are_answered {w : PosWorld} (h : Reachable cfg w) :
    Inevitably (system cfg) (AllAnswered w) w := by
  -- on the way there, the calls that were under way are still there, and none of them has died
  refine .of_progress (J := fun w' => Reachable cfg w' ∧ ∀ (i : ℕ) (t : PosThread),
    w.threads[i]? = some t → t.Running → ∃ t' : PosThread, w'.threads[i]? = some t' ∧
      t'.call = t.call ∧ t'.prog ≠ none) ?_ ?_ ⟨h, ?_⟩
  · rintro w₁ w₂ ⟨h₁, hkept⟩ hstep
    refine ⟨?_, fun i t ht hrun => ?_⟩
    · obtain ⟨j, inp, hact⟩ := hstep
      exact h₁.tail (Runs.allows_all w₁ _) hact
    · obtain ⟨t₁, ht₁, hcall₁, hp₁⟩ := hkept i t ht hrun
      obtain ⟨t₂, ht₂, hcall₂, hp₂⟩ := hstep.thread ht₁ hp₁
      exact ⟨t₂, ht₂, hcall₂.trans hcall₁, hp₂⟩
  · rintro w₁ ⟨h₁, hkept⟩ hopen
    simp only [AllAnswered, not_forall] at hopen
    obtain ⟨i, t, ht, hrun, hnot⟩ := hopen
    obtain ⟨t₁, ht₁, hcall, hp⟩ := hkept i t ht hrun
    refine some_call_goes_on h₁ (List.mem_of_getElem? ht₁) ?_
    cases hprog : t₁.prog with
    | none => exact absurd hprog hp
    | some p =>
      cases p with
      | done a => exact absurd ⟨t₁, a, ht₁, hcall, hprog⟩ hnot
      | op o k => exact ⟨o, k, hprog⟩
  · intro i t ht hrun
    obtain ⟨o, k, hp⟩ := hrun
    exact ⟨t, ht, rfl, by rw [hp]; exact Option.some_ne_none _⟩

theorem calls_are_answered_waiting : ∃ w, Reachable cornerCafe w ∧
    (w.act (system cornerCafe) (.step 1 (supply 0 ""))).isNone = true ∧
    Inevitably (system cornerCafe) (AllAnswered w) w := by
  obtain ⟨w, hw, hwaits, -⟩ := exists_waiting
  exact ⟨w, hw, hwaits, calls_are_answered hw⟩

end CafePos
