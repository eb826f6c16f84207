import CafePos.Transactions

/-!
# The order doors keep to the ledger

`OrdersService.create`, `CheckoutOrderService.checkout` and `OrderStatusService.transition`:
what each can answer, and that the log it commits is one `Commits` lists.
-/

namespace CafePos

open Interleaving

variable {cfg : Config} {Γ : Context cfg} {c : Call}

/-! ## Announcements -/

/-- A log that pays for nothing calls for no announcement. -/
def Unpaying (ws : List Write) : Prop :=
  ∀ w ∈ ws, ∀ id, w.isPaidRow id = false ∧ w.isCapture id = false

/-- An announcement of neither a paid order nor a captured payment. -/
def DomainEvent.Minor (e : DomainEvent) : Prop :=
  ∀ id, e.isOrderPaid id = false ∧ e.isPaymentSucceeded id = false

/-- Minor announcements suit a log that pays for nothing. -/
theorem announces_of_unpaying {ws : List Write} {es : List DomainEvent} (hws : Unpaying ws)
    (hes : ∀ e ∈ es, e.Minor) : Announces es [ws] := by
  refine ⟨fun id => ?_, fun id => ?_⟩
  · rw [List.countP_eq_zero.mpr fun e he => by simp [(hes e he id).1],
      List.countP_eq_zero.mpr fun w hw => ?_]
    rw [List.flatten_singleton] at hw
    simp [(hws w hw id).1]
  · rw [List.countP_eq_zero.mpr fun e he => by simp [(hes e he id).2],
      List.countP_eq_zero.mpr fun w hw => ?_]
    rw [List.flatten_singleton] at hw
    simp [(hws w hw id).2]

theorem announces_idle : Announces idle.published idle.committed := ⟨fun _ => rfl, fun _ => rfl⟩

/-! ## Creating an order -/

namespace Ensures

variable {E : Err → Sess → Shared → Prop} {l : Sess} {s : Shared}

theorem resolveChannel {principal : Principal} {input : CreateOrderInput}
    {Q : OrderChannel → Sess → Shared → Prop} (hi : Γ.spec.inv s)
    (h : ∀ s₁ channel, Γ.After l s s₁ → Q channel l s₁)
    (herr : ∀ s₁ e, Γ.After l s s₁ → e ≠ .keyAlreadyReserved → E e l s₁) :
    Ensures Γ c (CafePos.resolveChannel principal input) Q E l s := by
  cases principal with
  | staff userId =>
    simp only [CafePos.resolveChannel]
    split
    · exact throw (herr s _ (.refl hi) nofun)
    · exact pure (h s _ (.refl hi))
  | device deviceId =>
    simp only [CafePos.resolveChannel]
    split
    · exact throw (herr s _ (.refl hi) nofun)
    · split
      · exact throw (herr s _ (.refl hi) nofun)
      · refine bind (deviceStatus fun s₁ status hs₁ => ?_)
        split
        · exact throw (herr s₁ _ hs₁ nofun)
        · exact pure (h s₁ _ hs₁)

/-- `nextOrderNumber`: the day's counter and its row in the log. -/
theorem nextOrderNumber {day : String} {Q : String → Sess → Shared → Prop} (hl : l.active = true)
    (hlog : ∀ w ∈ l.log, ∀ day n, w ≠ .counter day n)
    (h : ∀ s₁ l' n, Γ.After l s s₁ → n = s₁.db.lastValue day + 1 → Adds l l' [.counter day n] →
      Q (formatOrderNumber n) l' s₁) :
    Ensures Γ c (CafePos.nextOrderNumber day) Q E l s := by
  refine bind (statement hl fun s₁ fresh now l' e hs₁ _ he hadds _ => ?_)
  simp only [Statement.effect, Db.lastValue, view_counters hlog] at he
  subst he
  exact pure (h s₁ l' _ hs₁ rfl hadds)

theorem claimNumber {input : CreateOrderInput} {now : Instant}
    {Q : Option String → Sess → Shared → Prop} (hi : Γ.spec.inv s) (hl : l.active = true)
    (hlog : ∀ w ∈ l.log, ∀ day n, w ≠ .counter day n)
    (h : ∀ s₁ l' n, Γ.After l s s₁ →
      (input.draft = false → n = s₁.db.lastValue (cfg.businessDayOf now) + 1) →
      Adds l l' (if input.draft then [] else [.counter (cfg.businessDayOf now) n]) →
      Q (claimed input n) l' s₁) :
    Ensures Γ c (CafePos.claimNumber cfg input now) Q E l s := by
  rw [CafePos.claimNumber]
  split
  · rename_i hdraft
    have hq := h s l 0 (.refl hi) (fun hn => by rw [hdraft] at hn; cases hn)
      (by rw [if_pos hdraft]; exact .refl hl)
    rw [claimed, if_pos hdraft] at hq
    exact pure hq
  · rename_i hdraft
    refine map (nextOrderNumber hl hlog fun s₁ l' n hs₁ hn hadds => ?_)
    have hq := h s₁ l' n hs₁ (fun _ => hn) (by rw [if_neg hdraft]; exact hadds)
    rw [claimed, if_neg hdraft] at hq
    exact hq

/-- `persist`: the log it adds, with the number it claimed. -/
theorem persist {principal : Principal} {channel : OrderChannel} {input : CreateOrderInput}
    {priced : PricedOrder} {Q : OrderView → Sess → Shared → Prop} (hl : l.active = true)
    (hlog : ∀ w ∈ l.log, ∃ k row, w = .key k row)
    (h : ∀ s₁ l' id row n now, Γ.After l s s₁ →
      row = orderRow cfg principal channel input priced now (claimed input n) →
      (input.draft = false → n = s₁.db.lastValue row.businessDay + 1) →
      s₁.db.orders.get id = none → Adds l l' (createWrites principal input priced id row n) →
      Q (toView id row priced) l' s₁)
    (herr : ∀ s₁ l' ws e, Γ.After l s s₁ → Adds l l' ws → e ≠ .keyAlreadyReserved → E e l' s₁) :
    Ensures Γ c (CafePos.persist cfg principal channel input priced) Q E l s := by
  have hkeys : ∀ w ∈ l.log, ∀ day n, w ≠ .counter day n := by
    rintro w hw day n rfl
    obtain ⟨k, row, h⟩ := hlog _ hw
    cases h
  refine bind (now fun s₁ t hs₁ => ?_)
  refine bind (claimNumber hs₁.inv hl hkeys fun s₂ l₁ n hs₂ hn hadds₁ => ?_)
  have hs₂ := hs₁.trans hs₂
  refine bind (raising (statement hadds₁.active fun s₃ id _ l₂ e hs₃ hunused he hadds₂ _ => ?_))
  have hs₃' := hs₂.trans (hadds₁.after hs₃)
  have hlog₁ : ∀ w ∈ l₁.log, ∀ id row, w ≠ .order id row := by
    rintro w hw id row rfl
    rw [hadds₁.log] at hw
    rcases List.mem_append.mp hw with hw | hw
    · obtain ⟨k, row, h⟩ := hlog _ hw
      cases h
    · split at hw <;> simp at hw
  simp only [Statement.effect] at he
  split at he
  · subst he
    exact herr s₃ l₂ _ _ hs₃' (hadds₁.trans hadds₂) (by simp)
  · split at he
    · subst he
      exact herr s₃ l₂ _ _ hs₃' (hadds₁.trans hadds₂) (by simp)
    · subst he
      have hfree : s₃.db.orders.get id = none := by
        simpa [Statement.idUnused, view_orders hlog₁] using hunused
      refine bind (raising (statement hadds₂.active fun s₄ _ _ l₃ e hs₄ _ he hadds₃ _ => ?_))
      have hs₄' := hs₃'.trans ((hadds₁.trans hadds₂).after hs₄)
      simp only [Statement.effect] at he
      split at he
      · subst he
        exact herr s₄ l₃ _ _ hs₄' ((hadds₁.trans hadds₂).trans hadds₃) (by simp)
      · split at he
        · subst he
          exact herr s₄ l₃ _ _ hs₄' ((hadds₁.trans hadds₂).trans hadds₃) (by simp)
        · subst he
          refine bind (statement hadds₃.active fun s₅ _ _ l₄ e hs₅ _ he hadds₄ _ => ?_)
          subst he
          have hs₃₅ : Γ.After l₂ s₃ s₅ := hs₄.trans (hadds₃.after hs₅)
          have hs₂₅ : Γ.After l₁ s₂ s₅ := hs₃.trans (hadds₂.after hs₃₅)
          refine pure (h s₅ l₄ id _ n t (hs₂.trans (hadds₁.after hs₂₅)) rfl ?_ ?_ ?_)
          · intro hdraft
            rw [hn hdraft]
            refine congrArg (· + 1) (Context.kept_lastValue (n := n) hs₂₅ ?_).symm
            exact hadds₁.mem (by simp [hdraft])
          · rw [Context.kept_order hs₃₅ (hadds₂.mem (List.mem_singleton.mpr rfl))]
            exact hfree
          · have hadds := ((hadds₁.trans hadds₂).trans hadds₃).trans hadds₄
            simp only [List.append_assoc, List.singleton_append] at hadds
            exact hadds

end Ensures

/-- A transaction has written an order, and what it wrote is still what it would write. -/
def Placed (cfg : Config) (principal : Principal) (input : CreateOrderInput) (view : OrderView)
    (l₀ l : Sess) (s : Shared) : Prop :=
  ∃ channel catalog priced now id row n,
    priceOrder input.items catalog cfg.vatBasisPoints = .ok priced ∧
    row = orderRow cfg principal channel input priced now (claimed input n) ∧
    (input.draft = false → n = s.db.lastValue row.businessDay + 1) ∧
    s.db.orders.get id = none ∧ Adds l₀ l (createWrites principal input priced id row n) ∧
    view = toView id row priced

/-- The rows it touched are held: it stays so. -/
theorem Placed.after {principal : Principal} {input : CreateOrderInput} {view : OrderView}
    {l₀ l : Sess} {s s₁ : Shared} (h : Placed cfg principal input view l₀ l s)
    (hs : Γ.After l s s₁) : Placed cfg principal input view l₀ l s₁ := by
  obtain ⟨channel, catalog, priced, now, id, row, n, hpriced, hrow, hn, hfree, hadd, hview⟩ := h
  refine ⟨channel, catalog, priced, now, id, row, n, hpriced, hrow, fun hdraft => ?_, ?_, hadd,
    hview⟩
  · rw [hn hdraft]
    refine congrArg (· + 1) (Context.kept_lastValue (n := n) hs (hadd.mem ?_)).symm
    simp [createWrites, hdraft]
  · have hmem : Write.order id row ∈ l.log := hadd.mem (by simp [createWrites])
    rw [Context.kept_order hs hmem]
    exact hfree

namespace Ensures

variable {E : Err → Sess → Shared → Prop} {l : Sess} {s : Shared}

/-- `build`: an order is placed, or it is refused and nothing is known of the log. -/
theorem build {principal : Principal} {input : CreateOrderInput}
    {Q : OrderView → Sess → Shared → Prop} (hi : Γ.spec.inv s) (hl : l.active = true)
    (hlog : ∀ w ∈ l.log, ∃ k row, w = .key k row)
    (h : ∀ s₁ l' view, Γ.After l s s₁ → Placed cfg principal input view l l' s₁ → Q view l' s₁)
    (herr : ∀ s₁ l' ws e, Γ.After l s s₁ → Adds l l' ws → e ≠ .keyAlreadyReserved → E e l' s₁) :
    Ensures Γ c (CafePos.build cfg principal input) Q E l s := by
  refine bind (resolveChannel hi (fun s₁ channel hs₁ => ?_)
    (fun s₁ e hs₁ he => herr s₁ l [] e hs₁ (.refl hl) he))
  refine bind (bind (menuItems fun s₂ rows hs₂ => pure ?_))
  have hs₂ := hs₁.trans hs₂
  split
  · exact throw (herr s₂ l [] _ hs₂ (.refl hl) nofun)
  · rename_i priced hpriced
    split
    · exact throw (herr s₂ l [] _ hs₂ (.refl hl) nofun)
    · refine persist hl hlog ?_ (fun s₃ l' ws e hs₃ => herr s₃ l' ws e (hs₂.trans hs₃))
      intro s₃ l' id row n now hs₃ hrow hn hfree hadds
      exact h s₃ l' _ (hs₂.trans hs₃)
        ⟨channel, _, priced, now, id, row, n, hpriced, hrow, hn, hfree, hadds, rfl⟩

end Ensures

/-- The key has answered `body` to the request with this fingerprint. -/
def Stored (db : Db) (k hash : String) (body : ResponseBody) : Prop :=
  ∃ row, db.idempotencyKeys.get k = some row ∧ row.requestHash = hash ∧
    row.responseBody = some body

/-- A committed log under a key leaves its answer behind. -/
theorem stored_commit {s : Shared} {ws : List Write} (hws : ∀ w ∈ ws, ∀ k row, w ≠ .key k row)
    (k hash : String) (expiry : Instant) (body : ResponseBody) :
    Stored (s.commit (underKey (some (k, hash)) expiry body ws)).db k hash body := by
  refine ⟨⟨hash, some 201, some body, expiry⟩, ?_, rfl, rfl⟩
  simp only [Shared.commit, applyAll_underKey hws, keysAfter]
  exact Table.get_put_self ..

/-- A creation pays for nothing. -/
theorem unpaying_create {principal : Principal} {input : CreateOrderInput} {priced : PricedOrder}
    {id : Id} {row : Order} {n : ℕ} : Unpaying (createWrites principal input priced id row n) :=
  -- its history row comes from no status
  forall_createWrites (fun _ => ⟨rfl, rfl⟩) (fun _ => ⟨rfl, rfl⟩) (fun _ _ => ⟨rfl, rfl⟩)
    fun _ => by simp [Write.isPaidRow, Write.isCapture, createdRow]

/-- Neither does answering a key. -/
theorem Unpaying.underKey {ws : List Write} (h : Unpaying ws)
    (reservation : Option (String × String)) (expiry : Instant) (body : ResponseBody) :
    Unpaying (underKey reservation expiry body ws) :=
  forall_underKey (fun _ _ _ => ⟨rfl, rfl⟩) h _ _ _

namespace Ensures

variable {E : Err → Sess → Shared → Prop} {l : Sess} {s : Shared}

/-- `replayKey`: the stored answer to the same request, or a conflict. -/
theorem replayKey {k hash : String} {Q : ResponseBody → Sess → Shared → Prop}
    (h : ∀ s₁ body, Γ.After l s s₁ → Stored s₁.db k hash body → Q body l s₁)
    (herr : ∀ s₁, Γ.After l s s₁ → (∀ body, ¬ Stored s₁.db k hash body) →
      E .idempotencyConflict l s₁) :
    Ensures Γ c (CafePos.replayKey k hash) Q E l s := by
  refine bind (select fun s₁ hs₁ _ => ?_)
  simp only [Query.answer]
  split
  · rename_i hnone
    refine throw (herr s₁ hs₁ ?_)
    rintro body ⟨row, hrow, -⟩
    rw [hnone] at hrow
    cases hrow
  · rename_i stored hstored
    split
    · rename_i hhash
      split
      · rename_i hbody
        refine throw (herr s₁ hs₁ ?_)
        rintro body ⟨row, hrow, -, hb⟩
        obtain rfl := Option.some.inj (hstored.symm.trans hrow)
        rw [hbody] at hb
        cases hb
      · rename_i body hbody
        exact pure (h s₁ body hs₁ ⟨stored, hstored, hhash, hbody⟩)
    · rename_i hhash
      refine throw (herr s₁ hs₁ ?_)
      rintro body ⟨row, hrow, hh, -⟩
      obtain rfl := Option.some.inj (hstored.symm.trans hrow)
      exact hhash hh

end Ensures

/-- How `OrdersService.create` may answer. -/
def OrderAnswered (cfg : Config) (principal : Principal) (input : CreateOrderInput)
    (key : Option String) (created : OrderCreated) (l : Sess) (s : Shared) : Prop :=
  (created.replayed = false ∧ (∃ ws, l = closed ws ∧ Unpaying ws) ∧
    ∀ k, key = some k → Stored s.db k (orderHash cfg principal input) created.order) ∨
  (created.replayed = true ∧ l = idle ∧
    ∃ k, key = some k ∧ Stored s.db k (orderHash cfg principal input) created.order)

/-- How it may fail: nothing was committed, and the key was free or stands for something
else. -/
def OrderRefused (key : Option String) (e : Err) (l : Sess) (s : Shared) : Prop :=
  l = idle ∧ ∀ k, key = some k →
    e = .idempotencyConflict ∨ s.db.idempotencyKeys.get k = none

/-- `OrdersService.create`. -/
theorem create_ensures {principal : Principal} {input : CreateOrderInput} {key : Option String}
    {s : Shared} :
    Ensures Γ (.createOrder principal input key) (create cfg principal input key)
      (OrderAnswered cfg principal input key) (OrderRefused key) idle s := by
  cases key with
  | none =>
    refine .bind (.transaction fun s₁ hs₁ => .build hs₁.inv rfl (by simp [opened, idle, machine])
      ?_ ?_)
    · intro s₂ l' view hs₂ hplaced s₃ hs₃ _
      obtain ⟨channel, catalog, priced, now, id, row, n, hpriced, hrow, hn, hfree, hadds, rfl⟩ :=
        hplaced.after hs₃
      have hc : Commits cfg Γ.permit (.createOrder principal input none) s₃
          (underKey none 0 (.order (toView id row priced))
            (createWrites principal input priced id row n)) :=
        .create (fun _ h => by cases h) hpriced hn hrow hfree
      exact ⟨_, hadds, hc, .pure (Or.inl ⟨rfl, ⟨_, rfl, unpaying_create⟩, fun _ h => by cases h⟩)⟩
    · exact fun s₂ l' ws e hs₂ hadds _ => ⟨⟨ws, hadds⟩, fun s₃ _ => ⟨rfl, fun _ h => by cases h⟩⟩
  | some k =>
    -- what is thrown after the key was reserved leaves it free; what finds it taken replays
    refine .tryCatch (.bind (.transaction fun s₁ hs₁ => .bind (.bind (.now fun s₂ now hs₂ =>
      .pure ?_))))
    refine .bind (.reserveKey rfl rfl ?_ ?_)
    · intro s₃ l₁ hs₃ hkey hadds₁
      have hlog₁ : l₁.log = [.key k ⟨orderHash cfg principal input, none, none, _⟩] := hadds₁.log
      have hfree : ∀ {s₄ : Shared}, Γ.After l₁ s₃ s₄ → s₄.db.idempotencyKeys.get k = none :=
        fun hs₄ => (Context.kept_key hs₄ (by rw [hlog₁]; exact List.mem_singleton.mpr rfl)).trans
          hkey
      refine .bind (.build hs₃.inv hadds₁.active (by simp [hlog₁]) ?_ ?_)
      · intro s₄ l₂ view hs₄ hplaced
        obtain ⟨_, _, priced, _, id, row, n, -, -, -, -, hadds₂, -⟩ := id hplaced
        have hlog₂ := (hadds₁.trans hadds₂).log
        refine .bind (.completeKey hadds₂.active (view_reserved hlog₂ createWrites_not_key)
          fun s₅ l₃ hs₅ hadds₃ => .pure fun s₆ hs₆ _ => ?_)
        have hs₄₆ : Γ.After l₂ s₄ s₆ := hs₅.trans (hadds₃.after hs₆)
        obtain ⟨channel, catalog, priced, now, id, row, n, hpriced, hrow, hn, hfree', hadds₂, rfl⟩ :=
          hplaced.after hs₄₆
        have hadds : Adds opened l₃ (underKey (some (k, orderHash cfg principal input)) _
            (.order (toView id row priced)) (createWrites principal input priced id row n)) :=
          (hadds₁.trans hadds₂).trans hadds₃
        refine ⟨_, hadds, .create ?_ hpriced hn hrow hfree',
          .pure (Or.inl ⟨rfl, ⟨_, rfl, unpaying_create.underKey _ _ _⟩, ?_⟩)⟩
        · rintro r hr
          obtain rfl := Option.some.inj hr
          exact hfree (hs₄.trans (hadds₂.after hs₄₆))
        · rintro k' hk'
          obtain rfl := Option.some.inj hk'
          exact stored_commit createWrites_not_key ..
      · intro s₄ l₂ ws e hs₄ hadds₂ hne
        refine ⟨⟨_, hadds₁.trans hadds₂⟩, fun s₅ hs₅ => ?_⟩
        have hcatch : isKeyAlreadyReserved e = false := by simpa [isKeyAlreadyReserved] using hne
        simp only [hcatch, Bool.false_eq_true, if_false]
        refine .throw ⟨rfl, fun k' hk' => Or.inr ?_⟩
        obtain rfl := Option.some.inj hk'
        exact hfree (hs₄.trans (hadds₂.after hs₅))
    · intro s₃ l₁ row hs₃ hkey hadds₁
      refine ⟨⟨_, hadds₁⟩, fun s₄ hs₄ => ?_⟩
      refine .bind (.replayKey ?_ ?_)
      · intro s₅ body hs₅ hstored
        exact .pure (Or.inr ⟨rfl, rfl, k, rfl, hstored⟩)
      · intro s₅ hs₅ _
        exact ⟨rfl, fun _ _ => Or.inl rfl⟩

/-! ## Moving an order -/

/-- A door that announces what it committed, and commits nothing when it fails. -/
def Announced {α : Type} (_ : α) (l : Sess) (_ : Shared) : Prop :=
  Announces l.published l.committed

/-- A door that failed has committed nothing. -/
def Untouched (_ : Err) (l : Sess) (_ : Shared) : Prop := l = idle

/-- A move to anything but `PAID` pays for nothing. -/
theorem unpaying_move {r : TransitionRequest} {row : Order} (h : r.target ≠ .paid) :
    Unpaying (moveWrites r row) :=
  forall_moveWrites (fun _ => ⟨rfl, rfl⟩)
    fun _ => by simp [Write.isPaidRow, Write.isCapture, TransitionRequest.history, h]

theorem Unpaying.append {ws ws' : List Write} (h : Unpaying ws) (h' : Unpaying ws') :
    Unpaying (ws ++ ws') := List.forall_mem_append.mpr ⟨h, h'⟩

/-- What the open transaction sees of the database before it has written anything. -/
theorem view_opened (db : Db) : opened.view store db = db := rfl

/-- `CheckoutOrderService.checkout`. -/
theorem checkout_ensures {principal : Principal} {orderId : Id} {s : Shared} :
    Ensures Γ (.checkout principal orderId) (checkout cfg principal orderId) Announced Untouched
      idle s := by
  refine .transaction fun s₁ hs₁ => .bind (.selectTx fun s₂ hs₂ => ?_)
  simp only [Query.answer, view_opened]
  have hfail : ∀ {s₃ l₁ ws} {e : Err}, Adds opened l₁ ws →
      (∃ ws, Adds opened l₁ ws) ∧ ∀ s₄, Γ.After l₁ s₃ s₄ → Untouched e idle s₄ :=
    fun hadds => ⟨⟨_, hadds⟩, fun _ _ => rfl⟩
  split
  · exact .throw (hfail (.refl rfl))
  · rename_i current hcurrent
    split
    · exact .throw (hfail (.refl rfl))
    · refine .bind (.transitionOrder rfl (by simp [opened, idle, machine]) ?_
        (fun s₃ s₄ l₁ e _ _ _ _ hadds => hfail hadds))
      intro s₃ l₁ row hs₃ hrow hdraft hadds₁
      have hday : row.businessDay = current.businessDay :=
        (hs₃.rely.db.orders.rel hcurrent hrow).businessDay
      rw [← hday]
      have hlog₁ : l₁.log = moveWrites ⟨orderId, .draft, .pendingPayment, actorOf principal, none⟩
        row := hadds₁.log
      refine .bind (.nextOrderNumber hadds₁.active (by simp [hlog₁, moveWrites]) ?_)
      intro s₄ l₂ n hs₄ hn hadds₂
      refine .bind (.now fun s₅ now hs₅ => .bind (.raising (.statement hadds₂.active
        fun s₆ _ _ l₃ e hs₆ _ he hadds₃ _ => ?_)))
      have hadds₁₂ := hadds₁.trans hadds₂
      have hlog₂ : l₂.log = moveWrites ⟨orderId, .draft, .pendingPayment, actorOf principal, none⟩
        row ++ [.counter row.businessDay n] := hadds₁₂.log
      have hget : (l₂.view store s₆.db).orders.get orderId =
          some (Statement.moved row .draft .pendingPayment) := by
        rw [Session.view, hlog₂]
        exact Table.get_put_self ..
      simp only [Statement.effect, hget] at he
      split at he
      · subst he
        exact hfail (hadds₁₂.trans hadds₃)
      · subst he
        refine .pure fun s₇ hs₇ _ => ⟨_, hadds₁₂.trans hadds₃, ?_, ?_⟩
        · have hs₄₇ : Γ.After l₂ s₄ s₇ := (hs₅.trans hs₆).trans (hadds₃.after hs₇)
          have hs₃₇ : Γ.After l₁ s₃ s₇ := hs₄.trans (hadds₂.after hs₄₇)
          have hrow₇ : s₇.db.orders.get orderId = some row := by
            rw [Context.kept_order hs₃₇ (hadds₁.mem (List.mem_cons_self ..))]
            exact hrow
          refine Commits.checkout hrow₇ hdraft ?_
          rw [hn, Context.kept_lastValue hs₄₇ (hadds₂.mem (List.mem_singleton.mpr rfl))]
        · refine announces_of_unpaying ?_ (fun _ h => by cases h)
          refine ((unpaying_move (by simp)).append ?_).append ?_
          · simp [Unpaying, Write.isPaidRow, Write.isCapture]
          · simp [Unpaying, Write.isPaidRow, Write.isCapture]

/-- `OrderStatusService.transition`. -/
theorem transition_ensures {principal : Principal} {orderId : Id} {target : OrderStatus}
    {s : Shared} :
    Ensures Γ (.transition principal orderId target) (transition principal orderId target)
      Announced Untouched idle s := by
  refine .afterCommit (.transaction fun s₁ hs₁ => .bind (.selectTx fun s₂ hs₂ => ?_))
  simp only [Query.answer, view_opened]
  split
  · exact .throw ⟨⟨_, .refl rfl⟩, fun _ _ => rfl⟩
  · rename_i current hcurrent
    split
    · rename_i hstaff
      refine .bind (.transitionOrder rfl (by simp [opened, idle, machine]) ?_
        (fun s₃ s₄ l₁ e _ _ _ _ hadds => ⟨⟨_, hadds⟩, fun _ _ => rfl⟩))
      intro s₃ l₁ row hs₃ hrow hsrc hadds
      refine .pure fun s₄ hs₄ _ => ⟨_, hadds, ?_, ?_⟩
      · have hrow₄ : s₄.db.orders.get orderId = some row := by
          rw [Context.kept_order hs₄ (hadds.mem (List.mem_cons_self ..))]
          exact hrow
        have hc : Commits cfg Γ.permit (.transition principal orderId target) s₄
            (moveWrites ⟨orderId, row.status, target, actorOf principal, none⟩ row) :=
          .staff hrow₄ (by rw [hsrc]; exact hstaff)
        rw [hsrc] at hc
        exact hc
      · have hne : target ≠ .paid := by
          rintro rfl
          revert hstaff
          cases current.status <;> decide
        have hann : Announces [if target = .ready then .orderReady orderId row.kioskDeviceId
            else .orderUpdated orderId row.kioskDeviceId] [moveWrites
              ⟨orderId, current.status, target, actorOf principal, none⟩ row] := by
          refine announces_of_unpaying (unpaying_move hne) ?_
          simp only [List.mem_singleton, forall_eq]
          split <;> exact fun _ => ⟨rfl, rfl⟩
        exact ⟨hann, fun _ _ => hann⟩
    · exact .throw ⟨⟨_, .refl rfl⟩, fun _ _ => rfl⟩

end CafePos
