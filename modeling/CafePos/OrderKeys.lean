import CafePos.Interleaving.Alone
import CafePos.KeySteps
import CafePos.QueueNumbers

/-!
# Order idempotency

`OrdersService.create` reserves its key, does the work and stores the response in one
transaction, and replays outside it. However many calls carry one key, in whatever
interleaving: at most one order is committed under it; whoever is answered without an error
is answered with what is stored; whoever asked for something else is refused and has written
nothing; and a call that is refused for its own contents leaves the key free.
-/

namespace CafePos

open Interleaving

variable {cfg : Config}

/-! ## One order a key -/

/-- The write is an order's row. -/
def Write.isOrder : Write → Bool
  | .order _ _ => true
  | _ => false

/-- How many orders a log of an `OrdersService.create` call under the key creates. -/
def ordersIn (k : String) (c : Call) (ws : List Write) : ℕ :=
  match c with
  | .createOrder _ _ (some k') => if k' = k then ws.countP Write.isOrder else 0
  | _ => 0

/-- How many orders were committed under the key. -/
def ordersUnder (w : PosWorld) (k : String) : ℕ := committedTotal w (ordersIn k)

theorem ordersIn_eq_zero {k : String} {c : Call} (h : c.key ≠ some k) (ws : List Write) :
    ordersIn k c ws = 0 := by
  cases c with
  | createOrder principal input key =>
    cases key with
    | none => rfl
    | some k' => exact if_neg fun hk => h (congrArg some hk)
  | _ => rfl

/-- A creation writes one order. -/
theorem countP_createWrites (principal : Principal) (input : CreateOrderInput)
    (priced : PricedOrder) (id : Id) (row : Order) (n : ℕ) :
    (createWrites principal input priced id row n).countP Write.isOrder = 1 := by
  have hcounter : (if input.draft then [] else [Write.counter row.businessDay n]).countP
      Write.isOrder = 0 := by
    split <;> rfl
  have hitems : ((itemRows id priced).map Write.orderItem).countP Write.isOrder = 0 := by
    refine List.countP_eq_zero.mpr fun w hw hf => ?_
    obtain ⟨item, -, rfl⟩ := List.mem_map.mp hw
    cases hf
  rw [createWrites, List.countP_append, List.countP_cons, List.countP_append, hcounter, hitems]
  rfl

/-- So does the whole log under a key. -/
theorem ordersIn_answers {c : Call} {k hash : String} {body : ResponseBody} {ws : List Write}
    (h : AnswersKey cfg c k hash body ws) (expiry : Instant) :
    ordersIn k c (underKey (some (k, hash)) expiry body ws) ≤ 1 := by
  cases h with
  | order =>
    simp only [ordersIn, underKey, List.countP_cons, List.countP_append, countP_createWrites,
      List.countP_nil, Write.isOrder]
    simp
  | payment => exact Nat.zero_le _

/-- At most one order is committed under a key, and none while the key is free. -/
theorem Reachable.ordersUnder_le {w : PosWorld} (h : Reachable cfg w) (k : String) :
    ordersUnder w k ≤ if (w.shared.db.idempotencyKeys.get k).isSome then 1 else 0 := by
  refine h.committedTotal_invariant
    (J := fun n db => n ≤ if (db.idempotencyKeys.get k).isSome then 1 else 0) (Nat.zero_le _) ?_
  intro c s ws n hs hn hc
  cases hc.keyStep with
  | stays hkey hws =>
    have hzero : ordersIn k c ws = 0 := ordersIn_eq_zero (by rw [hkey]; nofun) ws
    rw [hzero, applyAll_idempotencyKeys hws]
    exact hn
  | @answers k' hash expiry body ws' hkey hfree hws hans =>
    rw [applyAll_underKey hws]
    by_cases hk : k' = k
    · subst hk
      rw [hfree] at hn
      have hone := ordersIn_answers hans expiry
      simp only [keysAfter, Table.get_put_self, Option.isSome_some, if_true]
      simp only [Option.isSome_none, Bool.false_eq_true, if_false] at hn
      omega
    · have hzero : ordersIn k c (underKey (some (k', hash)) expiry body ws') = 0 :=
        ordersIn_eq_zero (by rw [hkey]; exact fun h => hk (Option.some.inj h)) _
      rw [hzero]
      simp only [keysAfter, Table.get_put_ne _ _ (fun h => hk h.symm)]
      exact hn

/-! ## What a call under a key is answered -/

/-- Whoever is answered without an error is answered with what is stored. -/
theorem Reachable.order_stored {w : PosWorld} (h : Reachable cfg w) {t : PosThread}
    {principal : Principal} {input : CreateOrderInput} {k : String} {r : Reply}
    (ht : t ∈ w.threads) (hcall : t.call = .createOrder principal input (some k))
    (ha : t.Answered (.ok r)) :
    ∃ created, r = .order created ∧
      Stored w.shared.db k (orderHash cfg principal input) created.order := by
  obtain ⟨j, hj⟩ := List.mem_iff_getElem?.mp ht
  obtain ⟨s, -, hs, hpost⟩ := h.sound.answered hj ha
  rw [hcall] at hpost
  obtain ⟨created, rfl, ⟨-, -, hstored⟩ | ⟨-, -, k', hk, hstored⟩⟩ := hpost
  · exact ⟨created, rfl, (hstored k rfl).grows hs⟩
  · obtain rfl := Option.some.inj hk
    exact ⟨created, rfl, hstored.grows hs⟩

/-- Two bodies a key stands for are one. -/
theorem Stored.unique {db : Db} {k hash hash' : String} {body body' : ResponseBody}
    (h : Stored db k hash body) (h' : Stored db k hash' body') : hash = hash' ∧ body = body' := by
  obtain ⟨row, hrow, rfl, hbody⟩ := h
  obtain ⟨row', hrow', rfl, hbody'⟩ := h'
  obtain rfl := Option.some.inj (hrow.symm.trans hrow')
  exact ⟨rfl, Option.some.inj (hbody.symm.trans hbody')⟩

/-- A call that had not answered when the key was answered to another request is refused, and
has written nothing. -/
theorem Reachable.order_conflict {w w' : PosWorld} (h : Reachable cfg w)
    (hr : Runs (system cfg) .all w w') {k : String} {row : IdempotencyKey}
    (hrow : w.shared.db.idempotencyKeys.get k = some row) {i : ℕ} {t : PosThread}
    {principal : Principal} {input : CreateOrderInput} {a : Answer}
    (ht : w'.threads[i]? = some t) (hcall : t.call = .createOrder principal input (some k))
    (hne : orderHash cfg principal input ≠ row.requestHash)
    (hlate : ∀ u b, w.threads[i]? = some u → ¬ u.Answered b) (ha : t.Answered a) :
    a = .error .idempotencyConflict ∧ t.session = idle := by
  obtain ⟨s, hbefore, -, hpost⟩ := h.answered_since hr ht ha hlate
  have hkey := hbefore.key hrow
  rw [hcall] at hpost
  -- an answer without an error would be the stored one
  have hno : ∀ body, ¬ Stored s.db k (orderHash cfg principal input) body := by
    rintro body ⟨row', hrow', hhash, -⟩
    obtain rfl := Option.some.inj (hkey.symm.trans hrow')
    exact hne hhash.symm
  cases a with
  | ok r =>
    obtain ⟨created, -, ⟨-, -, hstored⟩ | ⟨-, -, k', hk, hstored⟩⟩ := hpost
    · exact absurd (hstored k rfl) (hno _)
    · obtain rfl := Option.some.inj hk
      exact absurd hstored (hno _)
  | error e =>
    obtain ⟨hidle, hwhy⟩ := hpost
    rcases hwhy k rfl with rfl | hfree
    · exact ⟨rfl, hidle⟩
    · rw [hkey] at hfree
      cases hfree

/-! ## A free key can be used -/

/-- Door `m`, run alone from session `l` in state `s`, returns `a`. -/
def Succeeds {α : Type} (inp : Input) (m : Door α) (l : Sess) (s : Shared) (a : α) (l' : Sess)
    (s' : Shared) : Prop :=
  m.run.alone machine inp l s = some (.ok a, l', s')

namespace Succeeds

variable {α β : Type} {inp : Input} {l l₁ l₂ : Sess} {s s₁ s₂ : Shared}

theorem pure (a : α) : Succeeds inp (Pure.pure a) l s a l s := rfl

theorem bind {m : Door β} {f : β → Door α} {b : β} {a : α} (hm : Succeeds inp m l s b l₁ s₁)
    (hf : Succeeds inp (f b) l₁ s₁ a l₂ s₂) : Succeeds inp (m >>= f) l s a l₂ s₂ :=
  (Prog.alone_bind hm).trans hf

theorem map {m : Door β} {f : β → α} {b : β} (hm : Succeeds inp m l s b l₁ s₁) :
    Succeeds inp (f <$> m) l s (f b) l₁ s₁ :=
  (Prog.alone_bind hm).trans rfl

theorem tryCatch {m : Door α} {handle : Err → Door α} {a : α} (hm : Succeeds inp m l s a l₁ s₁) :
    Succeeds inp (MonadExcept.tryCatch m handle) l s a l₁ s₁ :=
  (Prog.alone_bind hm).trans rfl

theorem perform {o : Op} {r : o.Res} (h : exec inp (fun _ => false) l s o = some (r, l₁, s₁)) :
    Succeeds inp (Door.perform o) l s r l₁ s₁ := by
  change Prog.alone machine inp (.op o fun r => .done (Except.ok r : Except Err o.Res)) l s =
    some (.ok r, l₁, s₁)
  have hx : machine.exec o inp (fun _ => false) l s = some (r, l₁, s₁) := h
  rw [Prog.alone, hx]
  rfl

/-- A statement of an open transaction. -/
theorem statement (inp : Input) (st : Statement) (e : Effect Write Row st.Answer) (hl : l.active = true)
    (hid : st.idUnused inp.fresh (l.view store s.db) = true)
    (he : st.effect inp.fresh inp.now (l.view store s.db) = e) :
    ∃ l', Succeeds inp (Door.statement st) l s e.answer l' s ∧ Adds l l' e.writes := by
  subst he
  refine ⟨_, perform ?_, .push l _⟩
  simp [exec, hid, Session.execute, hl]

theorem raising {m : Door (Except SqlState α)} {a : α} (h : Succeeds inp m l s (.ok a) l₁ s₁) :
    Succeeds inp (Door.raising m) l s a l₁ s₁ :=
  h.bind (pure a)

/-- `db.transaction(work)`. -/
theorem transaction {work : Door α} {a : α} (h : Succeeds inp work l.begin s a l₁ s₁) :
    Succeeds inp (Door.transaction work) l s a (l₁.release l₁.log)
      ⟨store.applyAll l₁.log s₁.db, s₁.gateway⟩ :=
  (Prog.alone_bind h).trans rfl

end Succeeds

/-- The outside supplies what an order needs to be accepted: the channel fits the principal, a
kiosk is not paused and parks nothing, the basket is priced as expected, the amounts and
quantities fit the tables, and the generated id is new. -/
structure Acceptable (cfg : Config) (principal : Principal) (input : CreateOrderInput)
    (inp : Input) (db : Db) (priced : PricedOrder) : Prop where
  channel : input.channel = match principal with
    | .device _ => .kiosk
    | .staff _ => .counter
  device : ∀ deviceId, principal = .device deviceId →
    input.draft = false ∧ inp.device ≠ some .paused
  price : priceOrder input.items
    ((inp.menu.filter fun m => (input.items.map RequestedItem.menuItemId).contains m.id).map
      fun item =>
        { id := item.id
          name := item.name
          basePriceMinor := item.basePriceMinor
          isAvailable := item.isAvailable && item.categoryIsActive
          optionGroups := item.optionGroups }) cfg.vatBasisPoints = .ok priced
  expected : ∀ total, input.expectedTotalMinor = some total → total = priced.totalMinor
  amounts : int4 priced.subtotalMinor ∧ int4 priced.vatMinor ∧ int4 priced.totalMinor
  lines : ∀ line ∈ priced.lines, int4 line.unitPriceMinorSnapshot ∧ int4 line.lineTotalMinor ∧
    1 ≤ line.quantity ∧ line.quantity ≤ 50
  fresh : db.orders.get inp.fresh = none

theorem resolveChannel_succeeds {principal : Principal} {input : CreateOrderInput} {inp : Input}
    {db : Db} {priced : PricedOrder} (h : Acceptable cfg principal input inp db priced) (l : Sess)
    (s : Shared) : Succeeds inp (resolveChannel principal input) l s input.channel l s := by
  have hch := h.channel
  cases principal with
  | staff userId =>
    simp only [resolveChannel]
    rw [if_neg (fun hne => hne hch), hch]
    exact .pure _
  | device deviceId =>
    obtain ⟨hdraft, hpaused⟩ := h.device deviceId rfl
    simp only [resolveChannel, hdraft]
    rw [if_neg (fun hne => hne hch), if_neg Bool.false_ne_true]
    refine .bind (.perform rfl) ?_
    rw [if_neg hpaused, hch]
    exact .pure _

/-- The next number of the day is on no order yet. -/
theorem Numbered.next_free {db : Db} (h : Numbered db) (id : Id) (day : String) :
    Statement.numberTaken db id day (formatOrderNumber (db.lastValue day + 1)) = false := by
  rw [Statement.numberTaken, Bool.not_eq_false', List.isEmpty_iff, Table.select_eq_nil]
  intro id' o ho
  rw [Bool.eq_false_iff]
  intro htaken
  simp only [Bool.and_eq_true, beq_iff_eq] at htaken
  obtain ⟨⟨-, rfl⟩, hnumber⟩ := htaken
  obtain ⟨n, -, hle, heq⟩ := h.listed id' o _ ho hnumber
  have hn := formatOrderNumber_injective heq
  omega

theorem claimNumber_succeeds (cfg : Config) (input : CreateOrderInput) (inp : Input) {l : Sess}
    {s : Shared} (hl : l.active = true) (hlog : ∀ w ∈ l.log, ∃ k row, w = .key k row) (now : Instant) :
    ∃ n l', Succeeds inp (claimNumber cfg input now) l s (claimed input n) l' s ∧
      (input.draft = false → n = s.db.lastValue (cfg.businessDayOf now) + 1) ∧
      Adds l l' (if input.draft then [] else [.counter (cfg.businessDayOf now) n]) := by
  have hkeys : ∀ w ∈ l.log, ∀ day n, w ≠ .counter day n := by
    rintro w hw day n rfl
    obtain ⟨k, row, h⟩ := hlog _ hw
    cases h
  rw [claimNumber]
  cases hdraft : input.draft with
  | true =>
    refine ⟨0, l, ?_, fun h => (by cases h), .refl hl⟩
    simp only [claimed, hdraft]
    exact .pure none
  | false =>
    have hst : ∃ l', Succeeds inp (Door.statement (.nextCounter (cfg.businessDayOf now))) l s
        (s.db.lastValue (cfg.businessDayOf now) + 1) l' s ∧ Adds l l'
          [.counter (cfg.businessDayOf now) (s.db.lastValue (cfg.businessDayOf now) + 1)] := by
      refine Succeeds.statement inp (.nextCounter (cfg.businessDayOf now))
        ⟨_, [.counter (cfg.businessDayOf now) _], []⟩ hl rfl ?_
      simp only [Statement.effect, Db.lastValue, view_counters hkeys]
    obtain ⟨l', hrun, hadds⟩ := hst
    refine ⟨_, l', ?_, fun _ => rfl, hadds⟩
    simp only [claimed, hdraft]
    exact .map (.bind hrun (.pure _))

/-- What a log of keys and counters looks like to the orders. -/
theorem persist_succeeds {principal : Principal} {input : CreateOrderInput} {inp : Input}
    {priced : PricedOrder} {l : Sess} {s : Shared} (hn : Numbered s.db)
    (h : Acceptable cfg principal input inp s.db priced) (hl : l.active = true)
    (hlog : ∀ w ∈ l.log, ∃ k row, w = .key k row) (channel : OrderChannel) :
    ∃ view ws l', Succeeds inp (persist cfg principal channel input priced) l s view l' s ∧
      Adds l l' ws ∧ ∀ w ∈ ws, ∀ k row, w ≠ .key k row := by
  obtain ⟨n, l₁, hclaim, hnext, hadds₁⟩ := claimNumber_succeeds (s := s) cfg input inp
    hl hlog inp.now
  have hlog₁ : ∀ w ∈ l₁.log, ∀ id row, w ≠ .order id row := by
    rintro w hw id row rfl
    rw [hadds₁.log] at hw
    rcases List.mem_append.mp hw with hw | hw
    · obtain ⟨k, row, h⟩ := hlog _ hw
      cases h
    · split at hw <;> simp at hw
  let row := orderRow cfg principal channel input priced inp.now (claimed input n)
  -- the order
  have hinsert : ∃ l', Succeeds inp (Door.statement (.insertOrder row)) l₁ s (.ok inp.fresh) l' s ∧
      Adds l₁ l' [.order inp.fresh row] := by
    have hfits : (!(int4 row.subtotalMinor && int4 row.vatMinor && int4 row.totalMinor)) = false := by
      obtain ⟨h₁, h₂, h₃⟩ := h.amounts
      simp [row, orderRow, h₁, h₂, h₃]
    have hnumber : row.orderNumber.any
        (Statement.numberTaken (l₁.view store s.db) inp.fresh row.businessDay) = false := by
      have hview : ∀ number, Statement.numberTaken (l₁.view store s.db) inp.fresh row.businessDay
          number = Statement.numberTaken s.db inp.fresh row.businessDay number :=
        fun _ => by rw [Statement.numberTaken, view_orders hlog₁, Statement.numberTaken]
      cases hdraft : input.draft with
      | true => simp [row, orderRow, claimed, hdraft]
      | false =>
        have hnumber : row.orderNumber = some (formatOrderNumber n) := by
          simp [row, orderRow, claimed, hdraft]
        rw [hnumber, Option.any_some, hview, hnext hdraft]
        exact hn.next_free inp.fresh row.businessDay
    refine Succeeds.statement inp (.insertOrder row) ⟨.ok inp.fresh, [.order inp.fresh row], []⟩
      hadds₁.active ?_ ?_
    · simp [Statement.idUnused, view_orders hlog₁, h.fresh]
    · simp only [Statement.effect, hfits, hnumber, Bool.false_eq_true, if_false]
  obtain ⟨l₂, hrun₂, hadds₂⟩ := hinsert
  -- its lines
  have hitems : ∃ l', Succeeds inp (Door.statement (.insertOrderItems (itemRows inp.fresh priced)))
      l₂ s (.ok ()) l' s ∧ Adds l₂ l' ((itemRows inp.fresh priced).map .orderItem) := by
    refine Succeeds.statement inp (.insertOrderItems (itemRows inp.fresh priced))
      ⟨.ok (), (itemRows inp.fresh priced).map .orderItem, []⟩ hadds₂.active rfl ?_
    have hamounts : (itemRows inp.fresh priced).any (fun i =>
        !(int4 i.unitPriceMinorSnapshot && int4 i.lineTotalMinor)) = false := by
      rw [List.any_eq_false]
      intro i hi
      obtain ⟨line, hline, rfl⟩ := List.mem_map.mp hi
      obtain ⟨h₁, h₂, -⟩ := h.lines line hline
      simp [h₁, h₂]
    have hquantities : (itemRows inp.fresh priced).any (fun i =>
        !(decide (1 ≤ i.quantity) && decide (i.quantity ≤ 50))) = false := by
      rw [List.any_eq_false]
      intro i hi
      obtain ⟨line, hline, rfl⟩ := List.mem_map.mp hi
      obtain ⟨-, -, h₁, h₂⟩ := h.lines line hline
      simp [h₁, h₂]
    simp only [Statement.effect, hamounts, hquantities, Bool.false_eq_true, if_false]
  obtain ⟨l₃, hrun₃, hadds₃⟩ := hitems
  obtain ⟨l₄, hrun₄, hadds₄⟩ := Succeeds.statement (s := s) inp
    (.insertHistory (createdRow inp.fresh row.status principal))
    ⟨(), [.history (createdRow inp.fresh row.status principal)], []⟩ hadds₃.active rfl rfl
  refine ⟨toView inp.fresh row priced, _, l₄, ?_,
    ((hadds₁.trans hadds₂).trans hadds₃).trans hadds₄, ?_⟩
  · refine .bind (.perform rfl) (.bind hclaim (.bind (.raising hrun₂) (.bind (.raising hrun₃)
      (.bind hrun₄ (.pure _)))))
  · intro w hw
    simp only [List.mem_append, List.mem_singleton, List.mem_map] at hw
    rcases hw with ((hw | rfl) | ⟨i, -, rfl⟩) | rfl
    · split at hw
      · cases hw
      · rw [List.mem_singleton.mp hw]
        exact fun _ _ => by simp
    · exact fun _ _ => by simp
    · exact fun _ _ => by simp
    · exact fun _ _ => by simp

theorem create_succeeds {principal : Principal} {input : CreateOrderInput} {inp : Input}
    {priced : PricedOrder} {s : Shared} {k : String} (hn : Numbered s.db)
    (h : Acceptable cfg principal input inp s.db priced)
    (hfree : s.db.idempotencyKeys.get k = none) :
    ∃ view l' s', Succeeds inp (create cfg principal input (some k)) idle s
      ⟨.order view, false⟩ l' s' := by
  obtain ⟨l₁, hrun₁, hadds₁⟩ := Succeeds.statement (s := s) inp
    (.insertKey k (orderHash cfg principal input) (inp.now + 24 * 60 * 60 * 1000))
    ⟨.ok (), [.key k ⟨orderHash cfg principal input, none, none, inp.now + 24 * 60 * 60 * 1000⟩], []⟩
    (l := opened) rfl rfl (by simp [Statement.effect, view_opened, hfree])
  have hlog₁ : ∀ w ∈ l₁.log, ∃ k row, w = .key k row := by
    rw [hadds₁.log]
    intro w hw
    exact ⟨_, _, List.mem_singleton.mp hw⟩
  obtain ⟨view, ws, l₂, hrun₂, hadds₂, hws⟩ :=
    persist_succeeds hn h hadds₁.active hlog₁ input.channel
  have hlog₂ := (hadds₁.trans hadds₂).log
  obtain ⟨l₃, hrun₃, -⟩ := Succeeds.statement (s := s) inp
    (.updateKey k 201 (.order view)) ⟨(), [.key k ⟨orderHash cfg principal input, some 201,
      some (.order view), inp.now + 24 * 60 * 60 * 1000⟩], []⟩ hadds₂.active rfl (by
        simp only [Statement.effect, view_reserved hlog₂ hws])
  have hbuild : Succeeds inp (build cfg principal input) l₁ s view l₂ s := by
    refine .bind (resolveChannel_succeeds h l₁ s) (.bind (.bind (.perform rfl) (.pure _)) ?_)
    have hexpected : (input.expectedTotalMinor.any fun total =>
        decide (total ≠ priced.totalMinor)) = false := by
      cases htotal : input.expectedTotalMinor with
      | none => rfl
      | some total => simp [h.expected total htotal]
    rw [h.price]
    simp only [hexpected]
    exact hrun₂
  refine ⟨view, _, _, .tryCatch (.bind (.transaction (.bind (.bind (.perform rfl) (.pure _)) (.bind
    (.tryCatch (.raising hrun₁)) (.bind hbuild (.bind hrun₃ (.pure view)))))) (.pure _))⟩

/-- An acceptable order is taken under a free key, if nobody holds a row. -/
theorem Reachable.may_create {w : PosWorld} (h : Reachable cfg w) {k : String}
    (hkey : w.shared.db.idempotencyKeys.get k = none)
    (hheld : ∀ t ∈ w.threads, t.session.held = []) {principal : Principal}
    {input : CreateOrderInput} {inp : Input} {priced : PricedOrder}
    (hok : Acceptable cfg principal input inp w.shared.db priced) :
    ∃ w' t view, Runs (system cfg) .all w w' ∧ t ∈ w'.threads ∧
      t.call = .createOrder principal input (some k) ∧
      t.Answered (.ok (.order ⟨.order view, false⟩)) := by
  obtain ⟨view, l', s', hrun⟩ := create_succeeds h.numbered hok hkey
  have hprogram : Succeeds inp (Reply.order <$> create cfg principal input (some k)) idle
      w.shared (.order ⟨.order view, false⟩) l' s' := .map hrun
  obtain ⟨w', t, hruns, ht, hcall, ha⟩ := Runs.start_alone (M := system cfg)
    (c := .createOrder principal input (some k)) hheld hprogram
  exact ⟨w', t, view, hruns, ht, hcall, ha⟩

/-! ## Idempotency -/

/-- **Order idempotency**, in every run: `w'` is reached from `w`.

* At most one order is committed under a key.
* A call that returns returns what is stored for its own request, so all of them return the
  same.
* If the key stood for another request in `w`, every call that had not answered by then, begun
  or not, is refused with a conflict, and no step of it changes the database.
* A call refused for anything else leaves the key free and holds nothing; if nobody else does
  either, any acceptable order may be committed under the key. -/
theorem order_idempotency {w w' : PosWorld} (h : Reachable cfg w)
    (hr : Runs (system cfg) .all w w') (k : String) :
    ordersUnder w' k ≤ 1 ∧
    (∀ t ∈ w'.threads, ∀ principal input r, t.call = .createOrder principal input (some k) →
      t.Answered (.ok r) → ∃ created, r = .order created ∧
        Stored w'.shared.db k (orderHash cfg principal input) created.order ∧
        ∀ u ∈ w'.threads, ∀ principal' input' created',
          u.call = .createOrder principal' input' (some k) →
          u.Answered (.ok (.order created')) → created'.order = created.order) ∧
    (∀ row i t principal input a, w.shared.db.idempotencyKeys.get k = some row →
      w'.threads[i]? = some t → t.call = .createOrder principal input (some k) →
      orderHash cfg principal input ≠ row.requestHash →
      (∀ u b, w.threads[i]? = some u → ¬ u.Answered b) → t.Answered a →
      a = .error .idempotencyConflict ∧ t.session.committed = [] ∧
        ∀ v v' inp, Runs (system cfg) .all opening v →
          v.act (system cfg) (.step i inp) = some v' → Runs (system cfg) .all v' w' →
          v'.shared.db = v.shared.db) ∧
    (∀ i inp v t principal input e, w'.act (system cfg) (.step i inp) = some v →
      v.threads[i]? = some t → t.call = .createOrder principal input (some k) →
      t.Answered (.error e) → e ≠ .idempotencyConflict →
      v.shared.db.idempotencyKeys.get k = none ∧ t.session.held = [] ∧
        ∀ principal' input' inp' priced, (∀ u ∈ v.threads, u.session.held = []) →
          Acceptable cfg principal' input' inp' v.shared.db priced →
          ∃ v' u view, Runs (system cfg) .all v v' ∧ u ∈ v'.threads ∧
            u.call = .createOrder principal' input' (some k) ∧
            u.Answered (.ok (.order ⟨.order view, false⟩))) := by
  have hreach : Reachable cfg w' := h.trans hr
  refine ⟨?_, ?_, ?_, ?_⟩
  · have hle := hreach.ordersUnder_le k
    split at hle <;> omega
  · intro t ht principal input r hcall ha
    obtain ⟨created, rfl, hstored⟩ := hreach.order_stored ht hcall ha
    refine ⟨created, rfl, hstored, fun u hu principal' input' created' hcall' ha' => ?_⟩
    obtain ⟨created'', heq, hstored'⟩ := hreach.order_stored hu hcall' ha'
    obtain rfl := Reply.order.inj heq
    exact (hstored'.unique hstored).2
  · intro row i t principal input a hrow ht hcall hne hlate ha
    obtain ⟨rfl, hidle⟩ := h.order_conflict hr hrow ht hcall hne hlate ha
    have hempty : t.session.committed = [] := by
      rw [hidle]
      rfl
    exact ⟨rfl, hempty, fun v v' inp _ hact hrest => step_keeps_db hact hrest ht hempty⟩
  · intro i inp v t principal input e hact ht hcall ha hne
    have hpost := hreach.answers_at hact ht ha
    rw [hcall] at hpost
    obtain ⟨hidle, hwhy⟩ := hpost
    have hfree := (hwhy k rfl).resolve_left hne
    have hv : Reachable cfg v := hreach.tail (Runs.allows_all _ _) hact
    refine ⟨hfree, by rw [hidle]; rfl, fun principal' input' inp' priced hheld hok => ?_⟩
    exact hv.may_create hfree hheld hok

/-- Staff member 7 takes an order under key `k`. -/
def takeUnderKey : List PosAct :=
  .start (.createOrder (.staff 7) oneLatte (some "k")) :: steps 0 11 (supply 100 "")

/-- Staff member 8 sends another request under it. -/
def reuseKey : List PosAct :=
  .start (.createOrder (.staff 8) oneLatte (some "k")) :: steps 1 5 (supply 101 "")

/-- The other call is the one of staff member 8. -/
def Call.reusesKey : Call → Bool
  | .createOrder (.staff 8) _ (some "k") => true
  | _ => false

theorem order_idempotency_reused : ∃ w w', Reachable cornerCafe w ∧
    Runs (system cornerCafe) .all w w' ∧ ordersUnder w' "k" ≤ 1 ∧
    ∃ t a, w'.threads[1]? = some t ∧ t.Answered a ∧ a = .error .idempotencyConflict := by
  obtain ⟨w, hw, ⟨hlen, hrow⟩, hagain⟩ := Reachable.exists_of_runIf cornerCafe takeUnderKey
    (fun w => (w.threads.length = 1 ∧ (w.shared.db.idempotencyKeys.get "k").any
      fun row => row.requestHash == "user:7") ∧
      (w.runIf (system cornerCafe) (fun _ _ => true) reuseKey).any fun w' =>
        (w'.threads[1]?).any fun t => t.returned && t.call.reusesKey) (by decide)
  simp only [Option.any_eq_true, Bool.and_eq_true, beq_iff_eq] at hrow hagain
  obtain ⟨row, hrow, hhash⟩ := hrow
  obtain ⟨w', hw', t, ht, hdone, hcall⟩ := hagain
  obtain ⟨a, ha⟩ := Thread.returned_iff.mp hdone
  have hr : Runs (system cornerCafe) .all w w' :=
    Runs.of_runIf (fun w a _ => Runs.allows_all w a) .refl hw'
  unfold Call.reusesKey at hcall
  split at hcall
  · rename_i input heq
    obtain ⟨hone, -, hconflict, -⟩ := order_idempotency hw hr "k"
    have hlate : ∀ u b, w.threads[1]? = some u → ¬ u.Answered b := by
      intro u b hu
      rw [List.getElem?_eq_none (Nat.le_of_eq hlen)] at hu
      cases hu
    have hne : orderHash cornerCafe (.staff 8) input ≠ row.requestHash := by
      rw [hhash]
      exact (by decide : scopeOf (.staff 8) ≠ "user:7")
    obtain ⟨herr, -⟩ := hconflict row 1 t _ _ a hrow ht heq hne hlate ha
    exact ⟨w, w', hw, hr, hone, t, a, ht, ha, herr⟩
  · cases hcall

end CafePos
