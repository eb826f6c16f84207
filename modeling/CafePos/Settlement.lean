import CafePos.Ledger

/-!
# Settlement: what every committed state satisfies

`Settled` is the invariant the doors keep together: every payment is for an existing
order, for its total and in its currency; an order has been paid for exactly when it has
a `SUCCEEDED` payment, and then it has one. Two payment writes carry no guard of their
own (expiry's `CANCELLED`, the webhook's `SUCCEEDED`); they are safe because the same
transaction moved the order out of `PENDING_PAYMENT`.
-/

namespace CafePos

open Interleaving

/-! ## The state after a log -/

@[simp] theorem store_apply (w : Write) (db : Db) : store.apply w db = w.apply db := rfl

/-- What no write of a log changes, the log does not change. -/
theorem applyAll_frame {β : Type} (f : Db → β) {ws : List Write}
    (h : ∀ w ∈ ws, ∀ db, f (w.apply db) = f db) (db : Db) : f (store.applyAll ws db) = f db := by
  induction ws generalizing db with
  | nil => rfl
  | cons w ws ih =>
    rw [Store.applyAll_cons, ih (fun w' hw' => h w' (List.mem_cons_of_mem _ hw'))]
    exact h w (List.mem_cons_self ..) db

/-! A log leaves alone the tables it does not write. -/

theorem applyAll_orders {ws : List Write} (h : ∀ w ∈ ws, ∀ id row, w ≠ .order id row) (db : Db) :
    (store.applyAll ws db).orders = db.orders := by
  refine applyAll_frame Db.orders (fun w hw db => ?_) db
  cases w with
  | order id row => exact absurd rfl (h _ hw id row)
  | _ => rfl

/-- An order after a log: what it was, or what the log wrote. -/
theorem get_order_applyAll {ws : List Write} {db : Db} {id : Id} {o : Order}
    (h : (store.applyAll ws db).orders.get id = some o) :
    db.orders.get id = some o ∨ .order id o ∈ ws := by
  induction ws generalizing db with
  | nil => exact Or.inl h
  | cons w ws ih =>
    rcases ih h with h | h
    · cases w with
      | order id' o' =>
        simp only [store_apply, Write.apply, Table.get_put] at h
        split at h
        · rename_i hid
          obtain rfl := Option.some.inj h
          subst hid
          exact Or.inr (List.mem_cons_self ..)
        · exact Or.inl h
      | _ => exact Or.inl h
    · exact Or.inr (List.mem_cons_of_mem _ h)

theorem applyAll_orderItems_eq {ws : List Write} (h : ∀ w ∈ ws, ∀ row, w ≠ .orderItem row)
    (db : Db) : (store.applyAll ws db).orderItems = db.orderItems := by
  refine applyAll_frame Db.orderItems (fun w hw db => ?_) db
  cases w with
  | orderItem row => exact absurd rfl (h _ hw row)
  | _ => rfl

theorem applyAll_payments {ws : List Write} (h : ∀ w ∈ ws, ∀ id p, w ≠ .payment id p) (db : Db) :
    (store.applyAll ws db).payments = db.payments := by
  refine applyAll_frame Db.payments (fun w hw db => ?_) db
  cases w with
  | payment id p => exact absurd rfl (h _ hw id p)
  | _ => rfl

theorem applyAll_paymentEvents {ws : List Write} (h : ∀ w ∈ ws, ∀ id e, w ≠ .event id e) (db : Db) :
    (store.applyAll ws db).paymentEvents = db.paymentEvents := by
  refine applyAll_frame Db.paymentEvents (fun w hw db => ?_) db
  cases w with
  | event id e => exact absurd rfl (h _ hw id e)
  | _ => rfl

theorem applyAll_orderStatusHistory {ws : List Write} (h : ∀ w ∈ ws, ∀ row, w ≠ .history row)
    (db : Db) : (store.applyAll ws db).orderStatusHistory = db.orderStatusHistory := by
  refine applyAll_frame Db.orderStatusHistory (fun w hw db => ?_) db
  cases w with
  | history row => exact absurd rfl (h _ hw row)
  | _ => rfl

theorem applyAll_orderNumberCounters {ws : List Write} (h : ∀ w ∈ ws, ∀ day n, w ≠ .counter day n)
    (db : Db) : (store.applyAll ws db).orderNumberCounters = db.orderNumberCounters := by
  refine applyAll_frame Db.orderNumberCounters (fun w hw db => ?_) db
  cases w with
  | counter day n => exact absurd rfl (h _ hw day n)
  | _ => rfl

theorem applyAll_idempotencyKeys {ws : List Write} (h : ∀ w ∈ ws, ∀ k row, w ≠ .key k row)
    (db : Db) : (store.applyAll ws db).idempotencyKeys = db.idempotencyKeys := by
  refine applyAll_frame Db.idempotencyKeys (fun w hw db => ?_) db
  cases w with
  | key k row => exact absurd rfl (h _ hw k row)
  | _ => rfl

/-- A write to any other table leaves the keys alone. -/
theorem Write.apply_of_not_key {w : Write} (hw : ∀ k row, w ≠ .key k row) (db : Db)
    (keys : Table String IdempotencyKey) :
    w.apply { db with idempotencyKeys := keys } = { w.apply db with idempotencyKeys := keys } := by
  cases w with
  | key k row => exact absurd rfl (hw k row)
  | _ => rfl

/-- The keys after a log under a reservation. -/
def keysAfter (reservation : Option (String × String)) (expiry : Instant) (body : ResponseBody)
    (keys : Table String IdempotencyKey) : Table String IdempotencyKey :=
  match reservation with
  | none => keys
  | some (k, h) =>
    (keys.put k ⟨h, none, none, expiry⟩).put k ⟨h, some 201, some body, expiry⟩

theorem applyAll_of_not_key {ws : List Write} (hws : ∀ w ∈ ws, ∀ k row, w ≠ .key k row) (db : Db)
    (keys : Table String IdempotencyKey) :
    store.applyAll ws { db with idempotencyKeys := keys } =
      { store.applyAll ws db with idempotencyKeys := keys } := by
  induction ws generalizing db with
  | nil => rfl
  | cons w ws ih =>
    rw [Store.applyAll_cons, Store.applyAll_cons, store_apply, store_apply,
      w.apply_of_not_key (hws w (List.mem_cons_self ..))]
    exact ih (fun w' hw' => hws w' (List.mem_cons_of_mem _ hw')) _

/-- A log under a reservation does what the log does, and answers the key. -/
theorem applyAll_underKey {ws : List Write} (hws : ∀ w ∈ ws, ∀ k row, w ≠ .key k row)
    (reservation : Option (String × String)) (expiry : Instant) (body : ResponseBody) (db : Db) :
    store.applyAll (underKey reservation expiry body ws) db =
      { store.applyAll ws db with
        idempotencyKeys := keysAfter reservation expiry body db.idempotencyKeys } := by
  have hkeys : (store.applyAll ws db).idempotencyKeys = db.idempotencyKeys := by
    have h := applyAll_of_not_key hws db db.idempotencyKeys
    exact (congrArg Db.idempotencyKeys h :)
  match reservation with
  | none =>
    simp only [underKey, keysAfter]
    rw [← hkeys]
  | some (k, h) =>
    simp only [underKey, keysAfter, Store.applyAll_cons, Store.applyAll_append, store_apply,
      Store.applyAll_nil, Write.apply]
    rw [applyAll_of_not_key hws]

@[simp] theorem applyAll_orderItems (rows : List OrderItem) (ws : List Write) (db : Db) :
    store.applyAll (rows.map .orderItem ++ ws) db =
      store.applyAll ws { db with orderItems := db.orderItems ++ rows } := by
  induction rows generalizing db with
  | nil => simp
  | cons row rows ih =>
    rw [List.map_cons, List.cons_append, Store.applyAll_cons, ih]
    simp [Write.apply]

/-- After `transitionOrder`: the order moved and the history has its row. -/
@[simp] theorem applyAll_moveWrites (r : TransitionRequest) (row : Order) (ws : List Write)
    (db : Db) : store.applyAll (moveWrites r row ++ ws) db = store.applyAll ws { db with
      orders := db.orders.put r.orderId (Statement.moved row r.source r.target)
      orderStatusHistory := db.orderStatusHistory ++ [r.history] } := rfl

/-- After `persist`: the order, its lines, its opening row, and the number it claimed. -/
theorem applyAll_createWrites (principal : Principal) (input : CreateOrderInput)
    (priced : PricedOrder) (id : Id) (row : Order) (n : ℕ) (db : Db) :
    store.applyAll (createWrites principal input priced id row n) db = { db with
      orders := db.orders.put id row
      orderItems := db.orderItems ++ itemRows id priced
      orderStatusHistory := db.orderStatusHistory ++ [createdRow id row.status principal]
      orderNumberCounters := if input.draft then db.orderNumberCounters
        else db.orderNumberCounters.put row.businessDay n } := by
  rw [createWrites, Store.applyAll_append, Store.applyAll_cons, applyAll_orderItems]
  split <;> rfl

/-- `persist` does not write keys. -/
theorem createWrites_not_key {principal : Principal} {input : CreateOrderInput}
    {priced : PricedOrder} {id : Id} {row : Order} {n : ℕ} :
    ∀ w ∈ createWrites principal input priced id row n, ∀ k r, w ≠ .key k r :=
  forall_createWrites (fun _ _ h => by cases h) (fun _ _ h => by cases h)
    (fun _ _ _ h => by cases h) (fun _ _ h => by cases h)

/-- The orders after a move and writes to other tables. -/
theorem orders_moveWrites {ws : List Write} (hws : ∀ w ∈ ws, ∀ id row, w ≠ .order id row)
    (r : TransitionRequest) (row : Order) (db : Db) :
    (store.applyAll (moveWrites r row ++ ws) db).orders =
      db.orders.put r.orderId (Statement.moved row r.source r.target) := by
  rw [applyAll_moveWrites, applyAll_orders hws]

/-- After an update of a payment that is not refused by its guard. -/
theorem applyAll_settleWrites {id : Id} {p : Payment} {status : PaymentStatus}
    {method : Option PaymentMethod} {guarded : Bool} (h : guarded → p.status ≠ .succeeded)
    (ws : List Write) (db : Db) :
    store.applyAll (settleWrites id p status method guarded ++ ws) db = store.applyAll ws { db with
      payments := db.payments.put id { p with status, method := method.or p.method } } := by
  have hguard : (guarded && p.status == .succeeded) = false := by
    cases guarded
    · rfl
    · simpa using h rfl
  rw [settleWrites, hguard]
  rfl

/-- After an update that its guard refuses. -/
theorem applyAll_settleWrites_refused {id : Id} {p : Payment} {status : PaymentStatus}
    {method : Option PaymentMethod} (h : p.status = .succeeded) (ws : List Write) (db : Db) :
    store.applyAll (settleWrites id p status method true ++ ws) db = store.applyAll ws db := by
  simp [settleWrites, h]

/-- After a stamp: only the inbox may differ. -/
theorem applyAll_stampWrites (id : Id) (e : PaymentEvent) (paymentId : Option Id) (now : Instant)
    (db : Db) : ∃ events, store.applyAll (stampWrites id e paymentId now) db =
      { db with paymentEvents := events } := by
  rw [stampWrites]
  split
  · exact ⟨_, rfl⟩
  · exact ⟨db.paymentEvents, rfl⟩

/-! ## The invariant -/

/-- The payment belongs to an order, and agrees with it. -/
structure Payment.Fits (p : Payment) (o : Order) : Prop where
  amount : p.amountMinor = o.totalMinor
  currency : p.currency = o.currency
  positive : 0 < p.amountMinor
  settled : p.status = .succeeded → o.status.isSettled

/-- What every committed state satisfies. -/
structure Settled (db : Db) : Prop where
  /-- an order's total is the sum of its stored lines -/
  total : ∀ {id o}, db.orders.get id = some o → o.totalMinor = db.lineTotal id
  /-- a line belongs to an order -/
  item : ∀ i ∈ db.orderItems, ∃ o, db.orders.get i.orderId = some o
  /-- a payment belongs to an order, and agrees with it -/
  payment : ∀ {id p}, db.payments.get id = some p →
    ∃ o, db.orders.get p.orderId = some o ∧ p.Fits o
  /-- an order that was paid for has a payment that paid for it -/
  paid : ∀ {id o}, db.orders.get id = some o → o.status.isSettled →
    ∃ pid p, db.payments.get pid = some p ∧ p.orderId = id ∧ p.status = .succeeded
  /-- and only one -/
  once : ∀ {pid pid' p p'}, db.payments.get pid = some p → db.payments.get pid' = some p' →
    p.orderId = p'.orderId → p.status = .succeeded → p'.status = .succeeded → pid = pid'
  /-- an intent belongs to one payment -/
  intent : ∀ {pid pid' p p' i}, db.payments.get pid = some p → db.payments.get pid' = some p' →
    p.providerIntentId = some i → p'.providerIntentId = some i → pid = pid'

namespace Settled

theorem empty : Settled Db.empty where
  total h := by cases h
  item i hi := absurd hi List.not_mem_nil
  payment h := by cases h
  paid h := by cases h
  once h := by cases h
  intent h := by cases h

variable {db db' : Db}

/-- Nothing but orders, lines and payments matters. -/
theorem frame (h : Settled db) (horders : db'.orders = db.orders)
    (hitems : db'.orderItems = db.orderItems) (hpayments : db'.payments = db.payments) :
    Settled db' := by
  have htotal : db'.lineTotal = db.lineTotal := by
    funext id
    simp only [Db.lineTotal, Db.itemsOf, hitems]
  obtain ⟨h₁, h₂, h₃, h₄, h₅, h₆⟩ := h
  rw [← horders, ← hitems, ← hpayments] at *
  rw [← htotal] at h₁
  exact ⟨h₁, h₂, h₃, h₄, h₅, h₆⟩

/-- The payments of an order that has not been paid for have not succeeded. -/
theorem not_succeeded (h : Settled db) {id : Id} {p : Payment} {o : Order}
    (hp : db.payments.get id = some p) (ho : db.orders.get p.orderId = some o)
    (hs : ¬ o.status.isSettled) : p.status ≠ .succeeded := by
  intro hsucc
  obtain ⟨o', ho', hfits⟩ := h.payment hp
  obtain rfl := Option.some.inj (ho.symm.trans ho')
  exact hs (hfits.settled hsucc)

/-- A new order, with its lines. -/
theorem create (h : Settled db) {id : Id} {row : Order} {items : List OrderItem}
    (hfree : db.orders.get id = none) (horders : db'.orders = db.orders.put id row)
    (hitems : db'.orderItems = db.orderItems ++ items) (hpayments : db'.payments = db.payments)
    (hmine : ∀ i ∈ items, i.orderId = id)
    (htotal : row.totalMinor = (items.map OrderItem.lineTotalMinor).sum)
    (hnew : ¬ row.status.isSettled) : Settled db' := by
  have hother : ∀ i ∈ db.orderItems, i.orderId ≠ id := by
    intro i hi hid
    obtain ⟨o, ho⟩ := h.item i hi
    rw [hid, hfree] at ho
    cases ho
  have hlines : ∀ x, db'.lineTotal x = if x = id then row.totalMinor else db.lineTotal x := by
    intro x
    simp only [Db.lineTotal, Db.itemsOf, hitems, List.filter_append]
    by_cases hx : x = id
    · subst hx
      have h₁ : db.orderItems.filter (fun i => i.orderId == x) = [] := by
        simpa using hother
      have h₂ : items.filter (fun i => i.orderId == x) = items := by
        simpa using hmine
      rw [h₁, h₂, if_pos rfl, htotal, List.nil_append]
    · have h₂ : items.filter (fun i => i.orderId == x) = [] := by
        simp only [List.filter_eq_nil_iff, beq_iff_eq]
        exact fun i hi hix => hx (hix.symm.trans (hmine i hi))
      rw [h₂, if_neg hx, List.append_nil]
  have hget : ∀ {x o}, db.orders.get x = some o → db'.orders.get x = some o := by
    intro x o ho
    have hx : x ≠ id := fun hx => by rw [hx, hfree] at ho; cases ho
    rw [horders, Table.get_put_ne _ _ hx]
    exact ho
  refine ⟨?_, ?_, ?_, ?_, ?_, ?_⟩
  · intro x o ho
    rw [hlines]
    rw [horders, Table.get_put] at ho
    split at ho
    · rename_i hx
      obtain rfl := Option.some.inj ho
      rw [if_pos hx]
    · rename_i hx
      rw [if_neg hx]
      exact h.total ho
  · intro i hi
    rw [hitems] at hi
    rcases List.mem_append.mp hi with hi | hi
    · obtain ⟨o, ho⟩ := h.item i hi
      exact ⟨o, hget ho⟩
    · exact ⟨row, by rw [horders, hmine i hi, Table.get_put_self]⟩
  · intro pid p hp
    rw [hpayments] at hp
    obtain ⟨o, ho, hfits⟩ := h.payment hp
    exact ⟨o, hget ho, hfits⟩
  · intro x o ho hs
    rw [horders, Table.get_put] at ho
    split at ho
    · obtain rfl := Option.some.inj ho
      exact absurd hs hnew
    · rw [hpayments]
      exact h.paid ho hs
  · rw [hpayments]
    exact h.once
  · rw [hpayments]
    exact h.intent

/-- An order moves without being paid for or losing what paid for it. -/
theorem move (h : Settled db) {id : Id} {row row' : Order} (hrow : db.orders.get id = some row)
    (horders : db'.orders = db.orders.put id row') (hitems : db'.orderItems = db.orderItems)
    (hpayments : db'.payments = db.payments) (hbill : row.Evolves row')
    (hsame : row'.status.isSettled → row.status.isSettled) : Settled db' := by
  have hlines : ∀ x, db'.lineTotal x = db.lineTotal x := by
    intro x
    simp only [Db.lineTotal, Db.itemsOf, hitems]
  have hget : ∀ {x o}, db.orders.get x = some o → ∃ o', db'.orders.get x = some o' ∧
      o.Evolves o' := by
    intro x o ho
    rw [horders]
    refine Table.Grows.put .refl (fun u hu => ?_) x o ho
    obtain rfl := Option.some.inj (hrow.symm.trans hu)
    exact hbill
  have hback : ∀ {x o'}, db'.orders.get x = some o' → ∃ o, db.orders.get x = some o ∧
      o.Evolves o' ∧ (o'.status.isSettled → o.status.isSettled) := by
    intro x o' ho'
    rw [horders, Table.get_put] at ho'
    split at ho'
    · rename_i hx
      obtain rfl := Option.some.inj ho'
      exact ⟨row, hx ▸ hrow, hbill, hsame⟩
    · exact ⟨o', ho', .refl _, fun h => h⟩
  refine ⟨?_, ?_, ?_, ?_, ?_, ?_⟩
  · intro x o' ho'
    obtain ⟨o, ho, hev, -⟩ := hback ho'
    rw [hlines, hev.totalMinor]
    exact h.total ho
  · intro i hi
    rw [hitems] at hi
    obtain ⟨o, ho⟩ := h.item i hi
    obtain ⟨o', ho', -⟩ := hget ho
    exact ⟨o', ho'⟩
  · intro pid p hp
    rw [hpayments] at hp
    obtain ⟨o, ho, hfits⟩ := h.payment hp
    obtain ⟨o', ho', hev⟩ := hget ho
    refine ⟨o', ho', ?_, ?_, hfits.positive, ?_⟩
    · rw [hev.totalMinor]
      exact hfits.amount
    · rw [hev.currency]
      exact hfits.currency
    · exact fun hs => hev.status.isSettled (hfits.settled hs)
  · intro x o' ho' hs
    obtain ⟨o, ho, -, hsame⟩ := hback ho'
    rw [hpayments]
    exact h.paid ho (hsame hs)
  · rw [hpayments]
    exact h.once
  · rw [hpayments]
    exact h.intent

/-- A payment that has not succeeded appears, or changes without succeeding. -/
theorem putUnpaid (h : Settled db) {id : Id} {p : Payment} {o : Order}
    (horders : db'.orders = db.orders) (hitems : db'.orderItems = db.orderItems)
    (hpayments : db'.payments = db.payments.put id p)
    (hold : ∀ q, db.payments.get id = some q → q.status ≠ .succeeded)
    (ho : db.orders.get p.orderId = some o) (hfits : p.Fits o) (hnew : p.status ≠ .succeeded)
    (hintent : ∀ pid q i, db.payments.get pid = some q → q.providerIntentId = some i →
      p.providerIntentId = some i → pid = id) : Settled db' := by
  have hback : ∀ {x q}, db'.payments.get x = some q → x = id ∧ q = p ∨
      db.payments.get x = some q := by
    intro x q hq
    rw [hpayments, Table.get_put] at hq
    split at hq
    · rename_i hx
      exact Or.inl ⟨hx, (Option.some.inj hq).symm⟩
    · exact Or.inr hq
  have hsucc : ∀ {x q}, db'.payments.get x = some q → q.status = .succeeded →
      db.payments.get x = some q := by
    intro x q hq hs
    rcases hback hq with ⟨-, rfl⟩ | hq
    · exact absurd hs hnew
    · exact hq
  refine ⟨?_, ?_, ?_, ?_, ?_, ?_⟩
  · intro x o ho
    rw [horders] at ho
    simp only [Db.lineTotal, Db.itemsOf, hitems]
    exact h.total ho
  · rw [horders, hitems]
    exact h.item
  · intro x q hq
    rw [horders]
    rcases hback hq with ⟨-, rfl⟩ | hq
    · exact ⟨o, ho, hfits⟩
    · exact h.payment hq
  · intro x o ho hs
    rw [horders] at ho
    obtain ⟨pid, q, hq, hqo, hqs⟩ := h.paid ho hs
    refine ⟨pid, q, ?_, hqo, hqs⟩
    have hne : pid ≠ id := fun hpid => hold q (hpid ▸ hq) hqs
    rw [hpayments, Table.get_put_ne _ _ hne]
    exact hq
  · intro pid pid' q q' hq hq' heq hs hs'
    exact h.once (hsucc hq hs) (hsucc hq' hs') heq hs hs'
  · intro pid pid' q q' i hq hq' hi hi'
    rcases hback hq with ⟨rfl, rfl⟩ | hq
    · rcases hback hq' with ⟨rfl, rfl⟩ | hq'
      · rfl
      · exact (hintent pid' q' i hq' hi' hi).symm
    · rcases hback hq' with ⟨rfl, rfl⟩ | hq'
      · exact hintent pid q i hq hi hi'
      · exact h.intent hq hq' hi hi'

/-- A pending order is paid for: its move and the payment that succeeded, at once. -/
theorem pay (h : Settled db) {id orderId : Id} {p : Payment} {row row' : Order}
    (hrow : db.orders.get orderId = some row) (hpending : row.status = .pendingPayment)
    (horders : db'.orders = db.orders.put orderId row') (hitems : db'.orderItems = db.orderItems)
    (hpayments : db'.payments = db.payments.put id p) (hbill : row.Evolves row')
    (hpaid : row'.status.isSettled) (hpo : p.orderId = orderId)
    (hamount : p.amountMinor = row.totalMinor) (hcurrency : p.currency = row.currency)
    (hpositive : 0 < p.amountMinor) (hsucc : p.status = .succeeded)
    (hold : ∀ q, db.payments.get id = some q → q.orderId = orderId)
    (hintent : ∀ pid q i, db.payments.get pid = some q → q.providerIntentId = some i →
      p.providerIntentId = some i → pid = id) : Settled db' := by
  have hunpaid : ∀ {x q}, db.payments.get x = some q → q.orderId = orderId →
      q.status ≠ .succeeded := by
    intro x q hq hqo
    refine h.not_succeeded hq (hqo ▸ hrow) ?_
    rw [hpending]
    decide
  -- first the payment as it stood before it succeeded, then the two changes at once
  have hback : ∀ {x q}, db'.payments.get x = some q → x = id ∧ q = p ∨
      x ≠ id ∧ db.payments.get x = some q := by
    intro x q hq
    rw [hpayments, Table.get_put] at hq
    split at hq
    · rename_i hx
      exact Or.inl ⟨hx, (Option.some.inj hq).symm⟩
    · rename_i hx
      exact Or.inr ⟨hx, hq⟩
  have hget : ∀ {x o}, db.orders.get x = some o → ∃ o', db'.orders.get x = some o' ∧
      o.Evolves o' := by
    intro x o ho
    rw [horders]
    refine Table.Grows.put .refl (fun u hu => ?_) x o ho
    obtain rfl := Option.some.inj (hrow.symm.trans hu)
    exact hbill
  have hfits : p.Fits row' := by
    refine ⟨?_, ?_, hpositive, fun _ => hpaid⟩
    · rw [hbill.totalMinor]
      exact hamount
    · rw [hbill.currency]
      exact hcurrency
  refine ⟨?_, ?_, ?_, ?_, ?_, ?_⟩
  · intro x o' ho'
    simp only [Db.lineTotal, Db.itemsOf, hitems]
    rw [horders, Table.get_put] at ho'
    split at ho'
    · rename_i hx
      obtain rfl := Option.some.inj ho'
      rw [hbill.totalMinor, hx]
      exact h.total hrow
    · exact h.total ho'
  · intro i hi
    rw [hitems] at hi
    obtain ⟨o, ho⟩ := h.item i hi
    obtain ⟨o', ho', -⟩ := hget ho
    exact ⟨o', ho'⟩
  · intro x q hq
    rcases hback hq with ⟨-, rfl⟩ | ⟨-, hq⟩
    · exact ⟨row', by rw [horders, hpo, Table.get_put_self], hfits⟩
    · obtain ⟨o, ho, hf⟩ := h.payment hq
      obtain ⟨o', ho', hev⟩ := hget ho
      refine ⟨o', ho', ?_, ?_, hf.positive, ?_⟩
      · rw [hev.totalMinor]
        exact hf.amount
      · rw [hev.currency]
        exact hf.currency
      · exact fun hs => hev.status.isSettled (hf.settled hs)
  · intro x o' ho' hs
    rw [horders, Table.get_put] at ho'
    split at ho'
    · rename_i hx
      exact ⟨id, p, by rw [hpayments, Table.get_put_self], hpo.trans hx.symm, hsucc⟩
    · rename_i hx
      obtain ⟨pid, q, hq, hqo, hqs⟩ := h.paid ho' hs
      refine ⟨pid, q, ?_, hqo, hqs⟩
      have hne : pid ≠ id := fun hpid => hx (hqo.symm.trans (hold q (hpid ▸ hq)))
      rw [hpayments, Table.get_put_ne _ _ hne]
      exact hq
  · intro pid pid' q q' hq hq' heq hs hs'
    rcases hback hq with ⟨rfl, rfl⟩ | ⟨-, hq⟩
    · rcases hback hq' with ⟨rfl, rfl⟩ | ⟨-, hq'⟩
      · rfl
      · exact absurd hs' (hunpaid hq' (heq.symm.trans hpo))
    · rcases hback hq' with ⟨rfl, rfl⟩ | ⟨-, hq'⟩
      · exact absurd hs (hunpaid hq (heq.trans hpo))
      · exact h.once hq hq' heq hs hs'
  · intro pid pid' q q' i hq hq' hi hi'
    rcases hback hq with ⟨rfl, rfl⟩ | ⟨-, hq⟩
    · rcases hback hq' with ⟨rfl, rfl⟩ | ⟨-, hq'⟩
      · rfl
      · exact (hintent pid' q' i hq' hi' hi).symm
    · rcases hback hq' with ⟨rfl, rfl⟩ | ⟨-, hq'⟩
      · exact hintent pid q i hq hi hi'
      · exact h.intent hq hq' hi hi'

end Settled

/-! ## The logs keep it -/

/-- What the unique indexes of `payments` allow: a new intent, a new key, and at most one
live payment of an order. -/
theorem paymentConflicts_eq_false {db : Db} {p : Payment} :
    Statement.paymentConflicts db p = false ↔
      (∀ i, p.providerIntentId = some i →
        ∀ id q, db.payments.get id = some q → q.providerIntentId ≠ some i) ∧
      (∀ k, p.idempotencyKey = some k →
        ∀ id q, db.payments.get id = some q → q.idempotencyKey ≠ some k) ∧
      (p.status.isLive →
        ∀ id q, db.payments.get id = some q → q.orderId = p.orderId → ¬ q.status.isLive) := by
  simp only [Statement.paymentConflicts, Bool.not_eq_false', List.isEmpty_iff,
    Table.select_eq_nil, Bool.or_eq_false_iff, Bool.and_eq_false_imp, beq_eq_false_iff_ne,
    Bool.and_eq_true]
  constructor
  · intro h
    refine ⟨fun i hi id q hq hqi => ?_, fun k hk id q hq hqk => ?_, fun hl id q hq ho hql => ?_⟩
    · exact (h id q hq).1.1 (by rw [hqi]; rfl) (hqi.trans hi.symm)
    · exact (h id q hq).1.2 (by rw [hqk]; rfl) (hqk.trans hk.symm)
    · exact (h id q hq).2 ⟨hl, hql⟩ ho
  · rintro ⟨hi, hk, hl⟩ id q hq
    refine ⟨⟨fun hs heq => ?_, fun hs heq => ?_⟩, fun hboth ho => ?_⟩
    · obtain ⟨i, hqi⟩ := Option.isSome_iff_exists.mp hs
      exact hi i (heq.symm.trans hqi) id q hq hqi
    · obtain ⟨k, hqk⟩ := Option.isSome_iff_exists.mp hs
      exact hk k (heq.symm.trans hqk) id q hq hqk
    · exact hl hboth.1 id q hq ho hboth.2

/-- The stamp of an event is nobody else's business. -/
theorem Settled.stamp {db : Db} (h : Settled db) (id : Id) (e : PaymentEvent)
    (paymentId : Option Id) (now : Instant) :
    Settled (store.applyAll (stampWrites id e paymentId now) db) := by
  obtain ⟨events, heq⟩ := applyAll_stampWrites id e paymentId now db
  rw [heq]
  exact h.frame rfl rfl rfl

/-- A payment that has not succeeded takes another status than `SUCCEEDED`. -/
theorem Settled.settle {db : Db} (h : Settled db) {id : Id} {p : Payment} {status : PaymentStatus}
    {method : Option PaymentMethod} {guarded : Bool} (hp : db.payments.get id = some p)
    (hstatus : status ≠ .succeeded) (hold : guarded ∨ p.status ≠ .succeeded) :
    Settled (store.applyAll (settleWrites id p status method guarded) db) := by
  by_cases hs : p.status = .succeeded
  · obtain rfl : guarded = true := hold.resolve_right (fun h => h hs)
    rw [← List.append_nil (settleWrites ..), applyAll_settleWrites_refused hs]
    exact h
  · rw [← List.append_nil (settleWrites ..), applyAll_settleWrites (fun _ => hs)]
    obtain ⟨o, ho, hfits⟩ := h.payment hp
    refine h.putUnpaid rfl rfl rfl ?_ ho ?_ hstatus ?_
    · intro q hq
      obtain rfl := Option.some.inj (hp.symm.trans hq)
      exact hs
    · exact ⟨hfits.amount, hfits.currency, hfits.positive, fun hs => absurd hs hstatus⟩
    · exact fun pid q i hq hqi hpi => h.intent hq hp hqi hpi

/-- The source of a closing move has not been paid for, and neither has its target. -/
theorem Closes.unsettled {c : Call} {r : TransitionRequest} {guarded : Bool}
    (h : Closes c r guarded) :
    ¬ r.source.isSettled ∧ ¬ r.target.isSettled ∧ isLegalTransition r.source r.target := by
  cases h with
  | cancel hs =>
    rcases List.mem_pair.mp hs with rfl | rfl
    · exact ⟨Bool.false_ne_true, Bool.false_ne_true, rfl⟩
    · exact ⟨Bool.false_ne_true, Bool.false_ne_true, rfl⟩
  | expire => exact ⟨Bool.false_ne_true, Bool.false_ne_true, rfl⟩

/-- **The doors keep the books**: every log a call can commit leads from a settled state
to a settled state. -/
theorem Commits.settled {cfg : Config} {P : PosPermit} {c : Call} {s : Shared} {ws : List Write}
    (hc : Commits cfg P c s ws) (h : Settled s.db) : Settled (store.applyAll ws s.db) := by
  cases hc with
  | create hkey hpriced hn hrow hfree =>
    rw [applyAll_underKey createWrites_not_key, applyAll_createWrites]
    subst hrow
    refine h.create hfree rfl rfl rfl ?_ ?_ ?_
    · intro i hi
      obtain ⟨line, -, rfl⟩ := List.mem_map.mp hi
      rfl
    · rw [itemRows, List.map_map]
      exact priceOrder_total hpriced
    · simp only [orderRow]
      split <;> exact Bool.false_ne_true
  | checkout hrow hdraft hn =>
    refine h.move hrow (Table.put_put ..) rfl rfl ⟨rfl, ?_⟩ ?_
    · rw [hdraft]
      exact (by decide : OrderStatus.draft.Leads .pendingPayment)
    · exact fun hs => absurd hs Bool.false_ne_true
  | cash hm ht hle hkey hrow hpending hp hfree hconf hstore =>
    subst hp
    rw [applyAll_underKey (by simp [moveWrites])]
    refine h.pay hrow hpending rfl rfl rfl (.moved hpending .pay) rfl rfl rfl rfl ?_ rfl
      ?_ ?_
    · simp only [Payment.storable, Bool.and_eq_true, decide_eq_true_eq] at hstore
      exact hstore.2
    · intro q hq
      rw [hfree] at hq
      cases hq
    · intro pid q i hq hqi hpi
      exact absurd hqi ((paymentConflicts_eq_false.mp hconf).1 i hpi pid q hq)
  | openPayment hm hkey hrow hmine hp hopened hfree hconf hstore =>
    subst hp
    rw [applyAll_underKey (by simp)]
    refine h.putUnpaid rfl rfl rfl ?_ hrow ⟨rfl, rfl, ?_, fun hs => by cases hs⟩ (by simp [gatewayRow]) ?_
    · intro q hq
      rw [hfree] at hq
      cases hq
    · simp only [Payment.storable, Bool.and_eq_true, decide_eq_true_eq] at hstore
      exact hstore.2
    · intro pid q i hq hqi hpi
      exact absurd hqi ((paymentConflicts_eq_false.mp hconf).1 i hpi pid q hq)
  | record hfree hnew => exact h.frame rfl rfl rfl
  | skip he hnone hwhy => exact h.stamp ..
  | markPayment he hno hp hstatus =>
    rw [Store.applyAll_append]
    refine (h.settle hp ?_ (Or.inl rfl)).stamp ..
    rcases hstatus with rfl | rfl <;> decide
  | markPaid he hp hcap hrow hpending =>
    rw [applyAll_moveWrites, applyAll_settleWrites (fun h => absurd h Bool.false_ne_true)]
    refine Settled.stamp ?_ ..
    obtain ⟨o, ho, hfits⟩ := h.payment hp
    obtain rfl := Option.some.inj (hrow.symm.trans ho)
    refine h.pay hrow hpending rfl rfl rfl (.moved hpending .pay) rfl rfl hfits.amount
      hfits.currency hfits.positive rfl ?_ ?_
    · intro q hq
      obtain rfl := Option.some.inj (hp.symm.trans hq)
      rfl
    · exact fun pid q i hq hqi hpi => h.intent hq hp hqi hpi
  | @close _ _ r guarded row live hcl hrow hsrc hlive =>
    obtain ⟨hns, hnt, hlegal⟩ := hcl.unsettled
    have hmove : Settled (store.applyAll (moveWrites r row) s.db) :=
      h.move hrow rfl rfl rfl (.moved hsrc (.of_isLegalTransition hlegal))
        (fun hs => absurd hs hnt)
    rw [Store.applyAll_append]
    cases live with
    | none => exact hmove
    | some q =>
      obtain ⟨hp, hpo, -⟩ := hlive q rfl
      refine hmove.settle hp (by decide) (Or.inr ?_)
      refine h.not_succeeded hp (hpo ▸ hrow) ?_
      rw [hsrc]
      exact hns
  | staff hrow hstaff =>
    refine h.move hrow rfl rfl rfl (.moved rfl ?_) ?_
    · exact .of_isLegalTransition (isLegalTransition_of_isStaffTransition hstaff)
    · exact fun _ => (isSettled_of_isStaffTransition hstaff).1
  | refundPart hp hs hpos hlt => exact h.frame rfl rfl rfl
  | refundAll hp hs hpos hall hrow =>
    obtain ⟨o, ho, hfits⟩ := h.payment hp
    obtain rfl := Option.some.inj (hrow.symm.trans ho)
    have hsettled := hfits.settled hs
    exact h.move hrow rfl rfl rfl (.moved rfl (.refunded hsettled)) (fun _ => hsettled)

/-! ## The logs only move forward -/

namespace Db.Grows

variable {db : Db}

/-- An order row is put that is new, or a later image of the one there. -/
theorem putOrder {id : Id} {row : Order} (h : ∀ o, db.orders.get id = some o → o.Evolves row)
    {items : List OrderItem} {history : List HistoryRow} {counters : Table String ℕ}
    {refunds : List Refund} :
    db.Grows { db with
      orders := db.orders.put id row, orderItems := items, orderStatusHistory := history
      orderNumberCounters := counters, refunds } :=
  ⟨.put .refl h, .refl .refl _, .refl .refl _, .refl Eq.refl _⟩

/-- A payment row is put that is new, or a later image of the one there. -/
theorem putPayment {id : Id} {p : Payment}
    (h : ∀ q, db.payments.get id = some q → q.Evolves p) :
    db.Grows { db with payments := db.payments.put id p } :=
  ⟨.refl .refl _, .put .refl h, .refl .refl _, .refl Eq.refl _⟩

/-- An event row is put that is new, or a later image of the one there. -/
theorem putEvent {id : Id} {e : PaymentEvent}
    (h : ∀ e', db.paymentEvents.get id = some e' → e'.Evolves e) :
    db.Grows { db with paymentEvents := db.paymentEvents.put id e } :=
  ⟨.refl .refl _, .refl .refl _, .put .refl h, .refl Eq.refl _⟩

/-- Answering a free key rewrites no key. -/
theorem underKey {db' : Db} (h : db.Grows db') {reservation : Option (String × String)}
    (hfree : KeyFree db reservation) (expiry : Instant) (body : ResponseBody) :
    db.Grows { db' with
      idempotencyKeys := keysAfter reservation expiry body db.idempotencyKeys } := by
  refine ⟨h.orders, h.payments, h.paymentEvents, ?_⟩
  match reservation, hfree with
  | none, _ => exact .refl Eq.refl _
  | some (k, hash), hfree =>
    rw [keysAfter, Table.put_put]
    refine .put Eq.refl fun u hu => ?_
    rw [hfree _ rfl] at hu
    cases hu

/-- A payment takes another status, unless it has succeeded. -/
theorem settle {id : Id} {p : Payment} {status : PaymentStatus} {method : Option PaymentMethod}
    {guarded : Bool} (hp : db.payments.get id = some p)
    (h : guarded ∨ p.status ≠ .succeeded) :
    db.Grows (store.applyAll (settleWrites id p status method guarded) db) := by
  rw [← List.append_nil (settleWrites ..)]
  by_cases hg : guarded ∧ p.status = .succeeded
  · obtain ⟨rfl, hs⟩ := hg
    rw [applyAll_settleWrites_refused hs]
    exact .refl _
  · rw [applyAll_settleWrites (fun h hs => hg ⟨h, hs⟩)]
    refine putPayment fun q hq => ?_
    obtain rfl := Option.some.inj (hp.symm.trans hq)
    refine ⟨rfl, fun hs => ?_⟩
    rcases h with h | h
    · exact absurd ⟨h, hs⟩ hg
    · exact absurd hs h

theorem stamp {id : Id} {e : PaymentEvent} (he : db.paymentEvents.get id = some e)
    (paymentId : Option Id) (now : Instant) :
    db.Grows (store.applyAll (stampWrites id e paymentId now) db) := by
  rw [stampWrites]
  split
  · rename_i hnone
    refine putEvent fun e' he' => ?_
    obtain rfl := Option.some.inj (he.symm.trans he')
    refine ⟨rfl, rfl, rfl, fun hs => ?_⟩
    rw [Option.isNone_iff_eq_none] at hnone
    rw [hnone] at hs
    cases hs
  · exact .refl _

end Db.Grows

/-- Every log a call can commit in a settled state moves the database forward. -/
theorem Commits.grows {cfg : Config} {P : PosPermit} {c : Call} {s : Shared} {ws : List Write}
    (hc : Commits cfg P c s ws) (h : Settled s.db) : s.db.Grows (store.applyAll ws s.db) := by
  cases hc with
  | create hkey hpriced hn hrow hfree =>
    rw [applyAll_underKey createWrites_not_key, applyAll_createWrites]
    refine Db.Grows.underKey (.putOrder fun o ho => ?_) hkey _ _
    rw [hfree] at ho
    cases ho
  | checkout hrow hdraft hn =>
    rw [applyAll_moveWrites, Store.applyAll_cons, Store.applyAll_cons, Store.applyAll_nil]
    simp only [store_apply, Write.apply, Table.put_put]
    refine .putOrder fun o ho => ?_
    obtain rfl := Option.some.inj (hrow.symm.trans ho)
    refine ⟨rfl, ?_⟩
    rw [hdraft]
    exact (by decide : OrderStatus.draft.Leads .pendingPayment)
  | cash hm ht hle hkey hrow hpending hp hfree hconf hstore =>
    rw [applyAll_underKey (by simp [moveWrites])]
    refine Db.Grows.underKey ?_ hkey _ _
    refine Db.Grows.trans (.putPayment fun q hq => ?_) (.putOrder fun o ho => ?_)
    · rw [hfree] at hq
      cases hq
    · obtain rfl := Option.some.inj (hrow.symm.trans ho)
      exact .moved hpending .pay
  | openPayment hm hkey hrow hmine hp hopened hfree hconf hstore =>
    rw [applyAll_underKey (by simp)]
    refine Db.Grows.underKey (.putPayment fun q hq => ?_) hkey _ _
    rw [hfree] at hq
    cases hq
  | record hfree hnew =>
    refine .putEvent fun e he => ?_
    rw [hfree] at he
    cases he
  | skip he hnone hwhy => exact .stamp he _ _
  | markPayment he hno hp hstatus =>
    rw [Store.applyAll_append]
    refine (Db.Grows.settle hp (Or.inl rfl)).trans (.stamp ?_ _ _)
    rw [settleWrites]
    split <;> exact he
  | markPaid he hp hcap hrow hpending =>
    rw [applyAll_moveWrites, applyAll_settleWrites (fun h => absurd h Bool.false_ne_true)]
    refine Db.Grows.trans (.putOrder fun o ho => ?_)
      (Db.Grows.trans (.putPayment fun q hq => ?_) (.stamp ?_ _ _))
    · obtain rfl := Option.some.inj (hrow.symm.trans ho)
      exact .moved hpending .pay
    · obtain rfl := Option.some.inj (hp.symm.trans hq)
      exact ⟨rfl, fun _ => rfl⟩
    · exact he
  | @close _ _ r guarded row live hcl hrow hsrc hlive =>
    obtain ⟨hns, hnt, hlegal⟩ := hcl.unsettled
    have hmove : s.db.Grows (store.applyAll (moveWrites r row) s.db) := by
      refine .putOrder fun o ho => ?_
      obtain rfl := Option.some.inj (hrow.symm.trans ho)
      exact .moved hsrc (.of_isLegalTransition hlegal)
    rw [Store.applyAll_append]
    cases live with
    | none => exact hmove
    | some q =>
      obtain ⟨hp, hpo, -⟩ := hlive q rfl
      refine hmove.trans (.settle hp (Or.inr ?_))
      refine h.not_succeeded hp (hpo ▸ hrow) ?_
      rw [hsrc]
      exact hns
  | staff hrow hstaff =>
    refine .putOrder fun o ho => ?_
    obtain rfl := Option.some.inj (hrow.symm.trans ho)
    exact .moved rfl (.of_isLegalTransition (isLegalTransition_of_isStaffTransition hstaff))
  | refundPart hp hs hpos hlt => exact ⟨.refl .refl _, .refl .refl _, .refl .refl _, .refl Eq.refl _⟩
  | refundAll hp hs hpos hall hrow =>
    refine .putOrder fun o ho => ?_
    obtain rfl := Option.some.inj (hrow.symm.trans ho)
    obtain ⟨o', ho', hfits⟩ := h.payment hp
    obtain rfl := Option.some.inj (hrow.symm.trans ho')
    exact .moved rfl (.refunded (hfits.settled hs))

end CafePos
