import CafePos.Settlement
import CafePos.Interleaving.Restricted

/-!
# What becomes of an order row

Nine doors write orders, their lines and their history, and two statements write one row: what is
said of `expires_at` and `order_number` holds of a commit and not of a statement. `OrderWrites`
lists the writes to these tables that a transaction can commit, whatever else it commits.

* `Coupled` — what the rows of an order have to do with each other;
* `RowsKept` — what a later state keeps of them;
* `RowStep` — what one step does to the three tables, with `RowStep.coupled` and `RowStep.rowsKept`.
-/

namespace CafePos

open Interleaving

/-! ## The rows -/

/-- What the rows of an order have to do with each other. -/
structure Coupled (db : Db) : Prop where
  /-- an order has a payment window exactly while it waits for payment -/
  expiresAt : ∀ {id o}, db.orders.get id = some o →
    (o.expiresAt.isSome ↔ o.status = .pendingPayment)
  /-- it has a queue number once it has waited for payment -/
  orderNumber : ∀ {id o}, db.orders.get id = some o →
    (o.orderNumber = none ↔ ∀ row ∈ db.historyOf id, row.toStatus ≠ .pendingPayment)
  subtotalMinor : ∀ {id o}, db.orders.get id = some o → o.subtotalMinor = o.totalMinor
  totalMinor : ∀ {id o}, db.orders.get id = some o → o.totalMinor = db.lineTotal id
  /-- a line belongs to an order -/
  item : ∀ i ∈ db.orderItems, ∃ o, db.orders.get i.orderId = some o
  /-- a row of the history belongs to an order -/
  row : ∀ row ∈ db.orderStatusHistory, ∃ o, db.orders.get row.orderId = some o

theorem Coupled.empty : Coupled .empty where
  expiresAt h := by cases h
  orderNumber h := by cases h
  subtotalMinor h := by cases h
  totalMinor h := by cases h
  item _ h := absurd h List.not_mem_nil
  row _ h := absurd h List.not_mem_nil

/-- The same order later: only its number, its status, its payment window and the customer's name
have changed, and the name only to none. -/
structure Order.Kept (o o' : Order) : Prop where
  bill : { o' with
    orderNumber := o.orderNumber
    status := o.status
    expiresAt := o.expiresAt
    customerName := o.customerName } = o
  customerName : o'.customerName = o.customerName ∨ o'.customerName = none

namespace Order.Kept

theorem refl (o : Order) : o.Kept o := ⟨rfl, Or.inl rfl⟩

theorem trans {o₁ o₂ o₃ : Order} (h₁ : o₁.Kept o₂) (h₂ : o₂.Kept o₃) : o₁.Kept o₃ := by
  refine ⟨?_, ?_⟩
  · have hbill := h₁.bill
    rw [← h₂.bill] at hbill
    exact hbill
  · rcases h₂.customerName with h | h
    · rw [h]
      exact h₁.customerName
    · exact Or.inr h

theorem moved (o : Order) (source target : OrderStatus) :
    o.Kept (Statement.moved o source target) := ⟨rfl, Or.inl rfl⟩

theorem queued (o : Order) (orderNumber : String) (expiresAt : Instant) :
    o.Kept (queued o orderNumber expiresAt) := ⟨rfl, Or.inl rfl⟩

end Order.Kept

/-- What a later state keeps of the orders: every row, and all its lines. -/
def RowsKept (db db' : Db) : Prop :=
  ∀ id o, db.orders.get id = some o →
    ∃ o', db'.orders.get id = some o' ∧ o.Kept o' ∧ db'.itemsOf id = db.itemsOf id

theorem RowsKept.refl (db : Db) : RowsKept db db := fun _ o ho => ⟨o, ho, .refl o, rfl⟩

theorem RowsKept.trans {db₁ db₂ db₃ : Db} (h₁ : RowsKept db₁ db₂) (h₂ : RowsKept db₂ db₃) :
    RowsKept db₁ db₃ := by
  intro id o ho
  obtain ⟨o', ho', hkept, hitems⟩ := h₁ id o ho
  obtain ⟨o'', ho'', hkept', hitems'⟩ := h₂ id o' ho'
  exact ⟨o'', ho'', hkept.trans hkept', hitems'.trans hitems⟩

/-! ## Steps -/

/-- The three tables are the same. -/
structure SameRows (db db' : Db) : Prop where
  orders : db'.orders = db.orders
  orderItems : db'.orderItems = db.orderItems
  orderStatusHistory : db'.orderStatusHistory = db.orderStatusHistory

theorem SameRows.refl (db : Db) : SameRows db db := ⟨rfl, rfl, rfl⟩

theorem SameRows.trans {db₁ db₂ db₃ : Db} (h₁ : SameRows db₁ db₂) (h₂ : SameRows db₂ db₃) :
    SameRows db₁ db₃ :=
  ⟨h₂.1.trans h₁.1, h₂.2.trans h₁.2, h₂.3.trans h₁.3⟩

/-- A new order, with its lines and the first row of its history. -/
structure Opens (id : Id) (row : Order) (items : List OrderItem) (first : HistoryRow) : Prop where
  expiresAt : row.expiresAt.isSome ↔ row.status = .pendingPayment
  orderNumber : row.orderNumber = none ↔ first.toStatus ≠ .pendingPayment
  subtotalMinor : row.subtotalMinor = row.totalMinor
  totalMinor : row.totalMinor = (items.map OrderItem.lineTotalMinor).sum
  items : ∀ i ∈ items, i.orderId = id
  first : first.orderId = id

/-- The writes to the three tables that a transaction can commit. -/
inductive OrderWrites (db : Db) : List Write → Prop
  | none : OrderWrites db []
  | opens {id : Id} {row : Order} {items : List OrderItem} {first : HistoryRow} :
      db.orders.get id = Option.none → Opens id row items first →
      OrderWrites db (.order id row :: (items.map .orderItem ++ [.history first]))
  /-- `transitionOrder` -/
  | moves {r : TransitionRequest} {row : Order} : db.orders.get r.orderId = some row →
      row.status = r.source → r.target ≠ .pendingPayment → OrderWrites db (moveWrites r row)
  /-- `transitionOrder`, and the number and the payment window -/
  | queues {r : TransitionRequest} {row : Order} {orderNumber : String} {expiresAt : Instant} :
      db.orders.get r.orderId = some row → r.target = .pendingPayment →
      OrderWrites db (moveWrites r row ++ [.order r.orderId { Statement.moved row r.source r.target
        with orderNumber := some orderNumber, expiresAt := some expiresAt }])

/-- What they are stays true while nobody touches the order. -/
theorem OrderWrites.kept {db db' : Db} {ws : List Write} (h : OrderWrites db ws)
    (hkeeps : ∀ w ∈ ws, ∀ x ∈ w.rows, x.Keeps db db') : OrderWrites db' ws := by
  cases h with
  | none => exact .none
  | @opens id row items first hfree hopens =>
    have hkept : db'.orders.get id = db.orders.get id :=
      hkeeps (.order id row) List.mem_cons_self (.order id) (List.mem_singleton_self _)
    exact .opens (hkept.trans hfree) hopens
  | @moves r row hrow hsource htarget =>
    have hkept : db'.orders.get r.orderId = db.orders.get r.orderId :=
      hkeeps (.order r.orderId (Statement.moved row r.source r.target)) List.mem_cons_self
        (.order r.orderId) (List.mem_singleton_self _)
    exact .moves (hkept.trans hrow) hsource htarget
  | @queues r row orderNumber expiresAt hrow htarget =>
    have hkept : db'.orders.get r.orderId = db.orders.get r.orderId :=
      hkeeps (.order r.orderId (Statement.moved row r.source r.target)) List.mem_cons_self
        (.order r.orderId) (List.mem_singleton_self _)
    exact .queues (hkept.trans hrow) htarget

/-- An order moves, and its history gets this row. -/
structure Moves (id : Id) (row row' : Order) (entry : HistoryRow) : Prop where
  kept : row.Kept row'
  expiresAt : (row.expiresAt.isSome ↔ row.status = .pendingPayment) →
    (row'.expiresAt.isSome ↔ row'.status = .pendingPayment)
  orderNumber : row'.orderNumber = none ↔ row.orderNumber = none ∧ entry.toStatus ≠ .pendingPayment
  entry : entry.orderId = id

/-- What a commit does to the three tables. -/
inductive RowStep (db db' : Db) : Prop
  | stays : SameRows db db' → RowStep db db'
  | opens {id : Id} {row : Order} {items : List OrderItem} {first : HistoryRow} :
      db.orders.get id = none → Opens id row items first →
      db'.orders = db.orders.put id row → db'.orderItems = db.orderItems ++ items →
      db'.orderStatusHistory = db.orderStatusHistory ++ [first] → RowStep db db'
  | moves {id : Id} {row row' : Order} {entry : HistoryRow} : db.orders.get id = some row →
      Moves id row row' entry → db'.orders = db.orders.put id row' →
      db'.orderItems = db.orderItems →
      db'.orderStatusHistory = db.orderStatusHistory ++ [entry] → RowStep db db'

theorem SameRows.coupled {db db' : Db} (h : SameRows db db') (hc : Coupled db) : Coupled db' := by
  have hhistory : db'.historyOf = db.historyOf := by
    funext id
    rw [Db.historyOf, Db.historyOf, h.orderStatusHistory]
  have htotal : db'.lineTotal = db.lineTotal := by
    funext id
    rw [Db.lineTotal, Db.lineTotal, Db.itemsOf, Db.itemsOf, h.orderItems]
  obtain ⟨h₁, h₂, h₃, h₄, h₅, h₆⟩ := hc
  rw [← h.orders, ← h.orderItems, ← h.orderStatusHistory] at *
  rw [← hhistory] at h₂
  rw [← htotal] at h₄
  exact ⟨h₁, h₂, h₃, h₄, h₅, h₆⟩

theorem SameRows.rowsKept {db db' : Db} (h : SameRows db db') : RowsKept db db' := by
  intro id o ho
  refine ⟨o, by rw [h.orders]; exact ho, .refl o, ?_⟩
  rw [Db.itemsOf, Db.itemsOf, h.orderItems]

namespace RowStep

variable {db db' : Db}

/-- The lines of an order that was there. -/
theorem itemsOf_append {id id' : Id} {items : List OrderItem} (hc : Coupled db)
    (hfree : db.orders.get id = none) (hmine : ∀ i ∈ items, i.orderId = id)
    (hitems : db'.orderItems = db.orderItems ++ items) :
    db'.itemsOf id' = if id' = id then items else db.itemsOf id' := by
  rw [Db.itemsOf, Db.itemsOf, hitems, List.filter_append]
  split
  · rename_i hid
    have hold : db.orderItems.filter (fun i => i.orderId == id') = [] := by
      refine List.filter_eq_nil_iff.mpr fun i hi hiid => ?_
      obtain ⟨o, ho⟩ := hc.item i hi
      rw [beq_iff_eq.mp hiid, hid, hfree] at ho
      cases ho
    have hnew : items.filter (fun i => i.orderId == id') = items :=
      List.filter_eq_self.mpr fun i hi => beq_iff_eq.mpr ((hmine i hi).trans hid.symm)
    rw [hold, hnew, List.nil_append]
  · rename_i hid
    have hnew : items.filter (fun i => i.orderId == id') = [] := by
      refine List.filter_eq_nil_iff.mpr fun i hi hiid => hid ?_
      rw [← hmine i hi, beq_iff_eq.mp hiid]
    rw [hnew, List.append_nil]

/-- The history of an order, one row later. -/
theorem historyOf_append {id id' : Id} {entry : HistoryRow} (hentry : entry.orderId = id)
    (hhistory : db'.orderStatusHistory = db.orderStatusHistory ++ [entry]) :
    db'.historyOf id' = if id' = id then db.historyOf id' ++ [entry] else db.historyOf id' := by
  rw [Db.historyOf, Db.historyOf, hhistory, List.filter_append, List.filter_singleton, hentry]
  by_cases hid : id' = id
  · rw [if_pos hid, hid, beq_self_eq_true]
    rfl
  · have hne : (id == id') = false := beq_eq_false_iff_ne.mpr fun h => hid h.symm
    rw [if_neg hid, hne]
    exact List.append_nil _

/-- A step keeps every row and its lines. -/
theorem rowsKept (h : RowStep db db') (hc : Coupled db) : RowsKept db db' := by
  intro id' o ho
  cases h with
  | stays hsame => exact hsame.rowsKept id' o ho
  | @opens id row items first hfree hopens horders hitems _ =>
    have hid : id' ≠ id := fun hid => by rw [hid, hfree] at ho; cases ho
    refine ⟨o, ?_, .refl o, ?_⟩
    · rw [horders, Table.get_put_ne _ _ hid]
      exact ho
    · rw [itemsOf_append hc hfree hopens.items hitems, if_neg hid]
  | @moves id row row' entry hrow hmoves horders hitems _ =>
    have hsame : db'.itemsOf id' = db.itemsOf id' := by rw [Db.itemsOf, Db.itemsOf, hitems]
    by_cases hid : id' = id
    · rw [hid, hrow] at ho
      obtain rfl := Option.some.inj ho
      exact ⟨row', by rw [horders, hid, Table.get_put_self], hmoves.kept, hsame⟩
    · exact ⟨o, by rw [horders, Table.get_put_ne _ _ hid]; exact ho, .refl o, hsame⟩

/-- A step keeps the rows of an order together. -/
theorem coupled (h : RowStep db db') (hc : Coupled db) : Coupled db' := by
  have hkept := h.rowsKept hc
  cases h with
  | stays hsame => exact hsame.coupled hc
  | @opens id row items first hfree hopens horders hitems hhistory =>
    have hget : ∀ {id' o}, db'.orders.get id' = some o →
        id' = id ∧ o = row ∨ id' ≠ id ∧ db.orders.get id' = some o := by
      intro id' o ho
      rw [horders, Table.get_put] at ho
      split at ho
      · rename_i hid
        exact Or.inl ⟨hid, (Option.some.inj ho).symm⟩
      · rename_i hid
        exact Or.inr ⟨hid, ho⟩
    -- an order that is new has no history
    have hnone : db.historyOf id = [] := by
      refine List.filter_eq_nil_iff.mpr fun entry hentry hid => ?_
      obtain ⟨o, ho⟩ := hc.row entry hentry
      rw [beq_iff_eq.mp hid, hfree] at ho
      cases ho
    refine ⟨?_, ?_, ?_, ?_, ?_, ?_⟩
    · intro id' o ho
      rcases hget ho with ⟨rfl, rfl⟩ | ⟨-, ho⟩
      · exact hopens.expiresAt
      · exact hc.expiresAt ho
    · intro id' o ho
      rw [historyOf_append hopens.first hhistory]
      rcases hget ho with ⟨rfl, rfl⟩ | ⟨hid, ho⟩
      · rw [if_pos rfl, hnone, List.nil_append, hopens.orderNumber]
        exact ⟨fun h entry hentry => List.mem_singleton.mp hentry ▸ h,
          fun h => h first (List.mem_singleton_self _)⟩
      · rw [if_neg hid]
        exact hc.orderNumber ho
    · intro id' o ho
      rcases hget ho with ⟨rfl, rfl⟩ | ⟨-, ho⟩
      · exact hopens.subtotalMinor
      · exact hc.subtotalMinor ho
    · intro id' o ho
      rw [Db.lineTotal, itemsOf_append hc hfree hopens.items hitems]
      rcases hget ho with ⟨rfl, rfl⟩ | ⟨hid, ho⟩
      · rw [if_pos rfl]
        exact hopens.totalMinor
      · rw [if_neg hid]
        exact hc.totalMinor ho
    · intro i hi
      rw [hitems] at hi
      rcases List.mem_append.mp hi with hi | hi
      · obtain ⟨o, ho⟩ := hc.item i hi
        obtain ⟨o', ho', -⟩ := hkept _ o ho
        exact ⟨o', ho'⟩
      · exact ⟨row, by rw [horders, hopens.items i hi, Table.get_put_self]⟩
    · intro entry hentry
      rw [hhistory] at hentry
      rcases List.mem_append.mp hentry with hentry | hentry
      · obtain ⟨o, ho⟩ := hc.row entry hentry
        obtain ⟨o', ho', -⟩ := hkept _ o ho
        exact ⟨o', ho'⟩
      · rw [List.mem_singleton.mp hentry, hopens.first]
        exact ⟨row, by rw [horders, Table.get_put_self]⟩
  | @moves id row row' entry hrow hmoves horders hitems hhistory =>
    have hget : ∀ {id' o'}, db'.orders.get id' = some o' →
        id' = id ∧ o' = row' ∨ id' ≠ id ∧ db.orders.get id' = some o' := by
      intro id' o' ho'
      rw [horders, Table.get_put] at ho'
      split at ho'
      · rename_i hid
        exact Or.inl ⟨hid, (Option.some.inj ho').symm⟩
      · rename_i hid
        exact Or.inr ⟨hid, ho'⟩
    have hlines : db'.lineTotal = db.lineTotal := by
      funext id'
      rw [Db.lineTotal, Db.lineTotal, Db.itemsOf, Db.itemsOf, hitems]
    have hsub : row'.subtotalMinor = row.subtotalMinor := by rw [← hmoves.kept.bill]
    have htot : row'.totalMinor = row.totalMinor := by rw [← hmoves.kept.bill]
    refine ⟨?_, ?_, ?_, ?_, ?_, ?_⟩
    · intro id' o' ho'
      rcases hget ho' with ⟨rfl, rfl⟩ | ⟨-, ho⟩
      · exact hmoves.expiresAt (hc.expiresAt hrow)
      · exact hc.expiresAt ho
    · intro id' o' ho'
      rw [historyOf_append hmoves.entry hhistory]
      rcases hget ho' with ⟨rfl, rfl⟩ | ⟨hid, ho⟩
      · rw [if_pos rfl, hmoves.orderNumber, hc.orderNumber hrow, List.forall_mem_append,
          List.forall_mem_singleton]
      · rw [if_neg hid]
        exact hc.orderNumber ho
    · intro id' o' ho'
      rcases hget ho' with ⟨rfl, rfl⟩ | ⟨-, ho⟩
      · rw [hsub, htot]
        exact hc.subtotalMinor hrow
      · exact hc.subtotalMinor ho
    · intro id' o' ho'
      rw [hlines]
      rcases hget ho' with ⟨rfl, rfl⟩ | ⟨-, ho⟩
      · rw [htot]
        exact hc.totalMinor hrow
      · exact hc.totalMinor ho
    · intro i hi
      rw [hitems] at hi
      obtain ⟨o, ho⟩ := hc.item i hi
      obtain ⟨o', ho', -⟩ := hkept _ o ho
      exact ⟨o', ho'⟩
    · intro entry' hentry
      rw [hhistory] at hentry
      rcases List.mem_append.mp hentry with hentry | hentry
      · obtain ⟨o, ho⟩ := hc.row entry' hentry
        obtain ⟨o', ho', -⟩ := hkept _ o ho
        exact ⟨o', ho'⟩
      · rw [List.mem_singleton.mp hentry, hmoves.entry]
        exact ⟨row', by rw [horders, Table.get_put_self]⟩

end RowStep

/-! ## What a log does to the three tables -/

/-- The write is to one of the three tables. -/
def Write.onOrders : Write → Bool
  | .order .. => true
  | .orderItem _ => true
  | .history _ => true
  | _ => false

/-- The writes of a log to the three tables. -/
def ordersPart (ws : List Write) : List Write := ws.filter Write.onOrders

theorem Write.sameRows {w : Write} (hw : w.onOrders = false) (db : Db) :
    SameRows db (w.apply db) := by
  cases w with
  | order | orderItem | history => cases hw
  | _ => exact ⟨rfl, rfl, rfl⟩

theorem Write.apply_sameRows (w : Write) {db db' : Db} (h : SameRows db db') :
    SameRows (w.apply db) (w.apply db') := by
  obtain ⟨h₁, h₂, h₃⟩ := h
  cases w with
  | order id row => exact ⟨congrArg (fun t => t.put id row) h₁, h₂, h₃⟩
  | orderItem row => exact ⟨h₁, congrArg (· ++ [row]) h₂, h₃⟩
  | history row => exact ⟨h₁, h₂, congrArg (· ++ [row]) h₃⟩
  | _ => exact ⟨h₁, h₂, h₃⟩

/-- A log does to the three tables what its writes to them do. -/
theorem sameRows_applyAll (ws : List Write) {db db' : Db} (h : SameRows db db') :
    SameRows (store.applyAll (ordersPart ws) db) (store.applyAll ws db') := by
  induction ws generalizing db db' with
  | nil => exact h
  | cons w ws ih =>
    cases hw : w.onOrders with
    | true =>
      rw [ordersPart, List.filter_cons_of_pos hw]
      exact ih (w.apply_sameRows h)
    | false =>
      rw [ordersPart, List.filter_cons_of_neg (by rw [hw]; exact Bool.false_ne_true)]
      exact ih (h.trans (w.sameRows hw db'))

/-- What these writes do. -/
theorem OrderWrites.rowStep {db db' : Db} {ws : List Write} (h : OrderWrites db ws)
    (hsame : SameRows (store.applyAll ws db) db') : RowStep db db' := by
  cases h with
  | none => exact .stays hsame
  | @opens id row items first hfree hopens =>
    have happly : store.applyAll (.order id row :: (items.map .orderItem ++ [.history first])) db =
        { db with
          orders := db.orders.put id row
          orderItems := db.orderItems ++ items
          orderStatusHistory := db.orderStatusHistory ++ [first] } := by
      rw [Store.applyAll_cons, applyAll_orderItems]
      rfl
    rw [happly] at hsame
    exact .opens hfree hopens hsame.orders hsame.orderItems hsame.orderStatusHistory
  | @moves r row hrow hsource htarget =>
    refine .moves hrow ⟨.moved _ _ _, fun hold => ?_, ?_, rfl⟩ hsame.orders hsame.orderItems
      hsame.orderStatusHistory
    · have hto : (Statement.moved row r.source r.target).status ≠ .pendingPayment := htarget
      refine iff_of_false (fun hsome => ?_) hto
      rw [Statement.moved] at hsome
      dsimp only at hsome
      split at hsome
      · cases hsome
      · rename_i hne
        exact hne (hsource.symm.trans (hold.mp hsome))
    · exact (and_iff_left htarget).symm
  | @queues r row orderNumber expiresAt hrow htarget =>
    have hmoves : Moves r.orderId row { Statement.moved row r.source r.target with
        orderNumber := some orderNumber, expiresAt := some expiresAt } r.history :=
      ⟨⟨rfl, Or.inl rfl⟩, fun _ => iff_of_true rfl htarget,
        iff_of_false (by simp) fun h => h.2 htarget, rfl⟩
    exact .moves hrow hmoves (hsame.orders.trans (Table.put_put ..)) hsame.orderItems
      hsame.orderStatusHistory

end CafePos
