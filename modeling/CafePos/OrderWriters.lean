import CafePos.OrderRows
import CafePos.Interleaving.Atomic
import CafePos.System

/-!
# The doors keep the rows of an order together

Three judgements of a door, each closed under the ways a door is built, whatever its queries
answer:

* `Harmless` — it writes no order, no line and no history, and opens no transaction;
* `Committable` — inside a transaction that has written none of them yet, it leaves behind writes
  that a transaction can commit (`OrderWrites`), or it throws;
* `Tidy` — every commit in it is a `RowStep`.

`tidy_program` says that every door is tidy. Nothing is assumed of the other tables: a key or a
payload may be gone at any moment.
-/

namespace CafePos

open Interleaving

/-! ## What is proved of a call -/

/-- Every state keeps the rows of an order together, and every step is a `RowStep`. -/
def rowSpec : Spec Shared Sess Op Call Happening where
  inv s := Coupled s.db
  rely s s' := RowsKept s.db s'.db
  gua _ _ _ s _ s' := RowStep s.db s'.db
  permit := .all
  rely_refl _ := .refl _
  rely_trans := .trans
  gua_rely hi hg := hg.rowsKept hi
  gua_inv _ hi hg := hg.coupled hi

/-- Every commit of the door is a `RowStep`. -/
def Tidy {α : Type} (m : Door α) : Prop :=
  ∀ c l s, rowSpec.Ensures machine c m (fun _ _ _ => True) (fun _ _ _ => True) l s

/-! ## Harmless doors -/

/-- The statement writes none of the three tables. -/
def Statement.offOrders : Statement → Bool
  | .moveOrder .. => false
  | .queueOrder .. => false
  | .insertOrder _ => false
  | .insertOrderItems _ => false
  | .insertHistory _ => false
  | _ => true

/-- The operation neither begins nor ends a transaction, and writes none of the three tables. -/
def Op.harmless : Op → Bool
  | .begin => false
  | .commit => false
  | .rollback => false
  | .statement st => st.offOrders
  | _ => true

theorem Statement.ordersPart_effect {st : Statement} (h : st.offOrders = true) (fresh : Id)
    (now : Instant) (db : Db) : ordersPart (st.effect fresh now db).writes = [] := by
  cases st with
  | moveOrder | queueOrder | insertOrder | insertOrderItems | insertHistory => cases h
  | nextCounter | lockPayment => rfl
  | insertPayment | insertRefund =>
    simp only [effect]
    split
    · rfl
    · split
      · rfl
      · first
        | rfl
        | split <;> rfl
  | insertEvent | insertKey | updateKey =>
    simp only [effect]
    split <;> rfl
  | updatePayment | stampEvent =>
    simp only [effect]
    split
    · split <;> rfl
    · rfl

/-- The door performs only harmless operations, whatever they answer. -/
def Harmless {α : Type} (m : Door α) : Prop := m.run.Only fun o => o.harmless = true

namespace Harmless

variable {α β : Type}

theorem pure (a : α) : Harmless (Pure.pure a : Door α) := trivial

theorem throw (e : Err) : Harmless (MonadExcept.throw e : Door α) := trivial

theorem bind {m : Door β} {f : β → Door α} (hm : Harmless m) (hf : ∀ b, Harmless (f b)) :
    Harmless (m >>= f) := by
  refine Prog.Only.bind hm fun r => ?_
  cases r with
  | ok b => exact hf b
  | error e => trivial

theorem tryCatch {m : Door α} {handle : Err → Door α} (hm : Harmless m)
    (hf : ∀ e, Harmless (handle e)) : Harmless (MonadExcept.tryCatch m handle) := by
  refine Prog.Only.bind hm fun r => ?_
  cases r with
  | ok b => trivial
  | error e => exact hf e

theorem perform {o : Op} (h : o.harmless = true) : Harmless (Door.perform o) :=
  ⟨h, fun _ => trivial⟩

theorem raising {m : Door (Except SqlState α)} (hm : Harmless m) : Harmless (Door.raising m) := by
  refine hm.bind fun r => ?_
  cases r with
  | ok a => exact pure a
  | error state => exact throw _

theorem select (q : Query) : Harmless (Door.select q) := perform rfl

theorem selectTx (q : Query) : Harmless (Door.selectTx q) := perform rfl

theorem statement {st : Statement} (h : st.offOrders = true) : Harmless (Door.statement st) :=
  perform h

/-- A harmless operation changes none of the three tables, and adds none of them to a log. -/
theorem sameRows {o : Op} (ho : o.harmless = true) {inp : Input} {locked : Row → Bool}
    {r : o.Res} {l l' : Sess} {s s' : Shared} (hx : exec inp locked l s o = some (r, l', s')) :
    SameRows s.db s'.db ∧
      (l.active = true → l'.active = true ∧ s'.db = s.db ∧ ordersPart l'.log = ordersPart l.log) := by
  cases o with
  | begin | commit | rollback => cases ho
  | stripeCreate request =>
    obtain ⟨r', -, hr'⟩ := Option.map_eq_some_iff.mp hx
    obtain ⟨-, rfl, rfl⟩ := Prod.mk.inj hr' |>.imp_right Prod.mk.inj
    exact ⟨.refl _, fun hl => ⟨hl, rfl, rfl⟩⟩
  | now | query | menuItems | deviceStatus | stripeCancel | stripeRetrieve | publish =>
    obtain ⟨-, rfl, rfl⟩ := Option.some.inj hx |> Prod.mk.inj |>.imp_right Prod.mk.inj
    exact ⟨.refl _, fun hl => ⟨hl, rfl, rfl⟩⟩
  | statement st =>
    simp only [exec] at hx
    split at hx
    · obtain ⟨r', hr, hr'⟩ := Option.map_eq_some_iff.mp hx
      obtain ⟨-, rfl, rfl⟩ := Prod.mk.inj hr' |>.imp_right Prod.mk.inj
      have hoff := Statement.ordersPart_effect ho inp.fresh inp.now (l.view store s.db)
      obtain ⟨-, ⟨-, hl, hs⟩ | ⟨-, -, hl, hs⟩ | ⟨hout, -, hl, hs⟩⟩ := Session.execute_cases hr
      · -- in a transaction
        rw [hl, hs]
        refine ⟨.refl _, fun _ => ⟨rfl, rfl, ?_⟩⟩
        rw [Session.push_log, ordersPart, List.filter_append]
        exact (congrArg (ordersPart l.log ++ ·) hoff).trans (List.append_nil _)
      · rw [hl, hs]
        exact ⟨.refl _, fun hin => ⟨hin, rfl, rfl⟩⟩
      · -- on its own
        refine ⟨?_, fun hin => by rw [hin] at hout; cases hout⟩
        have hsame := sameRows_applyAll (st.effect inp.fresh inp.now (l.view store s.db)).writes
          (.refl s.db)
        rw [hoff] at hsame
        rw [hs]
        exact hsame
    · cases hx

theorem tidy {m : Door α} (hm : Harmless m) : Tidy m := by
  intro c l s
  refine Spec.wp_mono (Q := fun _ _ _ => True) (fun r _ _ _ _ => by cases r <;> trivial) ?_
  exact Spec.wp_of_only (I := fun _ _ => True)
    (fun o l s s₁ inp locked r l' s₂ ho _ _ hx => ⟨RowStep.stays (sameRows ho hx).1, trivial⟩) hm trivial

end Harmless

/-! ## Inside a transaction -/

/-- What is known of the database and of the writes stays true while their rows are left alone. -/
def Stable (A : Db → List Write → Prop) : Prop :=
  ∀ {db db' : Db} {ws : List Write}, (∀ w ∈ ws, ∀ x ∈ w.rows, x.Keeps db db') → A db ws → A db' ws

/-- A transaction is open, and this is known of the database and of what the transaction has
written to the three tables. -/
structure Holds (A : Db → List Write → Prop) (l : Sess) (s : Shared) : Prop where
  active : l.active = true
  knows : A s.db (ordersPart l.log)

theorem Holds.after {A : Db → List Write → Prop} {l : Sess} {s s₁ : Shared} (h : Holds A l s)
    (hA : Stable A) (hs : rowSpec.After machine l s s₁) : Holds A l s₁ :=
  ⟨h.active, hA (fun w hw x hx => hs.keeps x (l.covered w (List.mem_of_mem_filter hw) x hx)) h.knows⟩

/-- From `A`, inside a transaction, the door returns into `B` or throws. -/
def Leads {α : Type} (A : Db → List Write → Prop) (m : Door α) (B : α → Db → List Write → Prop) :
    Prop :=
  ∀ c l s, Holds A l s → rowSpec.Ensures machine c m (fun a => Holds (B a)) (fun _ _ _ => True) l s

/-- What is known of an answer, unless it is an error. -/
abbrev IfOk {α : Type} (B : α → Db → List Write → Prop) : Except SqlState α → Db → List Write → Prop
  | .ok a => B a
  | .error _ => fun _ _ => True

/-- What is known if a row has been found. -/
abbrev IfSome {α : Type} (A : Db → List Write → Prop) : Option α → Db → List Write → Prop
  | some _ => A
  | none => fun _ _ => True

namespace Leads

variable {α β : Type} {A : Db → List Write → Prop} {B : α → Db → List Write → Prop}

theorem pure {a : α} (h : ∀ {db ws}, A db ws → B a db ws) : Leads A (Pure.pure a) B :=
  fun _ _ _ hA => ⟨hA.active, h hA.knows⟩

theorem throw {e : Err} : Leads A (MonadExcept.throw e : Door α) B := fun _ _ _ _ => trivial

theorem bind {m : Door β} {f : β → Door α} {C : β → Db → List Write → Prop} (hm : Leads A m C)
    (hf : ∀ b, Leads (C b) (f b) B) : Leads A (m >>= f) B := by
  intro c l s hA
  refine .bind (Spec.wp_mono (fun r l' s' _ hr => ?_) (hm c l s hA))
  cases r with
  | ok b => exact hf b c l' s' hr
  | error e => trivial

/-- A harmless door changes nothing of it. -/
theorem harmless {m : Door α} (hA : Stable A) (hm : Harmless m) : Leads A m fun _ => A := by
  intro c l s h
  refine Spec.wp_mono (Q := fun _ => Holds A) (fun r _ _ _ hr => ?_) (Spec.wp_of_only
    (fun o l s s₁ inp locked r l' s₂ ho hl hs₁ hx => ?_) hm h)
  · cases r with
    | ok a => exact hr
    | error e => trivial
  · obtain ⟨hsame, hin⟩ := Harmless.sameRows ho hx
    obtain ⟨hactive, hdb, hlog⟩ := hin hl.active
    have h₁ := hl.after hA hs₁
    refine ⟨RowStep.stays hsame, hactive, ?_⟩
    rw [hdb, hlog]
    exact h₁.knows

/-- A statement: it answers from what the transaction sees, and its writes join the log. -/
theorem statement {st : Statement} {B : st.Answer → Db → List Write → Prop} (hA : Stable A)
    (h : ∀ {db ws fresh now view}, A db ws → SameRows (store.applyAll ws db) view →
      st.idUnused fresh view = true → B (st.effect fresh now view).answer db
        (ws ++ ordersPart (st.effect fresh now view).writes)) : Leads A (Door.statement st) B := by
  intro c l s hl
  refine Spec.Ensures.perform fun s₁ inp locked r l' s₂ hs₁ _ hx => ?_
  have hx' : exec inp locked l s₁ (.statement st) = some (r, l', s₂) := hx
  simp only [exec] at hx'
  split at hx'
  · rename_i hunused
    obtain ⟨r', hr, hr'⟩ := Option.map_eq_some_iff.mp hx'
    simp only [Session.execute, hl.active, if_true] at hr
    split at hr
    · cases hr
    · obtain rfl := Option.some.inj hr
      obtain ⟨rfl, rfl, rfl⟩ := Prod.mk.inj hr' |>.imp_right Prod.mk.inj
      refine ⟨RowStep.stays (.refl _), rfl, ?_⟩
      rw [Session.push_log, ordersPart, List.filter_append]
      exact h (hl.after hA hs₁).knows (sameRows_applyAll l.log (.refl s₁.db)) hunused
  · cases hx'

/-- What is known of the answers so far. -/
theorem of_fact {m : Door α} {P : Prop} (h : P → Leads A m B) :
    Leads (fun db ws => A db ws ∧ P) m B :=
  fun c l s hl => h hl.knows.2 c l s ⟨hl.active, hl.knows.1⟩

/-- A statement that may raise. -/
theorem raising {m : Door (Except SqlState α)} (hm : Leads A m (IfOk B)) :
    Leads A (Door.raising m) B := by
  refine hm.bind fun r => ?_
  cases r with
  | ok a => exact pure id
  | error state => exact throw

end Leads

/-! ### What is known on the way -/

/-- Nothing has been written. -/
def Begun (_ : Db) (ws : List Write) : Prop := ws = []

/-- The order has been moved, and its history has not got its row yet. -/
def Moving (r : TransitionRequest) (db : Db) (ws : List Write) : Prop :=
  ∃ row, db.orders.get r.orderId = some row ∧ row.status = r.source ∧
    ws = [.order r.orderId (Statement.moved row r.source r.target)]

/-- The order has been moved. -/
def MovedBy (r : TransitionRequest) (db : Db) (ws : List Write) : Prop :=
  ∃ row, db.orders.get r.orderId = some row ∧ row.status = r.source ∧ ws = moveWrites r row

/-- The order is new, and it and these of its lines are written. -/
def Inserted (row : Order) (items : List OrderItem) (id : Id) (db : Db) (ws : List Write) : Prop :=
  db.orders.get id = none ∧ ws = .order id row :: items.map .orderItem

theorem stable_begun : Stable Begun := fun _ h => h

theorem stable_orderWrites : Stable OrderWrites := fun hkeeps h => h.kept hkeeps

/-- What is known of one order and of writes that are among others to it. -/
theorem stable_of_order {A : Db → List Write → Prop} (id : Id)
    (hwrites : ∀ {db ws}, A db ws → ∃ row, .order id row ∈ ws)
    (hframe : ∀ {db db' ws}, A db ws → db'.orders.get id = db.orders.get id → A db' ws) :
    Stable A := by
  intro db db' ws hkeeps hA
  obtain ⟨row, hrow⟩ := hwrites hA
  exact hframe hA (hkeeps _ hrow (.order id) (List.mem_singleton_self _))

theorem stable_moving (r : TransitionRequest) : Stable (Moving r) := by
  refine stable_of_order r.orderId ?_ ?_
  · rintro db ws ⟨row, -, -, rfl⟩
    exact ⟨_, List.mem_singleton_self _⟩
  · rintro db db' ws ⟨row, hrow, hsource, rfl⟩ hkept
    exact ⟨row, hkept.trans hrow, hsource, rfl⟩

theorem stable_movedBy (r : TransitionRequest) : Stable (MovedBy r) := by
  refine stable_of_order r.orderId ?_ ?_
  · rintro db ws ⟨row, -, -, rfl⟩
    exact ⟨_, List.mem_cons_self⟩
  · rintro db db' ws ⟨row, hrow, hsource, rfl⟩ hkept
    exact ⟨row, hkept.trans hrow, hsource, rfl⟩

theorem stable_inserted (row : Order) (items : List OrderItem) (id : Id) :
    Stable (Inserted row items id) := by
  refine stable_of_order id ?_ ?_
  · rintro db ws ⟨-, rfl⟩
    exact ⟨row, List.mem_cons_self⟩
  · rintro db db' ws ⟨hfree, rfl⟩ hkept
    exact ⟨hkept.trans hfree, rfl⟩

theorem stable_true : Stable fun _ _ => True := fun _ _ => trivial

/-! ### The work of a transaction -/

/-- Inside a transaction that has written nothing, the door leaves behind what a transaction can
commit, or it throws. -/
def Committable {α : Type} (m : Door α) : Prop := Leads Begun m fun _ => OrderWrites

namespace Committable

variable {α β : Type}

theorem throw {e : Err} : Committable (MonadExcept.throw e : Door α) := Leads.throw

theorem harmless {m : Door α} (hm : Harmless m) : Committable m := by
  intro c l s h
  refine Spec.wp_mono (fun r l' s' _ hr => ?_) (Leads.harmless stable_begun hm c l s h)
  cases r with
  | ok a =>
    refine ⟨hr.active, ?_⟩
    rw [hr.knows]
    exact .none
  | error e => trivial

/-- First something harmless. -/
theorem preceded {m : Door β} {f : β → Door α} (hm : Harmless m) (hf : ∀ b, Committable (f b)) :
    Committable (m >>= f) := Leads.bind (.harmless stable_begun hm) hf

/-- Then something harmless. -/
theorem followed {m : Door β} {f : β → Door α} (hm : Committable m) (hf : ∀ b, Harmless (f b)) :
    Committable (m >>= f) := Leads.bind hm fun b => .harmless stable_orderWrites (hf b)

end Committable

/-- `explainFailure` reads. -/
theorem harmless_explainFailure (orderId : Id) (requested : OrderStatus) :
    Harmless (explainFailure orderId requested) := by
  refine .bind (.selectTx _) fun current => ?_
  cases current with
  | none => exact .pure _
  | some current => exact .pure _

/-- `transitionOrder` moves the order, or throws. -/
theorem leads_transitionOrder (r : TransitionRequest) :
    Leads Begun (transitionOrder r) fun _ => MovedBy r := by
  refine .bind (C := IfSome (Moving r)) (.statement stable_begun ?_) fun moved => ?_
  · rintro db ws fresh now view rfl hsame -
    have horders : view.orders = db.orders := hsame.orders
    simp only [Statement.effect, horders]
    split
    · rename_i row hrow
      split
      · rename_i hsource
        exact ⟨row, hrow, hsource, rfl⟩
      · trivial
    · trivial
  · cases moved with
    | none => exact .bind (.harmless stable_true (harmless_explainFailure _ _)) fun _ => .throw
    | some updated =>
      refine .bind (.statement (stable_moving r) ?_) fun _ => .pure id
      rintro db ws fresh now view ⟨row, hrow, hsource, rfl⟩ - -
      exact ⟨row, hrow, hsource, rfl⟩

/-- A move to any state but `PENDING_PAYMENT` needs nothing more. -/
theorem committable_transitionOrder {r : TransitionRequest} (h : r.target ≠ .pendingPayment) :
    Committable (transitionOrder r) := by
  intro c l s hl
  refine Spec.wp_mono (fun res l' s' _ hr => ?_) (leads_transitionOrder r c l s hl)
  cases res with
  | ok a =>
    obtain ⟨row, hrow, hsource, hlog⟩ := hr.knows
    refine ⟨hr.active, ?_⟩
    rw [hlog]
    exact .moves hrow hsource h
  | error e => trivial

/-- A number and a payment window, for an order that has moved to `PENDING_PAYMENT`. -/
theorem leads_queueOrder {r : TransitionRequest} (h : r.target = .pendingPayment)
    (orderNumber : String) (expiresAt : Instant) :
    Leads (MovedBy r) (Door.raising (Door.statement (.queueOrder r.orderId orderNumber expiresAt)))
      (IfSome OrderWrites) := by
  refine .raising (.statement (stable_movedBy r) ?_)
  rintro db ws fresh now view ⟨row, hrow, hsource, rfl⟩ hsame -
  have horder : view.orders.get r.orderId = some (Statement.moved row r.source r.target) := by
    rw [hsame.orders]
    exact Table.get_put_self ..
  simp only [Statement.effect, horder]
  split
  · trivial
  · exact .queues hrow h

/-! ### Creating an order -/

/-- The subtotal of a priced basket is its total. -/
theorem priceOrder_subtotal {requested : List RequestedItem} {catalog : List CatalogItem}
    {vatBasisPoints : ℤ} {priced : PricedOrder}
    (h : priceOrder requested catalog vatBasisPoints = .ok priced) :
    priced.subtotalMinor = priced.totalMinor := by
  simp only [priceOrder] at h
  split at h
  · cases h
  · split at h
    · cases h
    · cases h
      rfl

/-- What `persist` inserts belongs together. -/
theorem opens_orderRow (cfg : Config) (principal : Principal) (channel : OrderChannel)
    (input : CreateOrderInput) {catalog : List CatalogItem} {priced : PricedOrder}
    (hpriced : priceOrder input.items catalog cfg.vatBasisPoints = .ok priced) (now : Instant)
    {orderNumber : Option String} (hnumber : orderNumber = none ↔ input.draft = true) (id : Id) :
    Opens id (orderRow cfg principal channel input priced now orderNumber) (itemRows id priced)
      (createdRow id (orderRow cfg principal channel input priced now orderNumber).status
        principal) where
  expiresAt := by
    simp only [orderRow]
    cases input.draft <;> simp
  orderNumber := by
    simp only [orderRow, createdRow, hnumber]
    cases input.draft <;> decide
  subtotalMinor := priceOrder_subtotal hpriced
  totalMinor := by
    refine (priceOrder_total hpriced).trans ?_
    rw [itemRows, List.map_map]
    rfl
  items i hi := by
    obtain ⟨line, -, rfl⟩ := List.mem_map.mp hi
    rfl
  first := rfl

/-- `claimNumber`: a number for every order but a draft. -/
theorem leads_claimNumber (cfg : Config) (input : CreateOrderInput) (now : Instant) :
    Leads Begun (claimNumber cfg input now)
      fun orderNumber db ws => Begun db ws ∧ (orderNumber = none ↔ input.draft = true) := by
  rw [claimNumber]
  split
  · rename_i hdraft
    exact .pure fun h => ⟨h, iff_of_true rfl hdraft⟩
  · rename_i hdraft
    exact .bind (.harmless stable_begun (.bind (.statement rfl) fun _ => .pure _)) fun _ =>
      .pure fun h => ⟨h, iff_of_false (by simp) hdraft⟩

/-- `persist` leaves a whole order behind, or throws. -/
theorem committable_persist (cfg : Config) (principal : Principal) (channel : OrderChannel)
    (input : CreateOrderInput) {catalog : List CatalogItem} {priced : PricedOrder}
    (hpriced : priceOrder input.items catalog cfg.vatBasisPoints = .ok priced) :
    Committable (persist cfg principal channel input priced) := by
  refine .preceded (.perform rfl) fun now => ?_
  refine .bind (leads_claimNumber cfg input now) fun orderNumber => .of_fact fun hnumber => ?_
  have hopens := opens_orderRow cfg principal channel input hpriced now hnumber
  generalize orderRow cfg principal channel input priced now orderNumber = order at hopens
  refine .bind (C := fun id => Inserted order [] id) (.raising (.statement stable_begun ?_))
    fun id => ?_
  · rintro db ws fresh now' view rfl hsame hunused
    have hfree : db.orders.get fresh = none := by
      have horders : view.orders = db.orders := hsame.orders
      rw [← horders]
      exact Option.isNone_iff_eq_none.mp hunused
    simp only [Statement.effect]
    split
    · trivial
    · split
      · trivial
      · exact ⟨hfree, rfl⟩
  refine .bind (C := fun _ => Inserted order (itemRows id priced) id)
    (.raising (.statement (stable_inserted order [] id) ?_)) fun _ => ?_
  · rintro db ws fresh now' view ⟨hfree, rfl⟩ - -
    simp only [Statement.effect]
    split
    · trivial
    · split
      · trivial
      · refine ⟨hfree, ?_⟩
        rw [ordersPart, List.filter_eq_self.mpr]
        · rfl
        · intro w hw
          obtain ⟨i, -, rfl⟩ := List.mem_map.mp hw
          rfl
  refine .bind (C := fun _ => OrderWrites)
    (.statement (stable_inserted order (itemRows id priced) id) ?_) fun _ => .pure fun h => h
  rintro db ws fresh now' view ⟨hfree, rfl⟩ - -
  exact .opens hfree (hopens id)

/-! ## Tidy doors -/

namespace Tidy

variable {α β : Type}

theorem pure (a : α) : Tidy (Pure.pure a : Door α) := fun _ _ _ => trivial

theorem throw (e : Err) : Tidy (MonadExcept.throw e : Door α) := fun _ _ _ => trivial

theorem bind {m : Door β} {f : β → Door α} (hm : Tidy m) (hf : ∀ b, Tidy (f b)) :
    Tidy (m >>= f) := by
  intro c l s
  refine .bind (Spec.wp_mono (fun r l' s' _ _ => ?_) (hm c l s))
  cases r with
  | ok b => exact hf b c l' s'
  | error e => trivial

theorem map {m : Door β} {f : β → α} (hm : Tidy m) : Tidy (f <$> m) :=
  bind hm fun b => pure (f b)

theorem tryCatch {m : Door α} {handle : Err → Door α} (hm : Tidy m)
    (hf : ∀ e, Tidy (handle e)) : Tidy (MonadExcept.tryCatch m handle) := by
  intro c l s
  refine Spec.wp_bind (Spec.wp_mono (fun r l' s' _ _ => ?_) (hm c l s))
  cases r with
  | ok b => trivial
  | error e => exact hf e c l' s'

/-- A transaction commits what its work has left behind. -/
theorem transaction {work : Door α} (h : Committable work) : Tidy (Door.transaction work) := by
  intro c l s s₁ _ _ inp locked r l' s₂ _ hx
  obtain ⟨-, rfl, rfl⟩ := Option.some.inj hx |> Prod.mk.inj |>.imp_right Prod.mk.inj
  refine ⟨RowStep.stays (.refl _), Spec.wp_bind (m := work.run)
    (Spec.wp_mono (fun r l' s' _ hr => ?_) (h c l.begin s₁ ⟨rfl, rfl⟩))⟩
  cases r with
  | ok a =>
    intro s₂ hs₂ _ inp locked r l'' s₃ _ hx
    obtain ⟨-, rfl, rfl⟩ := Option.some.inj hx |> Prod.mk.inj |>.imp_right Prod.mk.inj
    have hready := hr.after stable_orderWrites hs₂
    exact ⟨hready.knows.rowStep (sameRows_applyAll l'.log (.refl s₂.db)), trivial⟩
  | error e =>
    intro s₂ _ _ inp locked r l'' s₃ _ hx
    obtain ⟨-, rfl, rfl⟩ := Option.some.inj hx |> Prod.mk.inj |>.imp_right Prod.mk.inj
    exact ⟨RowStep.stays (.refl _), trivial⟩

theorem afterCommit {work : Door (α × List DomainEvent)} (h : Committable work) :
    Tidy (Door.afterCommit work) := by
  refine bind (transaction h) fun r => ?_
  obtain ⟨result, pending⟩ := r
  dsimp only
  split
  · exact pure _
  · exact bind (Harmless.perform rfl).tidy fun _ => pure _

end Tidy

end CafePos
