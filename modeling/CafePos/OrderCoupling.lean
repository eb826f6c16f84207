import CafePos.OrderWriters
import CafePos.EventReplay
import CafePos.ActivePayments

/-!
# The rows of an order, at every moment

Every door is tidy (`tidy_program`), and the retention jobs (`retention/retention.service.ts`) clear
names, trim payloads and delete keys between any two of their operations. So in every state the
rows of an order belong together, and what a state has of an order every later one keeps, but for
its number, its status, its payment window and the customer's name.
-/

namespace CafePos

open Interleaving

/-! ## Harmless helpers

What the doors do besides moving and inserting orders: each proof follows the branches of its
helper, and every leaf of it returns or throws. -/

theorem harmless_keyExpiry : Harmless keyExpiry := .bind (.perform rfl) fun _ => .pure _

theorem harmless_reserveKey (key requestHash : String) (expiresAt : Instant) :
    Harmless (reserveKey key requestHash expiresAt) := by
  refine .tryCatch (.raising (.statement rfl)) fun error => ?_
  split
  · exact .throw _
  · exact .throw _

theorem harmless_completeKey (key : String) (status : ℕ) (body : ResponseBody) :
    Harmless (completeKey key status body) := .statement rfl

theorem harmless_completedResponseFor (key : String) : Harmless (completedResponseFor key) := by
  refine .bind (.select _) fun stored => ?_
  cases stored with
  | none => exact .pure _
  | some stored => exact .pure _

theorem harmless_replayKey (key requestHash : String) : Harmless (replayKey key requestHash) := by
  refine .bind (.select _) fun stored => ?_
  cases stored with
  | none => exact .throw _
  | some stored =>
    dsimp only
    split
    · split
      · exact .throw _
      · exact .pure _
    · exact .throw _

theorem harmless_nextOrderNumber (businessDay : String) : Harmless (nextOrderNumber businessDay) :=
  .bind (.statement rfl) fun _ => .pure _

theorem harmless_resolveChannel (principal : Principal) (input : CreateOrderInput) :
    Harmless (resolveChannel principal input) := by
  cases principal with
  | staff userId =>
    rw [resolveChannel]
    split
    · exact .throw _
    · exact .pure _
  | device deviceId =>
    rw [resolveChannel]
    split
    · exact .throw _
    · split
      · exact .throw _
      · refine .bind (.perform rfl) fun status => ?_
        split
        · exact .throw _
        · exact .pure _

theorem harmless_readCatalog (menuItemIds : List Id) : Harmless (readCatalog menuItemIds) :=
  .bind (.perform rfl) fun _ => .pure _

theorem harmless_createIntent (request : CreateIntentRequest) : Harmless (createIntent request) := by
  refine .bind (.perform rfl) fun created => ?_
  cases created with
  | ok created => exact .pure _
  | error e => exact .throw _

theorem harmless_cancelIntent (intentId : String) : Harmless (cancelIntent intentId) := by
  refine .bind (.perform rfl) fun cancelled => ?_
  rcases cancelled with e | _
  · cases e with
    | unreachable => exact .throw _
    | invalidRequest =>
      refine .bind (.perform rfl) fun retrieved => ?_
      cases retrieved with
      | error e => exact .throw _
      | ok intent =>
        dsimp only
        split
        · exact .pure _
        · exact .pure _
        · exact .throw _
  · exact .pure _

theorem harmless_clientSecretFor (intentId : String) : Harmless (clientSecretFor intentId) := by
  refine .bind (.perform rfl) fun retrieved => ?_
  cases retrieved with
  | ok intent => exact .pure _
  | error e => exact .throw _

theorem harmless_resolveMethod (intentId : String) : Harmless (resolveMethod intentId) := by
  refine .bind (.perform rfl) fun retrieved => ?_
  cases retrieved with
  | ok intent => exact .pure _
  | error e => exact .pure _

theorem harmless_loadPayableOrder (principal : Principal) (orderId : Id) :
    Harmless (loadPayableOrder principal orderId) := by
  refine .bind (.select _) fun order => ?_
  cases order with
  | none => exact .throw _
  | some order =>
    dsimp only
    split
    · exact .throw _
    · split
      · exact .throw _
      · split
        · exact .throw _
        · refine .bind (.select _) fun live => ?_
          split
          · exact .throw _
          · exact .pure _

theorem harmless_insertPayment (orderId : Id) (values : Payment) :
    Harmless (insertPayment orderId values) := by
  refine .tryCatch (.raising (.statement rfl)) fun error => ?_
  split
  · exact .bind (.select _) fun _ => .throw _
  · exact .throw _

theorem harmless_rehydrate (body : ResponseBody) : Harmless (rehydrate body) := by
  cases body with
  | order view => exact .pure _
  | payment view =>
    rw [rehydrate]
    split
    · exact .pure _
    · refine .bind (.select _) fun row => ?_
      cases row with
      | none => exact .pure _
      | some row =>
        dsimp only
        split
        · exact .pure _
        · exact .bind (harmless_clientSecretFor _) fun _ => .pure _

theorem harmless_load (outcome : GatewayOutcome) : Harmless (load outcome) := by
  rw [load]
  split
  · exact .pure _
  · refine .bind (.select _) fun payment => ?_
    cases payment with
    | none => exact .pure _
    | some payment => exact .bind (.select _) fun _ => .pure _

theorem harmless_markProcessed (eventId : Id) (paymentId : Option Id) :
    Harmless (markProcessed eventId paymentId) := .statement rfl

theorem harmless_methodOf (paymentId : Id) : Harmless (methodOf paymentId) := by
  refine .bind (.select _) fun row => ?_
  cases row with
  | none => exact .pure _
  | some row =>
    dsimp only
    split
    · exact .pure _
    · exact harmless_resolveMethod _

theorem harmless_announceFailure (settled : Option Id) (status : PaymentStatus) (paymentId : Id) :
    Harmless (announceFailure settled status paymentId) := by
  cases settled with
  | none => exact .pure _
  | some orderId =>
    rw [announceFailure]
    split
    · refine .bind (.selectTx _) fun order => ?_
      cases order with
      | none => exact .pure _
      | some order => exact .pure _
    · exact .pure _

theorem harmless_cancelLiveIntent (live : Option (Id × Payment)) :
    Harmless (cancelLiveIntent live) := by
  rw [cancelLiveIntent]
  split
  · exact .pure _
  · refine .bind (.tryCatch (harmless_cancelIntent _) fun _ => .throw _) fun outcome => ?_
    cases outcome with
    | alreadySucceeded => exact .throw _
    | cancelled => exact .pure _

theorem harmless_settleLive (live : Option (Id × Payment)) (guarded : Bool) :
    Harmless (settleLive live guarded) := by
  cases live with
  | none => exact .pure _
  | some p => exact .bind (.statement rfl) fun _ => .pure _

theorem harmless_cancelOverdueIntent (live : Option (Id × Payment)) :
    Harmless (cancelOverdueIntent live) := by
  rw [cancelOverdueIntent]
  split
  · exact .pure _
  · exact harmless_cancelIntent _

/-! ## The doors -/

/-- `build` prices the basket, and leaves a whole order behind. -/
theorem committable_build (cfg : Config) (principal : Principal) (input : CreateOrderInput) :
    Committable (build cfg principal input) := by
  refine .preceded (harmless_resolveChannel _ _) fun channel => ?_
  refine .preceded (harmless_readCatalog _) fun catalog => ?_
  split
  · exact .throw
  · rename_i priced hpriced
    split
    · exact .throw
    · exact committable_persist cfg principal channel input hpriced

theorem tidy_create (cfg : Config) (principal : Principal) (input : CreateOrderInput)
    (idempotencyKey : Option String) : Tidy (create cfg principal input idempotencyKey) := by
  cases idempotencyKey with
  | none => exact .bind (.transaction (committable_build cfg principal input)) fun _ => .pure _
  | some key =>
    refine .tryCatch (.bind (.transaction ?_) fun _ => .pure _) fun error => ?_
    · refine .preceded harmless_keyExpiry fun _ => .preceded (harmless_reserveKey _ _ _) fun _ => ?_
      exact .followed (committable_build cfg principal input) fun view =>
        .bind (harmless_completeKey _ _ _) fun _ => .pure _
    · split
      · exact .bind (harmless_replayKey _ _).tidy fun _ => .pure _
      · exact .throw _

theorem tidy_checkout (cfg : Config) (principal : Principal) (orderId : Id) :
    Tidy (checkout cfg principal orderId) := by
  refine .transaction (.preceded (.selectTx _) fun current => ?_)
  cases current with
  | none => exact .throw
  | some current =>
    dsimp only
    split
    · exact .throw
    · refine .bind (leads_transitionOrder _) fun _ => ?_
      refine .bind (.harmless (stable_movedBy _) (harmless_nextOrderNumber _)) fun number => ?_
      refine .bind (.harmless (stable_movedBy _) (.perform rfl)) fun now => ?_
      refine .bind (leads_queueOrder rfl _ _) fun queued => ?_
      cases queued with
      | none => exact .throw
      | some queued => exact .pure fun h => h

theorem tidy_write (reservation : Option (String × String))
    {work : Door (PaymentView × List DomainEvent)} (h : Committable work) :
    Tidy (write reservation work) := by
  cases reservation with
  | none => exact .bind (.afterCommit h) fun _ => .pure _
  | some r =>
    refine .tryCatch (.bind (.afterCommit ?_) fun _ => .pure _) fun error => ?_
    · refine .preceded harmless_keyExpiry fun _ => .preceded (harmless_reserveKey _ _ _) fun _ => ?_
      exact .followed h fun _ => .bind (harmless_completeKey _ _ _) fun _ => .pure _
    · split
      · exact .bind (harmless_replayKey _ _).tidy fun _ =>
          .bind (harmless_rehydrate _).tidy fun _ => .pure _
      · exact .throw _

theorem tidy_pay (principal : Principal) (orderId : Id) (input : CreatePaymentInput)
    (reservation : Option (String × String)) :
    Tidy (pay principal orderId input reservation) := by
  refine .bind (harmless_loadPayableOrder _ _).tidy fun order => ?_
  split
  · cases principal with
    | device deviceId => exact .throw _
    | staff userId =>
      rw [takeCash]
      split
      · exact .throw _
      · split
        · exact .throw _
        · refine tidy_write _ (.preceded (harmless_insertPayment _ _) fun paymentId => ?_)
          exact .followed (committable_transitionOrder (by simp)) fun _ => .pure _
  · refine .bind (harmless_createIntent _).tidy fun created => ?_
    exact tidy_write _ (.harmless (.bind (harmless_insertPayment _ _) fun _ => .pure _))

theorem tidy_createPayment (cfg : Config) (principal : Principal) (orderId : Id)
    (input : CreatePaymentInput) (idempotencyKey : Option String) :
    Tidy (createPayment cfg principal orderId input idempotencyKey) := by
  cases idempotencyKey with
  | none => exact tidy_pay principal orderId input none
  | some key =>
    refine .bind (harmless_completedResponseFor key).tidy fun stored => ?_
    cases stored with
    | none => exact tidy_pay principal orderId input _
    | some stored =>
      dsimp only
      split
      · exact .throw _
      · exact .bind (harmless_rehydrate _).tidy fun _ => .pure _

theorem tidy_refund (cfg : Config) (userId paymentId : Id) (input : CreateRefundInput) :
    Tidy (refund cfg userId paymentId input) := by
  refine .bind (Harmless.select _).tidy fun payment => ?_
  cases payment with
  | none => exact .throw _
  | some payment =>
    dsimp only
    split
    · exact .throw _
    · refine .bind (Harmless.select _).tidy fun order => ?_
      cases order with
      | none => exact .throw _
      | some order =>
        refine .bind (Harmless.perform rfl).tidy fun now => ?_
        split
        · exact .throw _
        · refine .afterCommit (.preceded (.statement rfl) fun _ => .preceded (.selectTx _)
            fun already => ?_)
          split
          · exact .throw
          · refine .preceded (.raising (.statement rfl)) fun id => ?_
            split
            · exact .followed (committable_transitionOrder (by simp)) fun _ => .pure _
            · exact .harmless (.pure _)

theorem tidy_markPaid (eventId paymentId orderId : Id) : Tidy (markPaid eventId paymentId orderId) := by
  refine .bind (harmless_methodOf _).tidy fun method => ?_
  refine .bind (.afterCommit ?_) fun _ => .pure _
  exact .followed (committable_transitionOrder (by simp)) fun _ => .bind (.statement rfl) fun _ =>
    .bind (harmless_markProcessed _ _) fun _ => .pure _

theorem tidy_markPayment (eventId paymentId : Id) (status : PaymentStatus) :
    Tidy (markPayment eventId paymentId status) := by
  refine .bind (.afterCommit (.harmless ?_)) fun _ => .pure _
  exact .bind (.statement rfl) fun _ => .bind (harmless_markProcessed _ _) fun _ =>
    .bind (harmless_announceFailure _ _ _) fun _ => .pure _

theorem tidy_processEvent (eventId : Id) : Tidy (processEvent eventId) := by
  refine .tryCatch (.bind (Harmless.select _).tidy fun event => ?_) fun _ => .pure _
  cases event with
  | none => exact .pure _
  | some event =>
    dsimp only
    split
    · exact .throw _
    · refine .bind (harmless_load _).tidy fun loaded => ?_
      obtain ⟨payment, order⟩ := loaded
      dsimp only
      generalize decidePaymentOutcome _ payment order = decision
      cases decision with
      | refuse why => exact .pure _
      | skip why => exact .bind (harmless_markProcessed _ _).tidy fun _ => .pure _
      | markPayment paymentId status => exact tidy_markPayment eventId paymentId status
      | markPaid paymentId orderId => exact tidy_markPaid eventId paymentId orderId

theorem tidy_cancel (principal : Principal) (orderId : Id) (reason : Option String) :
    Tidy (cancel principal orderId reason) := by
  refine .bind (Harmless.select _).tidy fun current => ?_
  cases current with
  | none => exact .throw _
  | some current =>
    dsimp only
    split
    · exact .throw _
    · refine .bind (Harmless.select _).tidy fun rows => ?_
      refine .bind (harmless_cancelLiveIntent _).tidy fun _ => .afterCommit ?_
      exact .followed (committable_transitionOrder (by simp)) fun _ =>
        .bind (harmless_settleLive _ _) fun _ => .pure _

theorem tidy_expireOne (orderId : Id) : Tidy (expireOne orderId) := by
  refine .tryCatch (.bind (Harmless.select _).tidy fun rows => ?_) fun _ => .pure _
  refine .bind (harmless_cancelOverdueIntent _).tidy fun outcome => ?_
  cases outcome with
  | alreadySucceeded => exact .pure _
  | cancelled =>
    refine .bind (.transaction ?_) fun _ => .pure _
    exact .followed (committable_transitionOrder (by simp)) fun _ =>
      .bind (harmless_settleLive _ _) fun _ => .pure _

/-- Staff never move an order to `PENDING_PAYMENT`. -/
theorem tidy_transition (principal : Principal) (orderId : Id) (target : OrderStatus) :
    Tidy (transition principal orderId target) := by
  refine .afterCommit (.preceded (.selectTx _) fun current => ?_)
  cases current with
  | none => exact .throw
  | some current =>
    dsimp only
    split
    · rename_i hstaff
      refine .followed (committable_transitionOrder ?_) fun _ => .pure _
      rintro rfl
      revert hstaff
      cases current.status <;> decide
    · exact .throw

/-- Every door is tidy. -/
theorem tidy_program (cfg : Config) (c : Call) (l : Sess) (s : Shared) :
    rowSpec.wp machine c (fun _ _ _ => True) (program cfg c) l s := by
  have htidy : ∀ {α : Type} {m : Door α}, Tidy m →
      rowSpec.wp machine c (fun _ _ _ => True) m.run l s := fun hm =>
    Spec.wp_mono (fun _ _ _ _ _ => trivial) (hm c l s)
  cases c with
  | createOrder principal input key => exact htidy (.map (tidy_create cfg principal input key))
  | checkout principal orderId => exact htidy (.map (tidy_checkout cfg principal orderId))
  | createPayment principal orderId input key =>
    exact htidy (.map (tidy_createPayment cfg principal orderId input key))
  | record event => exact htidy (.map (Harmless.statement rfl).tidy)
  | processEvent eventId => exact htidy (.map (tidy_processEvent eventId))
  | cancel principal orderId reason => exact htidy (.map (tidy_cancel principal orderId reason))
  | expireOne orderId => exact htidy (.map (tidy_expireOne orderId))
  | transition principal orderId target =>
    exact htidy (.map (tidy_transition principal orderId target))
  | refund userId paymentId input =>
    exact htidy (.map (tidy_refund cfg userId paymentId input))

/-! ## The retention jobs -/

/-- `clearCustomerNames`, one batch: of the orders picked, those created before the cutoff that
still have a name. -/
def Db.clearCustomerNames (db : Db) (createdAt : Id → Instant) (cutoff : Instant)
    (batch : List Id) : Db :=
  { db with orders := db.orders.mapKeyed fun id o =>
      if o.customerName.isSome && decide (createdAt id < cutoff) && batch.contains id then
        { o with customerName := none }
      else o }

/-- `trimEventPayloads`, one batch: of the events picked, those received before the cutoff that
have not been trimmed. -/
def Db.trimEventPayloads (db : Db) (overdue : Id → Bool) (batch : List Id) : Db :=
  { db with paymentEvents := db.paymentEvents.mapKeyed fun id event =>
      if overdue id && batch.contains id then trimEvent event else event }

/-- One statement of a retention job, on the rows its inner select has picked. The stale refresh
tokens are in none of these tables. -/
inductive RetentionBatch where
  | customerNames (createdAt : Id → Instant) (cutoff : Instant) (batch : List Id)
  | eventPayloads (overdue : Id → Bool) (batch : List Id)
  | idempotencyKeys (cutoff : Instant) (batch : List String)

namespace RetentionBatch

/-- What the statement does. -/
def run (db : Db) : RetentionBatch → Db
  | customerNames createdAt cutoff batch => db.clearCustomerNames createdAt cutoff batch
  | eventPayloads overdue batch => db.trimEventPayloads overdue batch
  | idempotencyKeys cutoff batch => db.deleteExpiredIdempotencyKeys cutoff batch

/-- The rows it needs. -/
def rows : RetentionBatch → List Row
  | customerNames _ _ batch => batch.map .order
  | eventPayloads _ batch => batch.map .event
  | idempotencyKeys _ batch => batch.map .key

/-- It leaves alone the rows it does not need. -/
theorem keeps {b : RetentionBatch} {x : Row} (hx : x ∉ b.rows) (db : Db) : x.Keeps db (b.run db) := by
  cases b with
  | customerNames createdAt cutoff batch =>
    cases x with
    | order id =>
      have hid : batch.contains id = false := by
        rw [List.contains_eq_mem, decide_eq_false_iff_not]
        exact fun hid => hx (List.mem_map_of_mem hid)
      refine (Table.get_mapKeyed ..).trans ?_
      rw [hid]
      simp
    | payment id => exact ⟨rfl, rfl⟩
    | livePayment o | intent i | paymentKey k => exact fun h => h
    | event id | key k | counter day => rfl
  | eventPayloads overdue batch =>
    cases x with
    | event id =>
      have hid : batch.contains id = false := by
        rw [List.contains_eq_mem, decide_eq_false_iff_not]
        exact fun hid => hx (List.mem_map_of_mem hid)
      refine (Table.get_mapKeyed ..).trans ?_
      rw [hid]
      simp
    | payment id => exact ⟨rfl, rfl⟩
    | livePayment o | intent i | paymentKey k => exact fun h => h
    | order id | key k | counter day => rfl
  | idempotencyKeys cutoff batch =>
    cases x with
    | key k =>
      have hk : batch.contains k = false := by
        rw [List.contains_eq_mem, decide_eq_false_iff_not]
        exact fun hk => hx (List.mem_map_of_mem hk)
      refine (Table.get_keep ..).trans ?_
      rw [hk]
      cases db.idempotencyKeys.get k with
      | none => rfl
      | some row => simp
    | payment id => exact ⟨rfl, rfl⟩
    | livePayment o | intent i | paymentKey k => exact fun h => h
    | order id | event id | counter day => rfl

/-- An order afterwards: its name may be gone. -/
theorem order (b : RetentionBatch) (db : Db) (id : Id) :
    (b.run db).orders.get id = db.orders.get id ∨
      ∃ o, db.orders.get id = some o ∧
        (b.run db).orders.get id = some { o with customerName := none } := by
  cases b with
  | eventPayloads | idempotencyKeys => exact Or.inl rfl
  | customerNames createdAt cutoff batch =>
    have hget := Table.get_mapKeyed db.orders (fun id o =>
      if o.customerName.isSome && decide (createdAt id < cutoff) && batch.contains id then
        { o with customerName := none }
      else o) id
    cases ho : db.orders.get id with
    | none =>
      rw [ho] at hget
      exact Or.inl hget
    | some o =>
      rw [ho, Option.map_some] at hget
      split at hget
      · exact Or.inr ⟨o, rfl, hget⟩
      · exact Or.inl hget

/-- The same, from the row afterwards. -/
theorem of_order {b : RetentionBatch} {db : Db} {id : Id} {o' : Order}
    (h : (b.run db).orders.get id = some o') : ∃ o, db.orders.get id = some o ∧ o.Kept o' ∧
      o'.status = o.status ∧ o'.expiresAt = o.expiresAt ∧ o'.orderNumber = o.orderNumber := by
  rcases b.order db id with hsame | ⟨o, ho, hcleared⟩
  · exact ⟨o', hsame ▸ h, .refl o', rfl, rfl, rfl⟩
  · obtain rfl := Option.some.inj (hcleared.symm.trans h)
    exact ⟨o, ho, ⟨rfl, Or.inr rfl⟩, rfl, rfl, rfl⟩

theorem orderItems (b : RetentionBatch) (db : Db) : (b.run db).orderItems = db.orderItems := by
  cases b <;> rfl

theorem orderStatusHistory (b : RetentionBatch) (db : Db) :
    (b.run db).orderStatusHistory = db.orderStatusHistory := by
  cases b <;> rfl

theorem rowsKept (b : RetentionBatch) (db : Db) : RowsKept db (b.run db) := by
  intro id o ho
  have hitems : (b.run db).itemsOf id = db.itemsOf id := by
    rw [Db.itemsOf, Db.itemsOf, b.orderItems]
  rcases b.order db id with hsame | ⟨o₁, ho₁, hcleared⟩
  · exact ⟨o, hsame.trans ho, .refl o, hitems⟩
  · obtain rfl := Option.some.inj (ho₁.symm.trans ho)
    exact ⟨_, hcleared, ⟨rfl, Or.inr rfl⟩, hitems⟩

theorem coupled {b : RetentionBatch} {db : Db} (h : Coupled db) : Coupled (b.run db) := by
  have hthere : ∀ {id}, (∃ o, db.orders.get id = some o) → ∃ o, (b.run db).orders.get id = some o := by
    rintro id ⟨o, ho⟩
    obtain ⟨o', ho', -⟩ := b.rowsKept db id o ho
    exact ⟨o', ho'⟩
  refine ⟨?_, ?_, ?_, ?_, ?_, ?_⟩
  · intro id o' ho'
    obtain ⟨o, ho, -, hstatus, hexpires, -⟩ := of_order ho'
    rw [hstatus, hexpires]
    exact h.expiresAt ho
  · intro id o' ho'
    obtain ⟨o, ho, -, -, -, hnumber⟩ := of_order ho'
    rw [hnumber, Db.historyOf, b.orderStatusHistory]
    exact h.orderNumber ho
  · intro id o' ho'
    obtain ⟨o, ho, hkept, -⟩ := of_order ho'
    have hsubtotal : o'.subtotalMinor = o.subtotalMinor := by rw [← hkept.bill]
    have htotal : o'.totalMinor = o.totalMinor := by rw [← hkept.bill]
    rw [hsubtotal, htotal]
    exact h.subtotalMinor ho
  · intro id o' ho'
    obtain ⟨o, ho, hkept, -⟩ := of_order ho'
    have htotal : o'.totalMinor = o.totalMinor := by rw [← hkept.bill]
    rw [htotal, Db.lineTotal, Db.itemsOf, b.orderItems]
    exact h.totalMinor ho
  · intro i hi
    rw [b.orderItems] at hi
    exact hthere (h.item i hi)
  · intro row hrow
    rw [b.orderStatusHistory] at hrow
    exact hthere (h.row row hrow)

end RetentionBatch

/-! ## Every moment -/

/-- The runs of the system in which the retention jobs run as well, each of their statements when
nobody holds a row it needs. -/
inductive Tended (cfg : Config) (w₀ : PosWorld) : PosWorld → Prop
  | refl : Tended cfg w₀ w₀
  | act {w w' : PosWorld} {a : PosAct} : Tended cfg w₀ w → w.act (system cfg) a = some w' →
      Tended cfg w₀ w'
  | retain {w : PosWorld} {b : RetentionBatch} : Tended cfg w₀ w →
      (∀ t ∈ w.threads, ∀ x ∈ t.session.held, x ∉ b.rows) →
      Tended cfg w₀ ⟨{ w.shared with db := b.run w.shared.db }, w.threads⟩

namespace Tended

variable {cfg : Config} {w₀ w w' : PosWorld}

/-- A run without retention jobs. -/
theorem of_runs (h : Runs (system cfg) .all w₀ w) : Tended cfg w₀ w := by
  induction h with
  | refl => exact .refl
  | tail _ _ hs ih => exact ih.act hs

/-- Every call keeps the rows of the orders together. -/
theorem starts (cfg : Config) (base : Shared) (n : ℕ) :
    Starts rowSpec (system cfg) base n fun _ _ _ _ _ => True :=
  fun _ c s _ _ _ _ => tidy_program cfg c idle s

/-- The customer at the gateway touches no order. -/
theorem happens (cfg : Config) : Happens rowSpec (system cfg) := by
  intro e s s' _ hinv hs
  have hdb : s'.db = s.db := happen_db hs
  refine ⟨?_, ?_⟩
  · change Coupled s'.db
    rw [hdb]
    exact hinv
  · change RowsKept s.db s'.db
    rw [hdb]
    exact .refl _

/-- **Step and run**: from a world whose calls are on their way, every such run leads to one. -/
theorem sound {base : Shared} {n : ℕ} (h : Tended cfg w₀ w)
    (h₀ : Sound rowSpec (system cfg) base n (fun _ _ _ _ _ => True) w₀) :
    Sound rowSpec (system cfg) base n (fun _ _ _ _ _ => True) w := by
  induction h with
  | refl => exact h₀
  | act _ hs ih => exact ih.act (starts cfg base n) (happens cfg) (Runs.allows_all _ _) hs
  | @retain v b _ hfree ih =>
    exact ih.disturb (RetentionBatch.coupled ih.inv) (b.rowsKept _) fun t ht x hx =>
      RetentionBatch.keeps (hfree t ht x hx) _

/-- A world that is reached from the opening. -/
theorem sound_opening (h : Tended cfg opening w) :
    Sound rowSpec (system cfg) opening.shared 0 (fun _ _ _ _ _ => True) w :=
  h.sound (.initial .empty)

/-- What an order's rows are, a later world keeps. -/
theorem rowsKept (h : Tended cfg opening w) (h' : Tended cfg w w') :
    RowsKept w.shared.db w'.shared.db := by
  have hw := h.sound_opening
  have hrebased : Sound rowSpec (system cfg) w.shared w.threads.length
      (fun _ _ _ _ _ => True) w := by
    refine hw.rebase (.refl _) hw.inv ?_ ?_
    · exact fun _ _ _ s _ _ hinv hrely _ => ⟨s, hinv, hrely, trivial⟩
    · exact fun _ _ _ _ _ _ _ _ _ => trivial
  exact (h'.sound hrebased).since

end Tended

/-- In every committed state, however the doors and the retention jobs interleave: an order has a
payment window exactly while it waits for payment, it has no number exactly if it has never waited
for payment, and its subtotal and its total are the sum of its lines; and at every later moment it
is the order it was, with the lines and options it had, but for its number, its status, its payment
window and the customer's name, which may only have been cleared. -/
theorem order_rows_together {cfg : Config} {w : PosWorld} (h : Tended cfg opening w) {id : Id}
    {o : Order} (ho : w.shared.db.orders.get id = some o) :
    (o.expiresAt.isSome ↔ o.status = .pendingPayment) ∧
      (o.orderNumber = none ↔
        ∀ row ∈ w.shared.db.historyOf id, row.toStatus ≠ .pendingPayment) ∧
      o.subtotalMinor = o.totalMinor ∧ o.totalMinor = w.shared.db.lineTotal id ∧
      ∀ w', Tended cfg w w' → ∃ o', w'.shared.db.orders.get id = some o' ∧
        { o' with
          orderNumber := o.orderNumber
          status := o.status
          expiresAt := o.expiresAt
          customerName := o.customerName } = o ∧
        (o'.customerName = o.customerName ∨ o'.customerName = none) ∧
        w'.shared.db.itemsOf id = w.shared.db.itemsOf id := by
  have hc : Coupled w.shared.db := h.sound_opening.inv
  refine ⟨hc.expiresAt ho, hc.orderNumber ho, hc.subtotalMinor ho, hc.totalMinor ho, fun w' h' => ?_⟩
  obtain ⟨o', ho', hkept, hitems⟩ := h.rowsKept h' id o ho
  exact ⟨o', ho', hkept.bill, hkept.customerName, hitems⟩

/-- One latte, for whoever is called "window seat". -/
def latteForTheWindow : CreateOrderInput := { oneLatte with customerName := some "window seat" }

/-- The order is waiting for payment, and nobody holds a row. -/
def waitsByName (w : PosWorld) : Bool :=
  (w.shared.db.orders.get 100).any (fun o => o.status == .pendingPayment &&
    o.customerName == some "window seat") && w.threads.all fun t => t.session.held.isEmpty

/-- The latte is ordered, and before it is paid for the name is cleared. -/
theorem order_rows_together_latte : ∃ w w' o o', Tended cornerCafe opening w ∧
    Tended cornerCafe w w' ∧ w.shared.db.orders.get 100 = some o ∧
    w'.shared.db.orders.get 100 = some o' ∧ o.expiresAt.isSome = true ∧
    o.customerName = some "window seat" ∧ o'.customerName = none ∧
    o'.totalMinor = w.shared.db.lineTotal 100 := by
  obtain ⟨w, hw, hwaits⟩ := Reachable.exists_of_runIf cornerCafe
    (.start (.createOrder (.staff 7) latteForTheWindow none) :: steps 0 8 (supply 100 ""))
    (fun w => waitsByName w = true) (by decide)
  obtain ⟨hthere, hfree⟩ := (Bool.and_eq_true _ _).mp hwaits
  obtain ⟨o, ho, hwaiting⟩ := (Option.any_eq_true _ _).mp hthere
  obtain ⟨hstatus, hname⟩ := (Bool.and_eq_true _ _).mp hwaiting
  obtain ⟨hexpires, -, -, htotal, hlater⟩ := order_rows_together (.of_runs hw) ho
  have hstep : Tended cornerCafe w _ := Tended.refl.retain
    (b := .customerNames (fun _ => 0) 1 [100]) fun t ht x hx => by
      have hnone := List.isEmpty_iff.mp (List.all_eq_true.mp hfree t ht)
      rw [hnone] at hx
      cases hx
  obtain ⟨o', ho', hbill, -, -⟩ := hlater _ hstep
  have hcleared : some o' = some { o with customerName := none } := by
    refine ho'.symm.trans ((Table.get_mapKeyed ..).trans ?_)
    rw [ho, Option.map_some, beq_iff_eq.mp hname]
    rfl
  refine ⟨w, _, o, o', .of_runs hw, hstep, ho, ho', hexpires.mpr (beq_iff_eq.mp hstatus),
    beq_iff_eq.mp hname, ?_, ?_⟩
  · rw [Option.some.inj hcleared]
  · rw [Option.some.inj hcleared]
    exact htotal

end CafePos
