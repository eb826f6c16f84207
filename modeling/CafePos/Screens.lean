import CafePos.Lookups
import CafePos.Ledger

/-!
# The bar screens

`AfterCommit.run`, on any number of instances: a transaction moves an order and commits, and what
it emitted is then published, event by event (`SocketRealtimePublisher.publish`): the order is
read as a ticket (`KdsService.ticketFor`), and the ticket is broadcast. Commit, read and broadcast
are separate steps, and the steps of all calls interleave freely. Beside them, orders are created,
checked out and expire. Every broadcast reaches the screens, in the order of the broadcasts.

* `State.Good` — every order that was broadcast has its own ticket on the screens, or another
  broadcast of its ticket is still to come;
* `State.Fresh` — an outdated ticket is broadcast only while one is to come;
* `Good.act` — what one step preserves;
* `screens_converge` — in every run of such steps, whenever nothing is being published, the last
  ticket of every order is that of its row.
-/

namespace CafePos.Screens

open Interleaving

/-! ## Tickets -/

/-- `KdsTicket`: the order, and what has to be made. -/
structure KdsTicket where
  summary : OrderSummary
  items : List OrderItemView
  deriving DecidableEq

/-- `KdsService.ticketFor`. -/
def ticketFor (db : Db) (orderId : Id) : Option KdsTicket :=
  (db.orders.get orderId).map fun row =>
    ⟨toOrderSummary orderId row, toOrderLines (db.itemsOf orderId)⟩

/-! ## Audiences -/

/-- `event.orderId`. -/
def orderOf : DomainEvent → Id
  | .orderPaid orderId _ => orderId
  | .orderUpdated orderId _ => orderId
  | .orderReady orderId _ => orderId
  | .paymentSucceeded orderId _ _ => orderId
  | .paymentFailed orderId _ _ => orderId

/-- `KDS_EVENTS`. -/
def forKds : DomainEvent → Bool
  | .orderPaid .. => true
  | .orderUpdated .. => true
  | .orderReady .. => true
  | _ => false

/-- `KIOSK_EVENTS`: the device to tell, if there is one. -/
def kioskOf : DomainEvent → Option Id
  | .paymentSucceeded _ deviceId _ => deviceId
  | .paymentFailed _ deviceId _ => deviceId
  | .orderReady _ deviceId => deviceId
  | _ => none

/-! ## The work that is run -/

/-- The transactions that `AfterCommit.run` is given, as far as orders go. -/
inductive Work where
  /-- `CancelOrderService.cancel` -/
  | cancel (orderId : Id) (source : OrderStatus)
  /-- `OrderStatusService.transition` -/
  | transition (orderId : Id) (source target : OrderStatus)
  /-- `CreateRefundService.refund`, of all that is left -/
  | refund (orderId : Id) (source : OrderStatus)
  /-- `CreatePaymentService.create`, in cash -/
  | cash (orderId : Id)
  /-- `markPaid` -/
  | markPaid (orderId paymentId : Id)
  /-- `markPayment`: no order moves -/
  | markPayment (orderId paymentId : Id)
  deriving DecidableEq

namespace Work

/-- The order it is about. -/
def orderId : Work → Id
  | cancel orderId _ => orderId
  | transition orderId _ _ => orderId
  | refund orderId _ => orderId
  | cash orderId => orderId
  | markPaid orderId _ => orderId
  | markPayment orderId _ => orderId

/-- The move that it asks `transitionOrder` for. -/
def move : Work → Option (OrderStatus × OrderStatus)
  | cancel _ source => some (source, .cancelled)
  | transition _ source target => some (source, target)
  | refund _ source => some (source, .refunded)
  | cash _ => some (.pendingPayment, .paid)
  | markPaid _ _ => some (.pendingPayment, .paid)
  | markPayment _ _ => none

/-- What it checks before it moves the order. -/
def allowed : Work → Bool
  | cancel _ source => cancellable.contains source
  | transition _ source target => isStaffTransition source target
  | refund _ source => isLegalTransition source .refunded
  | _ => true

/-- What it emits. -/
def events (deviceId : Option Id) : Work → List DomainEvent
  | cancel orderId _ => [.orderUpdated orderId deviceId]
  | transition orderId _ target =>
    [if target = .ready then .orderReady orderId deviceId else .orderUpdated orderId deviceId]
  | refund orderId _ => [.orderUpdated orderId deviceId]
  | cash orderId => [.orderPaid orderId deviceId]
  | markPaid orderId paymentId =>
    [.orderPaid orderId deviceId, .paymentSucceeded orderId deviceId paymentId]
  | markPayment orderId paymentId => [.paymentFailed orderId deviceId paymentId]

/-- The transaction: the database it commits and the events it has emitted; `none` if it throws. -/
def commit (work : Work) (db : Db) : Option (Db × List DomainEvent) :=
  (db.orders.get work.orderId).bind fun row =>
    match work.move with
    | none => some (db, work.events row.kioskDeviceId)
    | some (source, target) =>
      if row.status = source ∧ work.allowed then
        some ({ db with orders := db.orders.put work.orderId (Statement.moved row source target) },
          work.events row.kioskDeviceId)
      else none

end Work

/-! ## The system -/

/-- A call of `AfterCommit.run`. -/
inductive Run where
  /-- before the commit -/
  | working (work : Work)
  /-- publishing; the first event is next -/
  | publishing (events : List DomainEvent)
  /-- the order of the first event has been read -/
  | holding (ticket : KdsTicket) (event : DomainEvent) (events : List DomainEvent)

/-- A ticket as it was broadcast. -/
structure Broadcast where
  event : DomainEvent
  ticket : KdsTicket

/-- The database, the calls, and what was broadcast to the two namespaces. -/
structure State where
  db : Db
  runs : List Run
  kds : List Broadcast
  kiosk : List (Id × Broadcast)

/-- Nothing stored and nothing on the screens. -/
def opening : State := ⟨.empty, [], [], []⟩

/-- The statuses of an order that nothing has been said about. -/
def unannounced : OrderStatus → Bool
  | .draft => true
  | .pendingPayment => true
  | _ => false

/-- What can happen. -/
inductive Act where
  /-- `OrdersService.create` -/
  | create (id : Id) (row : Order) (items : List OrderItem)
  /-- `CheckoutOrderService.checkout` -/
  | checkout (id : Id) (orderNumber : String) (expiresAt : Instant)
  /-- `OrderExpiryService.expireOne` -/
  | expire (id : Id)
  /-- `AfterCommit.run` is called -/
  | run (work : Work)
  /-- call `i` takes its next step -/
  | proceed (i : ℕ)

namespace State

/-- The next step of call `i`: commit, read a ticket, or broadcast it. -/
def proceed (s : State) (i : ℕ) : Run → Option State
  | .working work =>
    match work.commit s.db with
    | none => some { s with runs := s.runs.set i (.publishing []) }
    | some (db, events) => some { s with db, runs := s.runs.set i (.publishing events) }
  | .publishing [] => none
  | .publishing (event :: events) =>
    if !forKds event && (kioskOf event).isNone then
      some { s with runs := s.runs.set i (.publishing events) }
    else
      match ticketFor s.db (orderOf event) with
      | none => some { s with runs := s.runs.set i (.publishing events) }
      | some ticket => some { s with runs := s.runs.set i (.holding ticket event events) }
  | .holding ticket event events =>
    some { s with
      runs := s.runs.set i (.publishing events)
      kds := if forKds event then s.kds ++ [⟨event, ticket⟩] else s.kds
      kiosk := s.kiosk ++ (kioskOf event).toList.map fun deviceId => (deviceId, ⟨event, ticket⟩) }

/-- What happens, if it can. -/
def act (s : State) : Act → Option State
  | .create id row items =>
    if s.db.orders.get id = none ∧ unannounced row.status ∧ ∀ item ∈ items, item.orderId = id then
      some { s with db := { s.db with
        orders := s.db.orders.put id row
        orderItems := s.db.orderItems ++ items } }
    else none
  | .checkout id orderNumber expiresAt =>
    (s.db.orders.get id).bind fun row =>
      if row.status = .draft then
        some { s with db := { s.db with
          orders := s.db.orders.put id (queued row orderNumber expiresAt) } }
      else none
  | .expire id =>
    (s.db.orders.get id).bind fun row =>
      if row.status = .pendingPayment then
        some { s with db := { s.db with
          orders := s.db.orders.put id (Statement.moved row .pendingPayment .expired) } }
      else none
  | .run work => some { s with runs := s.runs ++ [.working work] }
  | .proceed i => (s.runs[i]?).bind (s.proceed i)

end State

/-- The states that permitted actions lead to. -/
inductive Runs (P : State → Act → Prop) : State → Prop
  | opening : Runs P opening
  | act {s s' : State} {a : Act} : Runs P s → P s a → s.act a = some s' → Runs P s'

/-! ## What is on the screens, and what is to come -/

/-- An event for the bar screens about an order. -/
def Announces (events : List DomainEvent) (orderId : Id) : Prop :=
  ∃ event ∈ events, forKds event = true ∧ orderOf event = orderId

/-- The events a call has not broadcast. -/
def Run.pending : Run → List DomainEvent
  | working _ => []
  | publishing events => events
  | holding _ event events => event :: events

/-- The call will broadcast the ticket of an order as it is, or has yet to read it. -/
def Run.Coming (db : Db) (orderId : Id) : Run → Prop
  | working _ => False
  | publishing events => Announces events orderId
  | holding ticket event events =>
    forKds event = true ∧ orderOf event = orderId ∧ ticketFor db orderId = some ticket ∨
      Announces events orderId

namespace State

/-- The broadcasts about an order. -/
def broadcasts (s : State) (orderId : Id) : List Broadcast :=
  s.kds.filter fun b => orderOf b.event == orderId

/-- The last ticket of an order that was broadcast. -/
def lastTicket (s : State) (orderId : Id) : Option KdsTicket :=
  (s.broadcasts orderId).getLast?.map Broadcast.ticket

/-- A ticket of an order as it is is still to come. -/
def Coming (s : State) (orderId : Id) : Prop := ∃ r ∈ s.runs, r.Coming s.db orderId

/-- Nothing is being published. -/
def Quiet (s : State) : Prop := ∀ r ∈ s.runs, r.pending = []

/-- If call `i` holds a ticket, it is that of the order as it is, or another one is to come. -/
def MayBroadcast (s : State) (i : ℕ) : Option Run → Prop
  | some (.holding ticket event events) =>
    forKds event = true → ticketFor s.db (orderOf event) = some ticket ∨
      ∃ r ∈ s.runs.set i (.publishing events), r.Coming s.db (orderOf event)
  | _ => True

/-- An outdated ticket is broadcast only while a ticket of the order as it is is still to come. -/
def Fresh (s : State) : Act → Prop
  | .proceed i => s.MayBroadcast i s.runs[i]?
  | _ => True

/-- The order is spoken of, on the screens or by a call. -/
def Mentions (s : State) (orderId : Id) : Prop :=
  s.broadcasts orderId ≠ [] ∨ ∃ r ∈ s.runs, Announces r.pending orderId

/-- What holds in every state. -/
structure Good (s : State) : Prop where
  announced : ∀ orderId, s.Mentions orderId →
    ∃ row, s.db.orders.get orderId = some row ∧ unannounced row.status = false
  current : ∀ orderId, s.broadcasts orderId ≠ [] →
    s.lastTicket orderId = ticketFor s.db orderId ∨ s.Coming orderId

end State

/-! ## What a step preserves -/

theorem Run.Coming.announces {r : Run} {db : Db} {orderId : Id} (h : r.Coming db orderId) :
    Announces r.pending orderId := by
  cases r with
  | working work => exact h.elim
  | publishing events => exact h
  | holding ticket event events =>
    rcases h with ⟨hkds, horder, -⟩ | ⟨e, he, hrest⟩
    · exact ⟨event, List.mem_cons_self, hkds, horder⟩
    · exact ⟨e, List.mem_cons_of_mem _ he, hrest⟩

/-- The ticket of another order is another matter. -/
theorem Run.Coming.congr {r : Run} {db db' : Db} {orderId : Id} (h : r.Coming db orderId)
    (heq : ticketFor db' orderId = ticketFor db orderId) : r.Coming db' orderId := by
  cases r with
  | working work => exact h.elim
  | publishing events => exact h
  | holding ticket event events =>
    rcases h with ⟨hkds, horder, hticket⟩ | hrest
    · exact Or.inl ⟨hkds, horder, heq.trans hticket⟩
    · exact Or.inr hrest

theorem mem_or_mem_set {α : Type} {l : List α} {i : ℕ} {a b x : α} (ha : l[i]? = some a)
    (hx : x ∈ l) : x = a ∨ x ∈ l.set i b := by
  obtain ⟨j, hj⟩ := List.mem_iff_getElem?.mp hx
  by_cases hij : i = j
  · subst hij
    exact Or.inl (Option.some.inj (hj.symm.trans ha))
  · refine Or.inr (List.mem_iff_getElem?.mpr ⟨j, ?_⟩)
    rw [List.getElem?_set_ne hij]
    exact hj

theorem mem_set_self {α : Type} {l : List α} {i : ℕ} {a b : α} (ha : l[i]? = some a) :
    b ∈ l.set i b :=
  List.mem_set (List.getElem?_eq_some_iff.mp ha).1 b

theorem ticketFor_put {db : Db} {id orderId : Id} (row : Order) (h : orderId ≠ id) :
    ticketFor { db with orders := db.orders.put id row } orderId = ticketFor db orderId := by
  rw [ticketFor, ticketFor, Table.get_put_ne _ _ h]
  rfl

namespace State.Good

variable {s : State}

/-- The database changes, but no order that was spoken of. -/
theorem elsewhere (h : s.Good) {db' : Db}
    (hsame : ∀ orderId row, s.db.orders.get orderId = some row → unannounced row.status = false →
      db'.orders.get orderId = some row ∧ ticketFor db' orderId = ticketFor s.db orderId) :
    State.Good { s with db := db' } where
  announced orderId hmention := by
    obtain ⟨row, hrow, hstatus⟩ := h.announced orderId hmention
    exact ⟨row, (hsame _ _ hrow hstatus).1, hstatus⟩
  current orderId hshown := by
    obtain ⟨row, hrow, hstatus⟩ := h.announced orderId (Or.inl hshown)
    have hticket := (hsame _ _ hrow hstatus).2
    rcases h.current orderId hshown with hlast | ⟨r, hr, hcoming⟩
    · exact Or.inl (hlast.trans hticket.symm)
    · exact Or.inr ⟨r, hr, hcoming.congr hticket⟩

/-- A call goes on and broadcasts nothing. -/
theorem goesOn (h : s.Good) {i : ℕ} {r r' : Run} (hr : s.runs[i]? = some r)
    (hpending : ∀ orderId, Announces r'.pending orderId → Announces r.pending orderId)
    (hcoming : ∀ orderId, r.Coming s.db orderId → r'.Coming s.db orderId) :
    State.Good { s with runs := s.runs.set i r' } where
  announced orderId hmention := by
    refine h.announced orderId (hmention.imp_right ?_)
    rintro ⟨q, hq, hannounces⟩
    rcases List.mem_or_eq_of_mem_set hq with hq | rfl
    · exact ⟨q, hq, hannounces⟩
    · exact ⟨r, List.mem_of_getElem? hr, hpending orderId hannounces⟩
  current orderId hshown := by
    refine (h.current orderId hshown).imp_right ?_
    rintro ⟨q, hq, hq'⟩
    rcases mem_or_mem_set hr hq with rfl | hmem
    · exact ⟨r', mem_set_self hr, hcoming orderId hq'⟩
    · exact ⟨q, hmem, hq'⟩

/-- An event that is not for the bar screens is done with. -/
theorem skip (h : s.Good) {i : ℕ} {event : DomainEvent} {events : List DomainEvent}
    (hr : s.runs[i]? = some (.publishing (event :: events))) (hkds : forKds event = false) :
    State.Good { s with runs := s.runs.set i (.publishing events) } := by
  refine h.goesOn hr (fun orderId => ?_) fun orderId => ?_
  · rintro ⟨e, he, hrest⟩
    exact ⟨e, List.mem_cons_of_mem _ he, hrest⟩
  · rintro ⟨e, he, hfor, hrest⟩
    rcases List.mem_cons.mp he with rfl | he
    · rw [hkds] at hfor
      cases hfor
    · exact ⟨e, he, hfor, hrest⟩

/-- The ticket of the next event is read. -/
theorem read (h : s.Good) {i : ℕ} {event : DomainEvent} {events : List DomainEvent}
    {ticket : KdsTicket} (hr : s.runs[i]? = some (.publishing (event :: events)))
    (hticket : ticketFor s.db (orderOf event) = some ticket) :
    State.Good { s with runs := s.runs.set i (.holding ticket event events) } := by
  refine h.goesOn hr (fun _ hannounces => hannounces) fun orderId => ?_
  rintro ⟨e, he, hfor, horder⟩
  rcases List.mem_cons.mp he with rfl | he
  · exact Or.inl ⟨hfor, horder, horder ▸ hticket⟩
  · exact Or.inr ⟨e, he, hfor, horder⟩

/-- An order that an event for the bar screens is about is there to be read. -/
theorem ticket_ne_none (h : s.Good) {i : ℕ} {event : DomainEvent} {events : List DomainEvent}
    (hr : s.runs[i]? = some (.publishing (event :: events))) (hkds : forKds event = true) :
    ticketFor s.db (orderOf event) ≠ none := by
  obtain ⟨row, hrow, -⟩ := h.announced (orderOf event) (Or.inr ⟨_, List.mem_of_getElem? hr, event,
    List.mem_cons_self, hkds, rfl⟩)
  simp [ticketFor, hrow]

/-- The ticket that a call holds is broadcast. -/
theorem broadcast (h : s.Good) {i : ℕ} {event : DomainEvent} {events : List DomainEvent}
    {ticket : KdsTicket} {kiosk : List (Id × Broadcast)}
    (hr : s.runs[i]? = some (.holding ticket event events))
    (hfresh : forKds event = true → ticketFor s.db (orderOf event) = some ticket ∨
      ∃ r ∈ s.runs.set i (.publishing events), r.Coming s.db (orderOf event)) :
    State.Good ⟨s.db, s.runs.set i (.publishing events),
      if forKds event then s.kds ++ [⟨event, ticket⟩] else s.kds, kiosk⟩ := by
  have hpending : ∀ orderId, Announces events orderId → Announces (event :: events) orderId := by
    rintro orderId ⟨e, he, hrest⟩
    exact ⟨e, List.mem_cons_of_mem _ he, hrest⟩
  cases hkds : forKds event with
  | false =>
    have hcoming : ∀ orderId, (Run.holding ticket event events).Coming s.db orderId →
        (Run.publishing events).Coming s.db orderId := by
      rintro orderId (⟨hfor, -, -⟩ | hrest)
      · rw [hkds] at hfor
        cases hfor
      · exact hrest
    have hgood := @goesOn s h i _ (.publishing events) hr hpending hcoming
    exact ⟨hgood.announced, hgood.current⟩
  | true =>
    have hshown : ∀ orderId, State.broadcasts ⟨s.db, s.runs.set i (.publishing events),
        s.kds ++ [⟨event, ticket⟩], kiosk⟩ orderId =
          s.broadcasts orderId ++ if orderOf event = orderId then [⟨event, ticket⟩] else [] := by
      intro orderId
      rw [State.broadcasts, List.filter_append]
      by_cases horder : orderOf event = orderId
      · simp [State.broadcasts, horder]
      · simp [State.broadcasts, horder]
    have hmine : Announces (Run.holding ticket event events).pending (orderOf event) :=
      ⟨event, List.mem_cons_self, hkds, rfl⟩
    rw [if_pos rfl]
    refine ⟨fun orderId hmention => ?_, fun orderId hne => ?_⟩
    · by_cases horder : orderOf event = orderId
      · subst horder
        exact h.announced _ (Or.inr ⟨_, List.mem_of_getElem? hr, hmine⟩)
      · rw [State.Mentions, hshown, if_neg horder, List.append_nil] at hmention
        refine h.announced orderId (hmention.imp_right ?_)
        rintro ⟨q, hq, hannounces⟩
        rcases List.mem_or_eq_of_mem_set hq with hq | rfl
        · exact ⟨q, hq, hannounces⟩
        · exact ⟨_, List.mem_of_getElem? hr, hpending orderId hannounces⟩
    · rw [hshown] at hne
      rw [State.lastTicket, hshown]
      by_cases horder : orderOf event = orderId
      · subst horder
        rw [if_pos rfl, List.getLast?_concat]
        exact (hfresh hkds).imp_left fun hticket => hticket.symm
      · rw [if_neg horder, List.append_nil] at hne ⊢
        refine (h.current orderId hne).imp_right ?_
        rintro ⟨q, hq, hcoming⟩
        rcases mem_or_mem_set hr hq with rfl | hmem
        · rcases hcoming with ⟨-, hmine', -⟩ | hrest
          · exact absurd hmine' horder
          · exact ⟨_, mem_set_self hr, hrest⟩
        · exact ⟨q, hmem, hcoming⟩

end State.Good

/-! ## Commits -/

/-- The events of a work are about its order, and one of them is for the bar screens if it moves
the order. -/
theorem Work.announces_events (work : Work) (deviceId : Option Id) (orderId : Id) :
    Announces (work.events deviceId) orderId ↔ work.move ≠ none ∧ work.orderId = orderId := by
  cases work with
  | transition orderId' source target =>
    by_cases hready : target = .ready
    · simp [Announces, Work.events, Work.move, Work.orderId, hready, forKds, orderOf]
    · simp [Announces, Work.events, Work.move, Work.orderId, hready, forKds, orderOf]
  | _ => simp [Announces, Work.events, Work.move, Work.orderId, forKds, orderOf]

/-- Where a work moves an order to, the order has been spoken of. -/
theorem Work.announced_target {work : Work} {source target : OrderStatus}
    (hmove : work.move = some (source, target)) (hallowed : work.allowed = true) :
    unannounced target = false := by
  cases work with
  | transition orderId source' target' =>
    obtain ⟨rfl, rfl⟩ := Prod.mk.inj (Option.some.inj hmove)
    rcases target_of_isStaffTransition hallowed with rfl | rfl | rfl <;> rfl
  | cancel | refund | cash | markPaid =>
    obtain ⟨rfl, rfl⟩ := Prod.mk.inj (Option.some.inj hmove)
    rfl
  | markPayment => cases hmove

/-- What a transaction does: it moves its order, or none. -/
theorem Work.commit_cases {work : Work} {db db' : Db} {events : List DomainEvent}
    (h : work.commit db = some (db', events)) :
    (db' = db ∧ ∀ orderId, ¬ Announces events orderId) ∨
      ∃ row, unannounced row.status = false ∧
        db' = { db with orders := db.orders.put work.orderId row } ∧
        ∀ orderId, Announces events orderId ↔ work.orderId = orderId := by
  obtain ⟨row, hrow, h⟩ := Option.bind_eq_some_iff.mp h
  have hevents := work.announces_events row.kioskDeviceId
  cases hmove : work.move with
  | none =>
    rw [hmove] at h
    obtain ⟨rfl, rfl⟩ := Prod.mk.inj (Option.some.inj h)
    exact Or.inl ⟨rfl, fun orderId hannounces => ((hevents orderId).mp hannounces).1 hmove⟩
  | some m =>
    obtain ⟨source, target⟩ := m
    rw [hmove] at h
    dsimp only at h
    split at h
    · rename_i hcond
      obtain ⟨rfl, rfl⟩ := Prod.mk.inj (Option.some.inj h)
      refine Or.inr ⟨_, announced_target hmove hcond.2, rfl, fun orderId => ?_⟩
      rw [hevents, hmove]
      simp
    · cases h

/-- A call commits. -/
theorem State.Good.commit {s : State} (h : s.Good) {i : ℕ} {work : Work} {db' : Db}
    {events : List DomainEvent} (hr : s.runs[i]? = some (.working work))
    (hcommit : work.commit s.db = some (db', events)) :
    State.Good { s with db := db', runs := s.runs.set i (.publishing events) } := by
  rcases Work.commit_cases hcommit with ⟨rfl, hnone⟩ | ⟨row, hstatus, rfl, hannounces⟩
  · exact h.goesOn hr (fun orderId hannounces => absurd hannounces (hnone orderId))
      fun orderId hcoming => hcoming.elim
  · have hmoved := mem_set_self (b := Run.publishing events) hr
    refine ⟨fun orderId hmention => ?_, fun orderId hshown => ?_⟩
    · by_cases horder : work.orderId = orderId
      · subst horder
        exact ⟨row, Table.get_put_self .., hstatus⟩
      · have hold : s.Mentions orderId := by
          refine hmention.imp_right ?_
          rintro ⟨q, hq, hq'⟩
          rcases List.mem_or_eq_of_mem_set hq with hq | rfl
          · exact ⟨q, hq, hq'⟩
          · exact absurd ((hannounces orderId).mp hq') horder
        obtain ⟨row', hrow', hstatus'⟩ := h.announced orderId hold
        exact ⟨row', (Table.get_put_ne _ _ (Ne.symm horder)).trans hrow', hstatus'⟩
    · by_cases horder : work.orderId = orderId
      · -- this call has yet to read the order
        exact Or.inr ⟨_, hmoved, (hannounces orderId).mpr horder⟩
      · have hticket := @ticketFor_put s.db _ _ row (Ne.symm horder)
        rcases h.current orderId hshown with hlast | ⟨q, hq, hcoming⟩
        · exact Or.inl (hlast.trans hticket.symm)
        · rcases mem_or_mem_set hr hq with rfl | hmem
          · exact hcoming.elim
          · exact Or.inr ⟨q, hmem, hcoming.congr hticket⟩

/-! ## Runs -/

theorem State.Good.proceed {s s' : State} (h : s.Good) {i : ℕ} {r : Run}
    (hr : s.runs[i]? = some r) (hfresh : s.Fresh (.proceed i)) (hs : s.proceed i r = some s') :
    s'.Good := by
  cases r with
  | working work =>
    simp only [State.proceed] at hs
    split at hs
    · obtain rfl := Option.some.inj hs
      exact h.goesOn hr (fun _ hannounces => absurd hannounces (by simp [Announces, Run.pending]))
        fun _ hcoming => hcoming.elim
    · rename_i hcommit
      obtain rfl := Option.some.inj hs
      exact h.commit hr hcommit
  | publishing events =>
    cases events with
    | nil => cases hs
    | cons event events =>
      simp only [State.proceed] at hs
      split at hs
      · rename_i hskip
        obtain rfl := Option.some.inj hs
        rw [Bool.and_eq_true, Bool.not_eq_true'] at hskip
        exact h.skip hr hskip.1
      · split at hs
        · rename_i hnone
          obtain rfl := Option.some.inj hs
          cases hkds : forKds event with
          | false => exact h.skip hr hkds
          | true => exact absurd hnone (h.ticket_ne_none hr hkds)
        · rename_i hticket
          obtain rfl := Option.some.inj hs
          exact h.read hr hticket
  | holding ticket event events =>
    obtain rfl := Option.some.inj hs
    rw [State.Fresh, hr] at hfresh
    exact h.broadcast hr hfresh

/-- An order that nothing has been said about changes. -/
theorem State.Good.put {s : State} (h : s.Good) {id : Id} {row : Order}
    (hid : ∀ old, s.db.orders.get id = some old → unannounced old.status = true) :
    State.Good { s with db := { s.db with orders := s.db.orders.put id row } } := by
  refine h.elsewhere fun orderId old hold hstatus => ?_
  have hne : orderId ≠ id := by
    rintro rfl
    rw [hid old hold] at hstatus
    cases hstatus
  exact ⟨(Table.get_put_ne _ _ hne).trans hold, ticketFor_put row hne⟩

/-- **One step.** -/
theorem State.Good.act {s s' : State} {a : Act} (h : s.Good) (hfresh : s.Fresh a)
    (hs : s.act a = some s') : s'.Good := by
  cases a with
  | create id row items =>
    simp only [State.act] at hs
    split at hs
    · rename_i hcond
      obtain ⟨hfree, hstatus, hitems⟩ := hcond
      obtain rfl := Option.some.inj hs
      refine h.elsewhere fun orderId old hold _ => ?_
      have hne : orderId ≠ id := by
        rintro rfl
        rw [hfree] at hold
        cases hold
      have hlines : (s.db.orderItems ++ items).filter (fun item => item.orderId == orderId) =
          s.db.orderItems.filter fun item => item.orderId == orderId := by
        rw [List.filter_append, List.append_right_eq_self, List.filter_eq_nil_iff]
        intro item hitem heq
        exact hne ((beq_iff_eq.mp heq).symm.trans (hitems item hitem))
      refine ⟨(Table.get_put_ne _ _ hne).trans hold, ?_⟩
      simp only [ticketFor, Db.itemsOf, hlines, Table.get_put_ne _ _ hne]
    · cases hs
  | checkout id orderNumber expiresAt =>
    obtain ⟨row, hrow, hs⟩ := Option.bind_eq_some_iff.mp hs
    split at hs
    · rename_i hdraft
      obtain rfl := Option.some.inj hs
      refine h.put fun old hold => ?_
      obtain rfl := Option.some.inj (hrow.symm.trans hold)
      rw [hdraft]
      rfl
    · cases hs
  | expire id =>
    obtain ⟨row, hrow, hs⟩ := Option.bind_eq_some_iff.mp hs
    split at hs
    · rename_i hpending
      obtain rfl := Option.some.inj hs
      refine h.put fun old hold => ?_
      obtain rfl := Option.some.inj (hrow.symm.trans hold)
      rw [hpending]
      rfl
    · cases hs
  | run work =>
    obtain rfl := Option.some.inj hs
    refine ⟨fun orderId hmention => h.announced orderId (hmention.imp_right ?_),
      fun orderId hshown => (h.current orderId hshown).imp_right ?_⟩
    · rintro ⟨q, hq, hannounces⟩
      rcases List.mem_append.mp hq with hq | hq
      · exact ⟨q, hq, hannounces⟩
      · rw [List.mem_singleton.mp hq] at hannounces
        obtain ⟨e, he, -⟩ := hannounces
        cases he
    · rintro ⟨q, hq, hcoming⟩
      exact ⟨q, List.mem_append_left _ hq, hcoming⟩
  | proceed i =>
    obtain ⟨r, hr, hs⟩ := Option.bind_eq_some_iff.mp hs
    exact h.proceed hr hfresh hs

theorem opening_good : opening.Good where
  announced orderId hmention := by
    rcases hmention with hne | ⟨r, hr, -⟩
    · exact absurd rfl hne
    · cases hr
  current orderId hne := absurd rfl hne

/-- Every run. -/
theorem Runs.good {s : State} (h : Runs State.Fresh s) : s.Good := by
  induction h with
  | opening => exact opening_good
  | act _ hfresh hs ih => exact ih.act hfresh hs

/-- **Screens converge.** In every run in which an outdated ticket is broadcast only while a
ticket of the order as it is is still to come, whenever nothing is being published, the last
ticket of every order that was broadcast is the ticket of its row. -/
theorem screens_converge {s : State} (h : Runs State.Fresh s) (hquiet : s.Quiet) {orderId : Id}
    (hshown : s.broadcasts orderId ≠ []) : s.lastTicket orderId = ticketFor s.db orderId := by
  rcases h.good.current orderId hshown with hlast | ⟨r, hr, hcoming⟩
  · exact hlast
  · obtain ⟨e, he, -⟩ := hcoming.announces
    rw [hquiet r hr] at he
    cases he

/-! ## Two runs -/

instance (events : List DomainEvent) (orderId : Id) : Decidable (Announces events orderId) :=
  inferInstanceAs (Decidable (∃ event ∈ events, _ ∧ _))

instance (db : Db) (orderId : Id) : (r : Run) → Decidable (r.Coming db orderId)
  | .working _ => inferInstanceAs (Decidable False)
  | .publishing events => inferInstanceAs (Decidable (Announces events orderId))
  | .holding _ _ events => inferInstanceAs (Decidable (_ ∨ Announces events orderId))

instance (s : State) (i : ℕ) : (r : Option Run) → Decidable (s.MayBroadcast i r)
  | none => isTrue trivial
  | some (.working _) => isTrue trivial
  | some (.publishing _) => isTrue trivial
  | some (.holding _ _ events) => inferInstanceAs (Decidable (_ → _ ∨ ∃ r ∈ s.runs.set i
      (.publishing events), _))

instance (s : State) : (a : Act) → Decidable (s.Fresh a)
  | .create .. => isTrue trivial
  | .checkout .. => isTrue trivial
  | .expire _ => isTrue trivial
  | .run _ => isTrue trivial
  | .proceed i => inferInstanceAs (Decidable (s.MayBroadcast i s.runs[i]?))

instance (s : State) : Decidable s.Quiet := inferInstanceAs (Decidable (∀ r ∈ s.runs, _))

/-- Actions, evaluated. -/
def State.perform (check : State → Act → Bool) (s : State) : List Act → Option State
  | [] => some s
  | a :: acts => if check s a then (s.act a).bind fun s' => s'.perform check acts else none

theorem Runs.perform {check : State → Act → Bool} {acts : List Act} {s s' : State}
    (h : Runs (fun s a => check s a = true) s) (hs : s.perform check acts = some s') :
    Runs (fun s a => check s a = true) s' := by
  induction acts generalizing s with
  | nil =>
    obtain rfl := Option.some.inj hs
    exact h
  | cons a acts ih =>
    rw [State.perform] at hs
    split at hs
    · rename_i hcheck
      obtain ⟨s₁, hact, hrest⟩ := Option.bind_eq_some_iff.mp hs
      exact ih (h.act hcheck hact) hrest
    · cases hs

theorem Runs.exists_of_perform (check : State → Act → Bool) (acts : List Act) (p : State → Prop)
    [DecidablePred p]
    (h : (Screens.opening.perform check acts).any (fun s => decide (p s)) = true) :
    ∃ s, Runs (fun s a => check s a = true) s ∧ p s := by
  obtain ⟨s, hs, hp⟩ := (Option.any_eq_true _ _).mp h
  exact ⟨s, Runs.opening.perform hs, of_decide_eq_true hp⟩

theorem Runs.mono {P Q : State → Act → Prop} (hPQ : ∀ s a, P s a → Q s a) {s : State}
    (h : Runs P s) : Runs Q s := by
  induction h with
  | opening => exact .opening
  | act _ hP hs ih => exact ih.act (hPQ _ _ hP) hs

/-- An order that waits for its payment. -/
def counterLatte : Order :=
  ⟨some "A-001", "2026-01-01", .counter, .pendingPayment, none, some 7, none, 9000, 589, 9000, "THB",
    some 600000⟩

/-- It is paid in cash, which is broadcast, and then started, which is broadcast too. -/
theorem screens_converge_latte : ∃ s, Runs State.Fresh s ∧
    s.lastTicket 100 = ticketFor s.db 100 ∧
    (s.db.orders.get 100).map Order.status = some .inPreparation := by
  obtain ⟨s, hs, hquiet, hshown, hstatus⟩ := Runs.exists_of_perform
    (fun s a => decide (s.Fresh a))
    [.create 100 counterLatte [], .run (.cash 100), .proceed 0, .proceed 0, .proceed 0,
      .run (.transition 100 .paid .inPreparation), .proceed 1, .proceed 1, .proceed 1]
    (fun s => s.Quiet ∧ (s.broadcasts 100).length = 2 ∧
      (s.db.orders.get 100).map Order.status = some .inPreparation) (by decide)
  have hfresh := hs.mono fun _ _ => of_decide_eq_true
  refine ⟨s, hfresh, screens_converge hfresh hquiet fun hnil => ?_, hstatus⟩
  rw [hnil] at hshown
  cases hshown

/-- The till has read the paid order when a barista starts it; the barista's ticket is broadcast
first. The screens go on showing an order that nobody has started. -/
theorem screens_diverge : ∃ s, Runs (fun _ _ => True) s ∧ s.Quiet ∧ s.broadcasts 100 ≠ [] ∧
    s.lastTicket 100 ≠ ticketFor s.db 100 := by
  obtain ⟨s, hs, hquiet, hshown, hlast⟩ := Runs.exists_of_perform (fun _ _ => true)
    [.create 100 counterLatte [], .run (.cash 100), .proceed 0, .proceed 0,
      .run (.transition 100 .paid .inPreparation), .proceed 1, .proceed 1, .proceed 1, .proceed 0]
    (fun s => s.Quiet ∧ (s.broadcasts 100).length = 2 ∧ s.lastTicket 100 ≠ ticketFor s.db 100)
    (by decide)
  refine ⟨s, hs.mono fun _ _ _ => trivial, hquiet, fun hnil => ?_, hlast⟩
  rw [hnil] at hshown
  cases hshown

end CafePos.Screens
