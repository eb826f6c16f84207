import CafePos.Interleaving.Entries
import CafePos.Snapshots

/-!
# The public board

After a batch of events that changes it, `SocketRealtimePublisher.publish` reads the public board
(`BoardService.snapshot`) and broadcasts it whole; reading and broadcasting are separate steps, and
`order.paid` is no reason to. This module follows `AfterCommit.run` to the board: the transactions
and what the other calls do to the orders are those of `Screens`, the tickets of the other
namespaces are left to it, and no read fails.

* `boardSnapshot_of_commit` — a transaction that changes the board emits an event that says so;
* `State.Current` — the board shows what is in the database, or a broadcast of it is to come;
* `boards_converge` — in every run in which an outdated board is broadcast only while one is to
  come, whenever nothing is being published, the board shows what is in the database.
-/

namespace CafePos.Boards

open Interleaving Screens

/-! ## The system -/

/-- `BOARD_EVENTS` -/
def forBoard : DomainEvent → Bool
  | .orderUpdated .. => true
  | .orderReady .. => true
  | _ => false

/-- A call of `AfterCommit.run`. -/
inductive Run where
  /-- before the commit -/
  | working (work : Work)
  /-- in the loop of `publish` -/
  | publishing (events : List DomainEvent) (boardChanged : Bool)
  /-- the board has been read -/
  | holding (entries : List BoardEntry)
  | ended

/-- The database, the calls, and what the board shows. -/
structure State where
  db : Db
  runs : List Run
  shown : List BoardEntry

/-- Nothing stored and nothing on the board. -/
def opening : State := ⟨.empty, [], []⟩

/-- What can happen. -/
inductive Act where
  /-- another call changes the orders -/
  | change (a : Screens.Act)
  /-- `AfterCommit.run` is called -/
  | run (work : Work)
  /-- call `i` takes its next step -/
  | proceed (i : ℕ)

/-- What an action of the bar screens' system that is no call does to the database. -/
def changed (db : Db) (a : Screens.Act) : Option Db :=
  (Screens.State.act ⟨db, [], [], []⟩ a).map Screens.State.db

namespace State

/-- The next step of call `i`. -/
def proceed (createdAt : Id → Instant) (s : State) (i : ℕ) : Run → Option State
  | .working work =>
    match work.commit s.db with
    | none => some { s with runs := s.runs.set i .ended }
    | some (db, events) => some { s with db, runs := s.runs.set i (.publishing events false) }
  | .publishing (event :: events) boardChanged =>
    some { s with runs := s.runs.set i (.publishing events (boardChanged || forBoard event)) }
  | .publishing [] true =>
    some { s with runs := s.runs.set i (.holding (boardSnapshot createdAt s.db)) }
  | .publishing [] false => some { s with runs := s.runs.set i .ended }
  | .holding entries => some { s with runs := s.runs.set i .ended, shown := entries }
  | .ended => none

/-- What happens, if it can. -/
def act (createdAt : Id → Instant) (s : State) : Act → Option State
  | .change a => (changed s.db a).map fun db => { s with db }
  | .run work => some { s with runs := s.runs ++ [.working work] }
  | .proceed i => (s.runs[i]?).bind (s.proceed createdAt i)

end State

/-- The states that permitted actions lead to. -/
inductive Runs (createdAt : Id → Instant) (P : State → Act → Prop) : State → Prop
  | opening : Runs createdAt P opening
  | act {s s' : State} {a : Act} : Runs createdAt P s → P s a → s.act createdAt a = some s' →
      Runs createdAt P s'

/-! ## What the board shows, and what is to come -/

section board

variable {createdAt : Id → Instant}

/-- The call will broadcast the board as it is, or has yet to read it. -/
def Run.Coming (createdAt : Id → Instant) (db : Db) : Run → Prop
  | publishing events boardChanged => (boardChanged || events.any forBoard) = true
  | holding entries => entries = boardSnapshot createdAt db
  | _ => False

/-- Nothing is being published. -/
def State.Quiet (s : State) : Prop := ∀ r ∈ s.runs, match r with
  | .publishing .. | .holding _ => False
  | _ => True

/-- The board as it is is still to be broadcast. -/
def State.Coming (createdAt : Id → Instant) (s : State) : Prop :=
  ∃ r ∈ s.runs, r.Coming createdAt s.db

/-- The board shows what is in the database, or will. -/
def State.Current (createdAt : Id → Instant) (s : State) : Prop :=
  s.shown = boardSnapshot createdAt s.db ∨ s.Coming createdAt

/-- If call `i` holds a board, it is the board as it is, or another one is to come. -/
def State.MayBroadcast (createdAt : Id → Instant) (s : State) (i : ℕ) : Option Run → Prop
  | some (.holding entries) => entries = boardSnapshot createdAt s.db ∨
      ∃ r ∈ s.runs.set i .ended, r.Coming createdAt s.db
  | _ => True

/-- An outdated board is broadcast only while the board as it is is still to come. -/
def State.Fresh (createdAt : Id → Instant) (s : State) : Act → Prop
  | .proceed i => s.MayBroadcast createdAt i s.runs[i]?
  | _ => True

/-! ## What changes the board -/

/-- An order that nothing has been said about is not on the board. -/
theorem not_board_of_unannounced {status : OrderStatus} :
    unannounced status = true → boardStatuses.contains status = false := by
  cases status <;> decide

/-- An order that is not on the board changes, and is not on it then. -/
theorem boardSnapshot_put {db db' : Db} {id : Id} {row : Order}
    (horders : db'.orders = db.orders.put id row)
    (hold : ∀ old, db.orders.get id = some old → boardStatuses.contains old.status = false)
    (hnew : boardStatuses.contains row.status = false) :
    boardSnapshot createdAt db' = boardSnapshot createdAt db := by
  have hsame := Table.select_put_of_not db.orders (k := id) (v := row)
    (p := fun _ row => boardStatuses.contains row.status && row.orderNumber.isSome)
    (fun old hget => by rw [hold old hget, Bool.false_and]) (by rw [hnew, Bool.false_and])
  rw [boardSnapshot, boardSnapshot, oldestFirst, oldestFirst, horders, hsame]

/-- What the other calls do is not about the board. -/
theorem boardSnapshot_of_changed {db db' : Db} {a : Screens.Act} (h : changed db a = some db') :
    boardSnapshot createdAt db' = boardSnapshot createdAt db := by
  obtain ⟨s, hs, rfl⟩ := Option.map_eq_some_iff.mp h
  cases a with
  | create id row items =>
    simp only [Screens.State.act] at hs
    split at hs
    · rename_i hcond
      obtain rfl := Option.some.inj hs
      refine boardSnapshot_put rfl (fun old hold => ?_) (not_board_of_unannounced hcond.2.1)
      rw [hcond.1] at hold
      cases hold
    · cases hs
  | checkout id orderNumber expiresAt =>
    obtain ⟨row, hrow, hs⟩ := Option.bind_eq_some_iff.mp hs
    split at hs
    · rename_i hdraft
      obtain rfl := Option.some.inj hs
      refine boardSnapshot_put rfl (fun old hold => ?_) rfl
      obtain rfl := Option.some.inj (hrow.symm.trans hold)
      rw [hdraft]
      rfl
    · cases hs
  | expire id =>
    obtain ⟨row, hrow, hs⟩ := Option.bind_eq_some_iff.mp hs
    split at hs
    · rename_i hpending
      obtain rfl := Option.some.inj hs
      refine boardSnapshot_put rfl (fun old hold => ?_) rfl
      obtain rfl := Option.some.inj (hrow.symm.trans hold)
      rw [hpending]
      rfl
    · cases hs
  | run work =>
    obtain rfl := Option.some.inj hs
    rfl
  | proceed i => cases hs

/-- A transaction that changes the board emits an event that says so. -/
theorem boardSnapshot_of_commit {work : Work} {db db' : Db} {events : List DomainEvent}
    (h : work.commit db = some (db', events)) :
    events.any forBoard = true ∨
      boardSnapshot createdAt db' = boardSnapshot createdAt db := by
  obtain ⟨row, hrow, h⟩ := Option.bind_eq_some_iff.mp h
  -- an order that waits for its payment is not on the board, nor is one that is only paid
  have hpaid : work.move = some (.pendingPayment, .paid) →
      boardSnapshot createdAt db' = boardSnapshot createdAt db := by
    intro hmove
    rw [hmove] at h
    dsimp only at h
    split at h
    · rename_i hcond
      obtain ⟨rfl, -⟩ := Prod.mk.inj (Option.some.inj h)
      refine boardSnapshot_put rfl (fun old hold => ?_) rfl
      obtain rfl := Option.some.inj (hrow.symm.trans hold)
      rw [hcond.1]
      rfl
    · cases h
  have hevents : work.move ≠ none → events = work.events row.kioskDeviceId := by
    intro hmove
    cases hm : work.move with
    | none => exact absurd hm hmove
    | some m =>
      rw [hm] at h
      dsimp only at h
      split at h
      · exact (Prod.mk.inj (Option.some.inj h)).2.symm
      · cases h
  cases work with
  | cancel orderId source =>
    rw [hevents (Option.some_ne_none _)]
    exact Or.inl rfl
  | transition orderId source target =>
    rw [hevents (Option.some_ne_none _)]
    refine Or.inl ?_
    by_cases hready : target = .ready
    · simp [Work.events, hready, forBoard]
    · simp [Work.events, hready, forBoard]
  | refund orderId source =>
    rw [hevents (Option.some_ne_none _)]
    exact Or.inl rfl
  | cash orderId => exact Or.inr (hpaid rfl)
  | markPaid orderId paymentId => exact Or.inr (hpaid rfl)
  | markPayment orderId paymentId =>
    obtain ⟨rfl, -⟩ := Prod.mk.inj (Option.some.inj h)
    exact Or.inr rfl

/-! ## What a step preserves -/

/-- A call goes on; if it was to broadcast the board, it still is. -/
theorem State.Coming.set {s : State} (h : s.Coming createdAt) {i : ℕ} {r : Run}
    (hr : s.runs[i]? = some r) (r' : Run)
    (hcoming : r.Coming createdAt s.db → r'.Coming createdAt s.db) {shown : List BoardEntry} :
    State.Coming createdAt ⟨s.db, s.runs.set i r', shown⟩ := by
  obtain ⟨q, hq, hq'⟩ := h
  rcases mem_or_mem_set hr hq with rfl | hmem
  · exact ⟨r', mem_set_self hr, hcoming hq'⟩
  · exact ⟨q, hmem, hq'⟩

/-- The same board: what was to come still is. -/
theorem Run.Coming.congr {r : Run} {db db' : Db} (h : r.Coming createdAt db)
    (hsame : boardSnapshot createdAt db' = boardSnapshot createdAt db) :
    r.Coming createdAt db' := by
  cases r with
  | holding entries => exact Eq.trans h hsame.symm
  | _ => exact h

theorem State.Current.congr {s : State} (h : s.Current createdAt) {db : Db}
    (hsame : boardSnapshot createdAt db = boardSnapshot createdAt s.db) :
    State.Current createdAt { s with db } := by
  refine h.imp (fun hshown => Eq.trans hshown hsame.symm) ?_
  rintro ⟨r, hr, hcoming⟩
  exact ⟨r, hr, hcoming.congr hsame⟩

/-- One step of a call. -/
theorem State.Current.proceed {s s' : State} (h : s.Current createdAt) {i : ℕ} {r : Run}
    (hr : s.runs[i]? = some r) (hfresh : s.Fresh createdAt (.proceed i))
    (hs : s.proceed createdAt i r = some s') : s'.Current createdAt := by
  cases r with
  | working work =>
    simp only [State.proceed] at hs
    split at hs
    · obtain rfl := Option.some.inj hs
      exact h.imp_right fun hcoming => hcoming.set hr _ False.elim
    · rename_i db events hcommit
      obtain rfl := Option.some.inj hs
      rcases boardSnapshot_of_commit hcommit with hevents | hsame
      · exact Or.inr ⟨_, mem_set_self hr, by rw [Run.Coming, hevents, Bool.or_true]⟩
      · have hmoved : State.Current createdAt
            ⟨s.db, s.runs.set i (.publishing events false), s.shown⟩ :=
          h.imp_right fun hcoming => hcoming.set hr _ False.elim
        exact hmoved.congr hsame
  | publishing events boardChanged =>
    cases events with
    | nil =>
      cases boardChanged with
      | true =>
        obtain rfl := Option.some.inj hs
        exact h.imp_right fun hcoming => hcoming.set hr (.holding _) fun _ => rfl
      | false =>
        obtain rfl := Option.some.inj hs
        exact h.imp_right fun hcoming => hcoming.set hr _ fun hnone => by cases hnone
    | cons event events =>
      obtain rfl := Option.some.inj hs
      refine h.imp_right fun hcoming => hcoming.set hr _ fun hthis => ?_
      rw [Run.Coming, List.any_cons] at hthis
      rw [Run.Coming, Bool.or_assoc]
      exact hthis
  | holding entries =>
    obtain rfl := Option.some.inj hs
    rw [State.Fresh, hr] at hfresh
    exact hfresh
  | ended => cases hs

/-- One step. -/
theorem State.Current.act {s s' : State} {a : Act} (h : s.Current createdAt)
    (hfresh : s.Fresh createdAt a) (hs : s.act createdAt a = some s') : s'.Current createdAt := by
  cases a with
  | change a =>
    obtain ⟨db, hdb, rfl⟩ := Option.map_eq_some_iff.mp hs
    exact h.congr (boardSnapshot_of_changed hdb)
  | run work =>
    obtain rfl := Option.some.inj hs
    refine h.imp_right ?_
    rintro ⟨r, hr, hcoming⟩
    exact ⟨r, List.mem_append_left _ hr, hcoming⟩
  | proceed i =>
    obtain ⟨r, hr, hs⟩ := Option.bind_eq_some_iff.mp hs
    exact h.proceed hr hfresh hs

/-- Every run. -/
theorem Runs.current {s : State} (h : Runs createdAt (State.Fresh createdAt) s) :
    s.Current createdAt := by
  induction h with
  | opening => exact Or.inl rfl
  | act _ hfresh hs ih => exact ih.act hfresh hs

/-- **The board converges.** In every run in which an outdated board is broadcast only while the
board as it is is still to come, whenever nothing is being published, the board shows what is in the
database. -/
theorem boards_converge {s : State} (h : Runs createdAt (State.Fresh createdAt) s)
    (hquiet : s.Quiet) : s.shown = boardSnapshot createdAt s.db := by
  refine h.current.resolve_right ?_
  rintro ⟨r, hr, hcoming⟩
  have hidle := hquiet r hr
  cases r with
  | publishing | holding => exact hidle
  | working | ended => exact hcoming

end board

/-- A latte is paid, which is no reason to broadcast the board, and started, which is one. -/
theorem boards_converge_latte : ∃ s, Runs Int.ofNat (State.Fresh Int.ofNat) s ∧
    s.shown = [⟨"A-001", .inPreparation⟩] ∧ s.shown = boardSnapshot Int.ofNat s.db := by
  have hpaid := (((((@Runs.opening Int.ofNat (State.Fresh Int.ofNat)).act
    (a := .change (.create 100 counterLatte [])) trivial rfl).act
    (a := .run (.cash 100)) trivial rfl).act (a := .proceed 0) trivial rfl).act
    (a := .proceed 0) trivial rfl).act (a := .proceed 0) trivial rfl
  have hread := (((hpaid.act
    (a := .run (.transition 100 .paid .inPreparation)) trivial rfl).act
    (a := .proceed 1) trivial rfl).act (a := .proceed 1) trivial rfl).act
    (a := .proceed 1) trivial rfl
  have hshown := hread.act (a := .proceed 1) (Or.inl rfl) rfl
  refine ⟨_, hshown, by decide, boards_converge hshown fun r hr => ?_⟩
  rcases List.mem_pair.mp hr with rfl | rfl
  · trivial
  · trivial

end CafePos.Boards
