import CafePos.Screens
import Mathlib

/-!
# Polling and listening

A screen that loads `KdsService.snapshot` (`kds/kds.service.ts`) and one that only listens to the
broadcasts of `Screens` must not render differently; and the public board
(`BoardService.snapshot`, `board/board.service.ts`) must not differ from both.

* `State.worklist` — what one who only listens knows: the last ticket of every order it has heard
  of, those that are to be made, oldest first;
* `Told.act` — what one step preserves: an order that is to be made has been spoken of;
* `screens_show_snapshot` — whenever nothing is being published, the worklist is the snapshot, and
  what the snapshot has of the public board is the beginning of it.

When the orders were created is a parameter.
-/

namespace CafePos.Screens

open Interleaving

/-! ## The snapshots -/

/-- `KDS_STATUSES` -/
def kdsStatuses : List OrderStatus := [.paid, .inPreparation, .ready]

/-- `MAX_TICKETS` -/
def maxTickets : ℕ := 200

/-- `BOARD_STATUSES` -/
def boardStatuses : List OrderStatus := [.inPreparation, .ready]

/-- `MAX_ENTRIES` -/
def maxEntries : ℕ := 200

/-- What the public board shows is to be made. -/
theorem kds_of_board {status : OrderStatus} :
    boardStatuses.contains status = true → kdsStatuses.contains status = true := by
  cases status <;> decide

/-- An order that nothing has been said about is not. -/
theorem not_kds_of_unannounced {status : OrderStatus} :
    unannounced status = true → kdsStatuses.contains status = false := by
  cases status <;> decide

/-- `ORDER BY created_at ASC, id ASC` -/
def NotAfter (createdAt : Id → Instant) (a b : Id) : Prop :=
  createdAt a < createdAt b ∨ createdAt a = createdAt b ∧ a ≤ b

instance (createdAt : Id → Instant) (a b : Id) : Decidable (NotAfter createdAt a b) :=
  inferInstanceAs (Decidable (_ ∨ _))

/-- The orders that satisfy a condition, oldest first. -/
def oldestFirst (createdAt : Id → Instant) (db : Db) (p : Order → Bool) : List (Id × Order) :=
  (db.orders.select fun _ row => p row).insertionSort fun a b => NotAfter createdAt a.1 b.1

/-- `KdsService.snapshot` -/
def snapshot (createdAt : Id → Instant) (db : Db) : List KdsTicket :=
  ((oldestFirst createdAt db fun row => kdsStatuses.contains row.status).take maxTickets).map
    fun q => ⟨toOrderSummary q.1 q.2, toOrderLines (db.itemsOf q.1)⟩

/-- `BoardEntry` -/
structure BoardEntry where
  orderNumber : String
  status : OrderStatus
  deriving DecidableEq

/-- `BoardService.snapshot` -/
def boardSnapshot (createdAt : Id → Instant) (db : Db) : List BoardEntry :=
  ((oldestFirst createdAt db fun row =>
      boardStatuses.contains row.status && row.orderNumber.isSome).take maxEntries).filterMap
    fun q => q.2.orderNumber.map fun orderNumber => ⟨orderNumber, q.2.status⟩

/-! ## What a listener knows -/

/-- The entry of the public board that a ticket has, if any. -/
def KdsTicket.boardEntry (ticket : KdsTicket) : Option BoardEntry :=
  if boardStatuses.contains ticket.summary.status then
    ticket.summary.orderNumber.map fun orderNumber => ⟨orderNumber, ticket.summary.status⟩
  else none

/-- The last tickets of the orders that were broadcast, as far as they are to be made. -/
def State.heard (s : State) : List KdsTicket :=
  ((s.kds.map fun b => orderOf b.event).dedup.filterMap s.lastTicket).filter
    fun ticket => kdsStatuses.contains ticket.summary.status

/-- The worklist of a screen that only listens. -/
def State.worklist (createdAt : Id → Instant) (s : State) : List KdsTicket :=
  (s.heard.insertionSort fun a b => NotAfter createdAt a.summary.id b.summary.id).take maxTickets

/-! ## Whoever is to be made has been spoken of -/

/-- Every order that is to be made is spoken of, on the screens or by a call. -/
def Told (s : State) : Prop :=
  ∀ orderId row, s.db.orders.get orderId = some row → kdsStatuses.contains row.status = true →
    s.Mentions orderId

/-- A call goes on, and says no less. -/
theorem State.Mentions.set {s : State} {orderId : Id} (h : s.Mentions orderId) {i : ℕ} {r : Run}
    (hr : s.runs[i]? = some r) (r' : Run)
    (hpending : Announces r.pending orderId → Announces r'.pending orderId) {db : Db}
    {kiosk : List (Id × Broadcast)} :
    State.Mentions ⟨db, s.runs.set i r', s.kds, kiosk⟩ orderId := by
  refine h.imp_right ?_
  rintro ⟨q, hq, hannounces⟩
  rcases mem_or_mem_set hr hq with rfl | hmem
  · exact ⟨r', mem_set_self hr, hpending hannounces⟩
  · exact ⟨q, hmem, hannounces⟩

/-- What was spoken of stays so. -/
theorem State.Mentions.proceed {s s' : State} (hgood : s.Good) {i : ℕ} {r : Run}
    (hr : s.runs[i]? = some r) (hs : s.proceed i r = some s') {orderId : Id}
    (h : s.Mentions orderId) : s'.Mentions orderId := by
  cases r with
  | working work =>
    have hsilent : ∀ events, Announces (Run.working work).pending orderId →
        Announces (Run.publishing events).pending orderId := by
      rintro events ⟨e, he, -⟩
      cases he
    simp only [State.proceed] at hs
    split at hs
    · obtain rfl := Option.some.inj hs
      exact h.set hr _ (hsilent _)
    · obtain rfl := Option.some.inj hs
      exact h.set hr _ (hsilent _)
  | publishing events =>
    cases events with
    | nil => cases hs
    | cons event events =>
      -- an event that is passed over is not for the bar screens
      have hskip : forKds event = false → Announces (event :: events) orderId →
          Announces events orderId := by
        rintro hkds ⟨e, he, hfor, horder⟩
        rcases List.mem_cons.mp he with rfl | he
        · rw [hkds] at hfor
          cases hfor
        · exact ⟨e, he, hfor, horder⟩
      simp only [State.proceed] at hs
      split at hs
      · rename_i hnobody
        obtain rfl := Option.some.inj hs
        rw [Bool.and_eq_true, Bool.not_eq_true'] at hnobody
        exact h.set hr (.publishing events) (hskip hnobody.1)
      · split at hs
        · rename_i hnone
          obtain rfl := Option.some.inj hs
          cases hkds : forKds event with
          | false => exact h.set hr (.publishing events) (hskip hkds)
          | true => exact absurd hnone (hgood.ticket_ne_none hr hkds)
        · obtain rfl := Option.some.inj hs
          exact h.set hr (.holding _ event events) id
  | holding ticket event events =>
    obtain rfl := Option.some.inj hs
    by_cases hthis : forKds event = true ∧ orderOf event = orderId
    · -- it is on the screens now
      left
      rw [State.broadcasts]
      dsimp only
      rw [if_pos hthis.1, List.filter_append]
      simp [hthis.2]
    · have hrest : Announces (event :: events) orderId → Announces events orderId := by
        rintro ⟨e, he, hfor, horder⟩
        rcases List.mem_cons.mp he with rfl | he
        · exact absurd ⟨hfor, horder⟩ hthis
        · exact ⟨e, he, hfor, horder⟩
      have hset : State.Mentions ⟨s.db, s.runs.set i (.publishing events), s.kds, s.kiosk⟩
        orderId := h.set hr (.publishing events) hrest
      rcases hset with hshown | hcall
      · left
        rw [State.broadcasts] at hshown ⊢
        dsimp only at hshown ⊢
        split
        · rw [List.filter_append]
          exact List.append_ne_nil_of_left_ne_nil hshown _
        · exact hshown
      · exact Or.inr hcall

/-- What a step does to an order that is to be made: nothing, or it speaks of it. -/
theorem orders_of_act {s s' : State} {a : Act} (hs : s.act a = some s') {orderId : Id} {row : Order}
    (hrow : s'.db.orders.get orderId = some row)
    (hstatus : kdsStatuses.contains row.status = true) :
    s.db.orders.get orderId = some row ∨ s'.Mentions orderId := by
  have hput : ∀ {db : Db} {id : Id} {new : Order}, db = s.db →
      (db.orders.put id new).get orderId = some row → kdsStatuses.contains new.status = false →
      s.db.orders.get orderId = some row := by
    rintro db id new rfl hget hnew
    rw [Table.get_put] at hget
    split at hget
    · obtain rfl := Option.some.inj hget
      rw [hnew] at hstatus
      cases hstatus
    · exact hget
  cases a with
  | create id new items =>
    simp only [State.act] at hs
    split at hs
    · rename_i hcond
      obtain rfl := Option.some.inj hs
      exact Or.inl (hput rfl hrow (not_kds_of_unannounced hcond.2.1))
    · cases hs
  | checkout id orderNumber expiresAt =>
    obtain ⟨old, hold, hs⟩ := Option.bind_eq_some_iff.mp hs
    split at hs
    · obtain rfl := Option.some.inj hs
      exact Or.inl (hput rfl hrow rfl)
    · cases hs
  | expire id =>
    obtain ⟨old, hold, hs⟩ := Option.bind_eq_some_iff.mp hs
    split at hs
    · obtain rfl := Option.some.inj hs
      exact Or.inl (hput rfl hrow rfl)
    · cases hs
  | run work =>
    obtain rfl := Option.some.inj hs
    exact Or.inl hrow
  | proceed i =>
    obtain ⟨r, hr, hs⟩ := Option.bind_eq_some_iff.mp hs
    cases r with
    | working work =>
      simp only [State.proceed] at hs
      split at hs
      · obtain rfl := Option.some.inj hs
        exact Or.inl hrow
      · rename_i hcommit
        obtain rfl := Option.some.inj hs
        rcases Work.commit_cases hcommit with ⟨rfl, -⟩ | ⟨new, -, rfl, hannounces⟩
        · exact Or.inl hrow
        · by_cases horder : work.orderId = orderId
          · exact Or.inr (Or.inr ⟨_, mem_set_self hr, (hannounces orderId).mpr horder⟩)
          · exact Or.inl ((Table.get_put_ne _ _ (Ne.symm horder)).symm.trans hrow)
    | publishing events =>
      refine Or.inl ?_
      cases events with
      | nil => cases hs
      | cons event events =>
        simp only [State.proceed] at hs
        split at hs
        · obtain rfl := Option.some.inj hs
          exact hrow
        · split at hs
          · obtain rfl := Option.some.inj hs
            exact hrow
          · obtain rfl := Option.some.inj hs
            exact hrow
    | holding ticket event events =>
      obtain rfl := Option.some.inj hs
      exact Or.inl hrow

/-- What was spoken of stays so, whatever is done. -/
theorem State.Mentions.act {s s' : State} {a : Act} (hgood : s.Good) (hs : s.act a = some s')
    {orderId : Id} (h : s.Mentions orderId) : s'.Mentions orderId := by
  cases a with
  | create id row items =>
    simp only [State.act] at hs
    split at hs
    · obtain rfl := Option.some.inj hs
      exact h
    · cases hs
  | checkout id orderNumber expiresAt =>
    obtain ⟨row, -, hs⟩ := Option.bind_eq_some_iff.mp hs
    split at hs
    · obtain rfl := Option.some.inj hs
      exact h
    · cases hs
  | expire id =>
    obtain ⟨row, -, hs⟩ := Option.bind_eq_some_iff.mp hs
    split at hs
    · obtain rfl := Option.some.inj hs
      exact h
    · cases hs
  | run work =>
    obtain rfl := Option.some.inj hs
    refine h.imp_right ?_
    rintro ⟨q, hq, hannounces⟩
    exact ⟨q, List.mem_append_left _ hq, hannounces⟩
  | proceed i =>
    obtain ⟨r, hr, hs⟩ := Option.bind_eq_some_iff.mp hs
    exact h.proceed hgood hr hs

/-- One step. -/
theorem Told.act {s s' : State} {a : Act} (h : Told s) (hgood : s.Good) (hs : s.act a = some s') :
    Told s' := by
  intro orderId row hrow hstatus
  rcases orders_of_act hs hrow hstatus with hold | hnow
  · exact (h orderId row hold hstatus).act hgood hs
  · exact hnow

/-- Every run. -/
theorem Runs.told {s : State} (h : Runs State.Fresh s) : Told s := by
  induction h with
  | opening => exact fun _ _ hrow => by cases hrow
  | act hruns _ hs ih => exact ih.act hruns.good hs

/-! ## Polling and listening agree -/

section agree

variable {createdAt : Id → Instant}

theorem NotAfter.antisymm {a b : Id} (hab : NotAfter createdAt a b) (hba : NotAfter createdAt b a) :
    a = b := by
  simp only [NotAfter, Id, Instant] at *
  omega

instance : IsTrans Id (NotAfter createdAt) where
  trans a b c hab hbc := by
    simp only [NotAfter, Id, Instant] at *
    omega

instance : Std.Total (NotAfter createdAt) where
  total a b := by
    simp only [NotAfter, Id, Instant] at *
    omega

/-- What belongs to orders, oldest order first. -/
def byAge {α : Type} (createdAt : Id → Instant) (f : α → Id) (l : List α) : List α :=
  l.insertionSort fun a b => NotAfter createdAt (f a) (f b)

theorem perm_byAge {α : Type} (f : α → Id) (l : List α) : (byAge createdAt f l).Perm l :=
  List.perm_insertionSort _ _

theorem pairwise_byAge {α : Type} (f : α → Id) (l : List α) :
    (byAge createdAt f l).Pairwise fun a b => NotAfter createdAt (f a) (f b) := by
  have htrans : IsTrans α fun a b => NotAfter createdAt (f a) (f b) :=
    ⟨fun a b c => trans_of (NotAfter createdAt)⟩
  have htotal : Std.Total fun a b => NotAfter createdAt (f a) (f b) :=
    ⟨fun a b => total_of (NotAfter createdAt) (f a) (f b)⟩
  exact List.pairwise_insertionSort _ l

/-- Sorted lists of what belongs to different orders are the same if their elements are. -/
theorem eq_of_pairwise {α : Type} {f : α → Id} {l₁ l₂ : List α}
    (hinj : ∀ a ∈ l₁, ∀ b ∈ l₂, f a = f b → a = b)
    (h₁ : l₁.Pairwise fun a b => NotAfter createdAt (f a) (f b))
    (h₂ : l₂.Pairwise fun a b => NotAfter createdAt (f a) (f b)) (hperm : l₁.Perm l₂) : l₁ = l₂ :=
  List.Perm.eq_of_pairwise (fun a b ha hb hab hba => hinj a ha b hb (hab.antisymm hba)) h₁ h₂ hperm

/-- The tickets of the orders that are to be made. -/
def tickets (db : Db) : List KdsTicket :=
  (db.orders.select fun _ row => kdsStatuses.contains row.status).map
    fun q => ⟨toOrderSummary q.1 q.2, toOrderLines (db.itemsOf q.1)⟩

theorem mem_tickets {db : Db} {ticket : KdsTicket} : ticket ∈ tickets db ↔
    ∃ orderId, ticketFor db orderId = some ticket ∧
      kdsStatuses.contains ticket.summary.status = true := by
  constructor
  · intro h
    obtain ⟨⟨orderId, row⟩, hrow, rfl⟩ := List.mem_map.mp h
    obtain ⟨hget, hstatus⟩ := Table.mem_select.mp hrow
    exact ⟨orderId, by rw [ticketFor, hget]; rfl, hstatus⟩
  · rintro ⟨orderId, hticket, hstatus⟩
    obtain ⟨row, hget, rfl⟩ := Option.map_eq_some_iff.mp hticket
    exact List.mem_map.mpr ⟨(orderId, row), Table.mem_select.mpr ⟨hget, hstatus⟩, rfl⟩

theorem id_of_ticketFor {db : Db} {orderId : Id} {ticket : KdsTicket}
    (h : ticketFor db orderId = some ticket) : ticket.summary.id = orderId := by
  obtain ⟨row, -, rfl⟩ := Option.map_eq_some_iff.mp h
  rfl

theorem nodup_tickets (db : Db) : (tickets db).Nodup := by
  have hkeys := Table.nodup_select db.orders fun _ row => kdsStatuses.contains row.status
  refine List.Nodup.of_map (fun ticket : KdsTicket => ticket.summary.id) ?_
  rw [tickets, List.map_map]
  exact hkeys

/-- The snapshot, as tickets. -/
theorem snapshot_eq (db : Db) : snapshot createdAt db =
    (byAge createdAt (fun ticket => ticket.summary.id) (tickets db)).take maxTickets := by
  rw [snapshot, List.map_take, oldestFirst, tickets, byAge]
  congr 1
  exact List.map_insertionSort _ _ _ _ fun _ _ _ _ => Iff.rfl

/-- What a listener knows while nothing is being published. -/
theorem lastTicket_of_quiet {s : State} (hgood : s.Good) (hquiet : s.Quiet) {orderId : Id}
    (hshown : s.broadcasts orderId ≠ []) : s.lastTicket orderId = ticketFor s.db orderId := by
  refine (hgood.current orderId hshown).resolve_right ?_
  rintro ⟨r, hr, hcoming⟩
  obtain ⟨e, he, -⟩ := hcoming.announces
  rw [hquiet r hr] at he
  cases he

theorem shown_of_lastTicket {s : State} {orderId : Id} {ticket : KdsTicket}
    (h : s.lastTicket orderId = some ticket) : s.broadcasts orderId ≠ [] := by
  intro hnil
  rw [State.lastTicket, hnil] at h
  cases h

/-- The orders that were broadcast. -/
theorem mem_spoken {s : State} {orderId : Id} :
    orderId ∈ (s.kds.map fun b => orderOf b.event).dedup ↔ s.broadcasts orderId ≠ [] := by
  rw [List.mem_dedup, List.mem_map, State.broadcasts, Ne, List.filter_eq_nil_iff]
  simp

/-- A listener knows the tickets of just the orders that are to be made. -/
theorem heard_perm {s : State} (hgood : s.Good) (htold : Told s) (hquiet : s.Quiet) :
    s.heard.Perm (tickets s.db) := by
  have hlast : ∀ {orderId ticket}, s.lastTicket orderId = some ticket →
      ticketFor s.db orderId = some ticket := fun h =>
    (lastTicket_of_quiet hgood hquiet (shown_of_lastTicket h)).symm.trans h
  have hnodup : s.heard.Nodup := by
    refine ((List.nodup_dedup _).filterMap fun a a' ticket ha ha' => ?_).filter _
    exact (id_of_ticketFor (hlast ha)).symm.trans (id_of_ticketFor (hlast ha'))
  refine (List.perm_ext_iff_of_nodup hnodup (nodup_tickets _)).mpr fun ticket => ?_
  rw [mem_tickets, State.heard, List.mem_filter, List.mem_filterMap]
  constructor
  · rintro ⟨⟨orderId, -, hticket⟩, hstatus⟩
    exact ⟨orderId, hlast hticket, hstatus⟩
  · rintro ⟨orderId, hticket, hstatus⟩
    obtain ⟨row, hrow, heq⟩ := Option.map_eq_some_iff.mp hticket
    have hmention := htold orderId row hrow (by rw [← heq] at hstatus; exact hstatus)
    have hshown : s.broadcasts orderId ≠ [] := by
      refine hmention.resolve_right ?_
      rintro ⟨r, hr, e, he, -⟩
      rw [hquiet r hr] at he
      cases he
    exact ⟨⟨orderId, mem_spoken.mpr hshown,
      (lastTicket_of_quiet hgood hquiet hshown).trans hticket⟩, hstatus⟩

/-- The row that an order has on the public board. -/
def isOnBoard (q : Id × Order) : Bool :=
  boardStatuses.contains q.2.status && q.2.orderNumber.isSome

theorem nodup_oldestFirst (db : Db) (p : Order → Bool) : (oldestFirst createdAt db p).Nodup :=
  (perm_byAge Prod.fst _).nodup_iff.mpr
    (List.Nodup.of_map Prod.fst (Table.nodup_select db.orders fun _ row => p row))

theorem mem_oldestFirst {db : Db} {p : Order → Bool} {q : Id × Order} :
    q ∈ oldestFirst createdAt db p ↔ db.orders.get q.1 = some q.2 ∧ p q.2 = true :=
  ((perm_byAge Prod.fst _).mem_iff).trans Table.mem_select

/-- The orders of the public board are among those that are to be made, in the same order. -/
theorem oldestFirst_board (db : Db) :
    (oldestFirst createdAt db fun row => kdsStatuses.contains row.status).filter isOnBoard =
      oldestFirst createdAt db fun row =>
        boardStatuses.contains row.status && row.orderNumber.isSome := by
  refine eq_of_pairwise (fun a ha b hb hid => ?_)
    ((pairwise_byAge Prod.fst _).sublist List.filter_sublist) (pairwise_byAge Prod.fst _)
    ((List.perm_ext_iff_of_nodup ((nodup_oldestFirst _ _).filter _)
      (nodup_oldestFirst _ _)).mpr fun q => ?_)
  · -- an order has one row
    have hrow := (mem_oldestFirst.mp (List.mem_of_mem_filter ha)).1
    rw [hid, (mem_oldestFirst.mp hb).1] at hrow
    exact Prod.ext hid (Option.some.inj hrow).symm
  · rw [List.mem_filter, mem_oldestFirst, mem_oldestFirst]
    constructor
    · exact fun h => ⟨h.1.1, h.2⟩
    · exact fun h => ⟨⟨h.1, kds_of_board (Bool.and_eq_true_iff.mp h.2).1⟩, h.2⟩

/-- What the snapshot has of the public board is the beginning of it. -/
theorem boardEntries_prefix (db : Db) :
    (snapshot createdAt db).filterMap KdsTicket.boardEntry <+: boardSnapshot createdAt db := by
  have hentries : (snapshot createdAt db).filterMap KdsTicket.boardEntry =
      (((oldestFirst createdAt db fun row => kdsStatuses.contains row.status).take
        maxTickets).filter isOnBoard).filterMap
        fun q => q.2.orderNumber.map fun orderNumber => ⟨orderNumber, q.2.status⟩ := by
    rw [snapshot, List.filterMap_map, List.filterMap_filter]
    refine List.filterMap_congr fun q _ => ?_
    simp only [Function.comp_apply, KdsTicket.boardEntry, toOrderSummary, isOnBoard]
    by_cases hsome : q.2.orderNumber.isSome = true
    · simp [hsome]
    · simp [Option.not_isSome_iff_eq_none.mp hsome]
  rw [hentries, boardSnapshot, ← oldestFirst_board]
  refine List.IsPrefix.filterMap _ (List.prefix_take_iff.mpr
    ⟨List.IsPrefix.filter _ (List.take_prefix _ _), ?_⟩)
  exact (List.length_filter_le _ _).trans (List.length_take_le _ _)

/-- **Polling and listening agree.** In every run in which an outdated ticket is broadcast only
while a ticket of the order as it is is still to come, whenever nothing is being published: the
worklist of a screen that has only listened is the snapshot that one gets who asks, and its entries
for the public board are what the public board begins with. -/
theorem screens_show_snapshot {s : State} (h : Runs State.Fresh s) (hquiet : s.Quiet)
    (createdAt : Id → Instant) : s.worklist createdAt = snapshot createdAt s.db ∧
    (s.worklist createdAt).filterMap KdsTicket.boardEntry <+: boardSnapshot createdAt s.db := by
  have hperm := heard_perm h.good h.told hquiet
  have hsame : s.worklist createdAt = snapshot createdAt s.db := by
    rw [snapshot_eq]
    refine congrArg (List.take maxTickets) (eq_of_pairwise ?_ (pairwise_byAge _ s.heard)
      (pairwise_byAge _ (tickets s.db)) ?_)
    · intro a ha b hb hid
      have hmem : ∀ {ticket}, ticket ∈ tickets s.db →
          ticketFor s.db ticket.summary.id = some ticket := by
        intro ticket hticket
        obtain ⟨orderId, hfor, -⟩ := mem_tickets.mp hticket
        rw [id_of_ticketFor hfor]
        exact hfor
      have ha' := hmem (hperm.subset ((perm_byAge _ _).subset ha))
      have hb' := hmem ((perm_byAge _ _).subset hb)
      rw [hid, hb'] at ha'
      exact (Option.some.inj ha').symm
    · exact ((perm_byAge _ _).trans hperm).trans (perm_byAge _ _).symm
  rw [hsame]
  exact ⟨rfl, boardEntries_prefix s.db⟩

/-- The latte that is paid and started is on both screens, whichever way they come by it. -/
theorem screens_show_snapshot_latte : ∃ s, Runs State.Fresh s ∧
    (s.worklist Int.ofNat).map (fun ticket => ticket.summary.status) = [.inPreparation] ∧
    (s.worklist Int.ofNat = snapshot Int.ofNat s.db ∧
      (s.worklist Int.ofNat).filterMap KdsTicket.boardEntry <+:
        boardSnapshot Int.ofNat s.db) := by
  obtain ⟨s, hs, hquiet, hwork⟩ := Runs.exists_of_perform
    (fun s a => decide (s.Fresh a))
    [.create 100 counterLatte [], .run (.cash 100), .proceed 0, .proceed 0, .proceed 0,
      .run (.transition 100 .paid .inPreparation), .proceed 1, .proceed 1, .proceed 1]
    (fun s => s.Quiet ∧
      (s.worklist Int.ofNat).map (fun ticket => ticket.summary.status) = [.inPreparation])
    (by decide)
  have hfresh := hs.mono fun _ _ => of_decide_eq_true
  exact ⟨s, hfresh, hwork, screens_show_snapshot hfresh hquiet Int.ofNat⟩

end agree

end CafePos.Screens
