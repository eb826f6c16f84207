import CafePos.Money
import Mathlib

/-!
# The status history is legal

`transitionOrder` does not look at the table of legal moves: each door supplies a move of its
own, some from a status read outside the transaction. `OrderStep` says what a commit can do
to an order and its history, `Commits.orderStep` that every log of every door does one of
these, and by induction over the run the rows of every order form a chain of legal moves that
ends in the order's status.
-/

namespace CafePos

open Interleaving

variable {cfg : Config}

/-! ## What a commit does to an order -/

/-- What a commit does to the orders and their history. -/
inductive OrderStep (db db' : Db) : Prop
  /-- nothing -/
  | stays : db'.orders = db.orders → db'.orderStatusHistory = db.orderStatusHistory →
      OrderStep db db'
  /-- a new order -/
  | opens {id : Id} {row : Order} {principal : Principal} : db.orders.get id = none →
      row.status = .draft ∨ row.status = .pendingPayment →
      db'.orders = db.orders.put id row →
      db'.orderStatusHistory = db.orderStatusHistory ++ [createdRow id row.status principal] →
      OrderStep db db'
  /-- a legal move of an order -/
  | moves {r : TransitionRequest} {row row' : Order} : db.orders.get r.orderId = some row →
      row.status = r.source → row'.status = r.target → isLegalTransition r.source r.target →
      db'.orders = db.orders.put r.orderId row' →
      db'.orderStatusHistory = db.orderStatusHistory ++ [r.history] → OrderStep db db'

/-- A log of one `transitionOrder` and writes to other tables is a move. -/
theorem OrderStep.of_moveWrites {db : Db} {r : TransitionRequest} {row : Order} {ws : List Write}
    (hrow : db.orders.get r.orderId = some row) (hsrc : row.status = r.source)
    (hlegal : isLegalTransition r.source r.target)
    (horder : ∀ w ∈ ws, ∀ id row, w ≠ .order id row)
    (hhistory : ∀ w ∈ ws, ∀ row, w ≠ .history row) :
    OrderStep db (store.applyAll (moveWrites r row ++ ws) db) := by
  refine .moves hrow hsrc rfl hlegal (orders_moveWrites horder r row db) ?_
  rw [applyAll_moveWrites, applyAll_orderStatusHistory hhistory]

/-- Every log opens an order, moves one along a legal edge, or leaves them alone. -/
theorem Commits.orderStep {P : PosPermit} {c : Call} {s : Shared} {ws : List Write}
    (h : Commits cfg P c s ws) (hs : Settled s.db) (hr : Refunds s.db) :
    OrderStep s.db (store.applyAll ws s.db) := by
  cases h with
  | create hkey hpriced hn hrow hfree =>
    rw [applyAll_underKey createWrites_not_key, applyAll_createWrites]
    refine .opens hfree ?_ rfl rfl
    simp only [hrow, orderRow]
    split
    · exact Or.inl rfl
    · exact Or.inr rfl
  | checkout hrow hdraft hn =>
    exact .moves (r := ⟨_, .draft, .pendingPayment, actorOf _, none⟩) hrow hdraft rfl rfl
      (Table.put_put ..) rfl
  | cash hm ht hle hkey hrow hpending =>
    rw [applyAll_underKey (by simp [moveWrites])]
    exact .moves (r := ⟨_, .pendingPayment, .paid, ⟨.user, some _⟩, none⟩) hrow hpending rfl rfl
      rfl rfl
  | openPayment => rw [applyAll_underKey (by simp)]; exact .stays rfl rfl
  | record => exact .stays rfl rfl
  | skip =>
    exact .stays (applyAll_orders (forall_stampWrites fun _ _ _ => by simp) _)
      (applyAll_orderStatusHistory (forall_stampWrites fun _ _ => by simp) _)
  | markPayment =>
    exact .stays
      (applyAll_orders (List.forall_mem_append.mpr ⟨forall_settleWrites fun _ _ => by simp,
        forall_stampWrites fun _ _ _ => by simp⟩) _)
      (applyAll_orderStatusHistory (List.forall_mem_append.mpr ⟨forall_settleWrites fun _ => by simp,
        forall_stampWrites fun _ _ => by simp⟩) _)
  | markPaid he hp hcap hrow hpending =>
    exact .of_moveWrites hrow hpending rfl
      (List.forall_mem_append.mpr ⟨forall_settleWrites fun _ _ => by simp,
        forall_stampWrites fun _ _ _ => by simp⟩)
      (List.forall_mem_append.mpr ⟨forall_settleWrites fun _ => by simp,
        forall_stampWrites fun _ _ => by simp⟩)
  | close hcloses hrow hsrc hlive =>
    exact .of_moveWrites hrow hsrc hcloses.unsettled.2.2 (forall_liveWrites fun _ _ _ _ => by simp)
      (forall_liveWrites fun _ _ _ => by simp)
  | staff hrow hstaff =>
    exact .moves (r := ⟨_, _, _, actorOf _, none⟩) hrow rfl rfl
      (isLegalTransition_of_isStaffTransition hstaff) rfl rfl
  | refundPart => exact .stays rfl rfl
  | refundAll hp hsucc hpos hall hrow =>
    -- an order that was paid for and is not refunded yet can be
    obtain ⟨o, ho, hfits⟩ := hs.payment hp
    obtain rfl := Option.some.inj (hrow.symm.trans ho)
    refine .moves (r := ⟨_, _, .refunded, ⟨.user, some _⟩, some _⟩) hrow rfl rfl
      (isLegalTransition_refunded (hfits.settled hsucc) fun href => ?_) rfl rfl
    have hsum := (hr.whole hp hsucc hrow).mp href
    omega

/-! ## The chain -/

/-- The rows of an order's history, in commit order, lead to its status. -/
structure LegalHistory (rows : List HistoryRow) (status : OrderStatus) : Prop where
  /-- the first row comes from nowhere -/
  opens : ∃ first rest, rows = first :: rest ∧ first.fromStatus = none ∧
    (first.toStatus = .draft ∨ first.toStatus = .pendingPayment)
  /-- each later row takes up where the one before it ended -/
  chain : rows.IsChain fun a b => b.fromStatus = some a.toStatus
  /-- every move is one of the table -/
  legal : ∀ row ∈ rows, ∀ source, row.fromStatus = some source →
    isLegalTransition source row.toStatus
  /-- the last row ends in the order's status -/
  ends : rows.getLast?.map HistoryRow.toStatus = some status

theorem LegalHistory.opened {row : HistoryRow} (hfrom : row.fromStatus = none)
    (hto : row.toStatus = .draft ∨ row.toStatus = .pendingPayment) :
    LegalHistory [row] row.toStatus where
  opens := ⟨row, [], rfl, hfrom, hto⟩
  chain := List.isChain_singleton _
  legal r hr source hsource := by
    rw [List.mem_singleton.mp hr, hfrom] at hsource
    cases hsource
  ends := rfl

/-- One more legal move. -/
theorem LegalHistory.snoc {rows : List HistoryRow} {status : OrderStatus} {row : HistoryRow}
    (h : LegalHistory rows status) (hfrom : row.fromStatus = some status)
    (hlegal : isLegalTransition status row.toStatus) :
    LegalHistory (rows ++ [row]) row.toStatus where
  opens := by
    obtain ⟨first, rest, rfl, hfirst⟩ := h.opens
    exact ⟨first, rest ++ [row], rfl, hfirst⟩
  chain := by
    refine h.chain.append (List.isChain_singleton _) fun a ha b hb => ?_
    obtain rfl := Option.some.inj hb
    have hlast := h.ends
    rw [ha] at hlast
    rw [hfrom, ← hlast]
    rfl
  legal r hr source hsource := by
    rcases List.mem_append.mp hr with hr | hr
    · exact h.legal r hr source hsource
    · rw [List.mem_singleton.mp hr] at hsource ⊢
      obtain rfl := Option.some.inj (hfrom.symm.trans hsource)
      exact hlegal
  ends := by rw [List.getLast?_concat]; rfl

/-- What the history of every committed state satisfies. -/
structure Historied (db : Db) : Prop where
  /-- a row belongs to an order -/
  row : ∀ h ∈ db.orderStatusHistory, ∃ o, db.orders.get h.orderId = some o
  /-- the rows of an order lead to its status -/
  legal : ∀ {id o}, db.orders.get id = some o → LegalHistory (db.historyOf id) o.status

namespace Historied

variable {db db' : Db}

theorem empty : Historied Db.empty where
  row h hh := absurd hh List.not_mem_nil
  legal h := by cases h

/-- An order and a history row of it are put. -/
theorem put (h : Historied db) {id : Id} {row : Order} {hrow : HistoryRow} (hid : hrow.orderId = id)
    (horders : db'.orders = db.orders.put id row)
    (hhistory : db'.orderStatusHistory = db.orderStatusHistory ++ [hrow])
    (hlegal : LegalHistory (db.historyOf id ++ [hrow]) row.status) : Historied db' := by
  refine ⟨fun r hr => ?_, fun {x o} ho => ?_⟩
  · rw [horders, Table.get_put]
    split
    · exact ⟨row, rfl⟩
    · rename_i hne
      rw [hhistory] at hr
      rcases List.mem_append.mp hr with hr | hr
      · exact h.row r hr
      · rw [List.mem_singleton.mp hr] at hne
        exact absurd hid hne
  · rw [horders, Table.get_put] at ho
    rw [Db.historyOf, hhistory, List.filter_append]
    split at ho
    · rename_i hx
      obtain rfl := Option.some.inj ho
      have hmine : [hrow].filter (fun r => r.orderId == x) = [hrow] := by simp [hid, hx]
      rw [hmine, hx]
      exact hlegal
    · rename_i hx
      have hnot : [hrow].filter (fun r => r.orderId == x) = [] := by
        simp [hid, Ne.symm hx]
      rw [hnot, List.append_nil]
      exact h.legal ho

/-- One commit. -/
theorem step (h : Historied db) (hstep : OrderStep db db') : Historied db' := by
  cases hstep with
  | stays horders hhistory =>
    refine ⟨fun r hr => ?_, fun {id o} ho => ?_⟩
    · rw [horders]
      rw [hhistory] at hr
      exact h.row r hr
    · rw [horders] at ho
      rw [Db.historyOf, hhistory]
      exact h.legal ho
  | @opens id row principal hfree hstatus horders hhistory =>
    have hnone : db.historyOf id = [] := by
      rw [Db.historyOf, List.filter_eq_nil_iff]
      intro r hr heq
      obtain ⟨o, ho⟩ := h.row r hr
      rw [beq_iff_eq.mp heq, hfree] at ho
      cases ho
    have hopened : LegalHistory (db.historyOf id ++ [createdRow id row.status principal])
        row.status := by
      rw [hnone]
      exact .opened rfl hstatus
    exact h.put rfl horders hhistory hopened
  | @moves r row row' hrow hsrc htgt hlegal horders hhistory =>
    refine h.put rfl horders hhistory ?_
    have hold := h.legal hrow
    rw [hsrc] at hold
    rw [htgt]
    exact hold.snoc rfl hlegal

end Historied

theorem Reachable.historied {w : PosWorld} (h : Reachable cfg w) : Historied w.shared.db := by
  have hboth : Refunds w.shared.db ∧ Historied w.shared.db :=
    h.db_invariant (J := fun db => Refunds db ∧ Historied db) ⟨.empty, .empty⟩
      fun _ _ _ hs hJ hc => ⟨hc.refunds hs hJ.1, hJ.2.step (hc.orderStep hs hJ.1)⟩
  exact hboth.2

/-- In every reachable world the history of every order is a chain of legal moves that ends
in the order's status; no row leaves `CANCELLED`, `EXPIRED` or `REFUNDED`. -/
theorem history_is_legal {w : PosWorld} (h : Reachable cfg w) {id : Id} {o : Order}
    (ho : w.shared.db.orders.get id = some o) :
    LegalHistory (w.shared.db.historyOf id) o.status ∧
    ∀ row ∈ w.shared.db.historyOf id, row.fromStatus ≠ some .cancelled ∧
      row.fromStatus ≠ some .expired ∧ row.fromStatus ≠ some .refunded := by
  have hlegal := h.historied.legal ho
  refine ⟨hlegal, fun row hrow => ⟨fun hf => ?_, fun hf => ?_, fun hf => ?_⟩⟩
  · exact absurd (hlegal.legal row hrow _ hf) Bool.false_ne_true
  · exact absurd (hlegal.legal row hrow _ hf) Bool.false_ne_true
  · exact absurd (hlegal.legal row hrow _ hf) Bool.false_ne_true

theorem history_is_legal_refunded : ∃ w, Reachable cornerCafe w ∧
    ∃ o, w.shared.db.orders.get 100 = some o ∧ o.status = .refunded ∧
      (w.shared.db.historyOf 100).length = 3 ∧
      LegalHistory (w.shared.db.historyOf 100) o.status := by
  obtain ⟨w, hw, hstatus, hlength⟩ := Reachable.exists_of_runIf cornerCafe
    (takeOrder ++ payCash 1 200 ++
      .start (.refund 7 200 ⟨9000, "cold"⟩) :: steps 2 11 (supply 400 ""))
    (fun w => (w.shared.db.orders.get 100).map Order.status = some .refunded ∧
      (w.shared.db.historyOf 100).length = 3) (by decide)
  obtain ⟨o, ho, hrefunded⟩ := Option.map_eq_some_iff.mp hstatus
  exact ⟨w, hw, o, ho, hrefunded, hlength, (history_is_legal hw ho).1⟩

end CafePos
