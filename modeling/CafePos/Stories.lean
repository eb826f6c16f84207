import CafePos.History
import CafePos.Lookups
import CafePos.Interleaving.Trail
import CafePos.Relational.Sorting

/-!
# The story of an order

`OrdersReadService.detail` shows the history of an order sorted by `created_at`, in whole
milliseconds. The column is the time at which the writing transaction began, and the rows are
fetched in any order. A `Timeline` is a run with a clock that notes when every transaction began
and what was written into the column.

* `isStory_iff` — of a legal history every order of the rows is shown as a story if and only if
  each row was stamped in a later millisecond than the rows before it;
* `Timeline.Step` — what one action does to the history and to the column;
* `Timelines.inOrder` — if every moving transaction began after the one before, the stamps are in
  the order of the moves;
* `history_shown` — in such a run every state shows every order's story.
-/

namespace CafePos

open Interleaving Relational

variable {cfg : Config}

/-! ## Statuses move forward -/

/-- How far an order has come. -/
def OrderStatus.rank : OrderStatus → ℕ
  | draft => 0
  | pendingPayment => 1
  | paid => 2
  | inPreparation => 3
  | ready => 4
  | completed => 5
  | cancelled => 6
  | expired => 6
  | refunded => 6

theorem rank_lt {source target : OrderStatus} :
    isLegalTransition source target → source.rank < target.rank := by
  cases source <;> cases target <;> decide

/-- Every row takes the order further than the row before it. -/
abbrev Further (a b : HistoryRow) : Prop := a.toStatus.rank < b.toStatus.rank

theorem pairwise_further {rows : List HistoryRow}
    (hchain : rows.IsChain fun a b => b.fromStatus = some a.toStatus)
    (hlegal : ∀ row ∈ rows, ∀ source, row.fromStatus = some source →
      isLegalTransition source row.toStatus) : rows.Pairwise Further := by
  have htrans : IsTrans HistoryRow Further := ⟨fun _ _ _ hab hbc => Nat.lt_trans hab hbc⟩
  refine List.isChain_iff_pairwise.mp (hchain.imp_of_mem_imp fun a b _ hb hfrom => ?_)
  exact rank_lt (hlegal b hb _ hfrom)

/-- Two orders of the rows in which they take an order further and further are one. -/
theorem eq_of_further {rows rows' : List HistoryRow} (h : rows.Pairwise Further)
    (h' : rows'.Pairwise Further) (hperm : rows.Perm rows') : rows = rows' := by
  refine hperm.eq_of_pairwise (fun a b _ _ hab hba => ?_) h h'
  exact absurd (Nat.lt_trans hab hba) (Nat.lt_irrefl _)

/-! ## What is shown -/

/-- The changes read as the story of an order in this status. -/
structure IsStory (changes : List OrderStatusChange) (status : OrderStatus) : Prop where
  /-- it begins from nowhere -/
  opens : changes.head?.map OrderStatusChange.fromStatus = some none
  /-- each later change takes up where the one before it ended -/
  chain : changes.IsChain fun a b => b.fromStatus = some a.toStatus
  /-- it ends where the order is -/
  ends : changes.getLast?.map OrderStatusChange.toStatus = some status

section shown

variable {stamps : Stamps} {rows : List HistoryRow} {status : OrderStatus}

/-- The order in which `toStatusHistory` sorts. -/
def Stamps.before (stamps : Stamps) (a b : HistoryRow) : Bool :=
  decide (stamps.history a ≤ stamps.history b)

theorem Stamps.before_trans (a b c : HistoryRow) (hab : stamps.before a b = true)
    (hbc : stamps.before b c = true) : stamps.before a c = true :=
  decide_eq_true (le_trans (of_decide_eq_true hab) (of_decide_eq_true hbc))

theorem Stamps.before_total (a b : HistoryRow) :
    (stamps.before a b || stamps.before b a) = true := by
  rw [Bool.or_eq_true]
  rcases le_total (stamps.history a) (stamps.history b) with h | h
  · exact Or.inl (decide_eq_true h)
  · exact Or.inr (decide_eq_true h)

/-- The rows in the order of the moves read as a story. -/
theorem LegalHistory.isStory (h : LegalHistory rows status) {rows' : List HistoryRow}
    (hsorted : rows'.mergeSort stamps.before = rows) :
    IsStory (toStatusHistory stamps rows') status := by
  have hshown : toStatusHistory stamps rows' = rows.map fun entry =>
      ⟨entry.fromStatus, entry.toStatus, entry.actorType, entry.actorId,
        stamps.history entry⟩ := congrArg (List.map _) hsorted
  rw [hshown]
  refine ⟨?_, (List.isChain_map _).mpr h.chain, ?_⟩
  · obtain ⟨first, rest, rfl, hfrom, -⟩ := h.opens
    exact congrArg some hfrom
  · rw [List.getLast?_map, Option.map_map]
    exact h.ends

/-- What reads as a story is in the order of the moves. -/
theorem LegalHistory.sorted_eq (h : LegalHistory rows status) {rows' : List HistoryRow}
    (hperm : rows'.Perm rows) (hstory : IsStory (toStatusHistory stamps rows') status) :
    rows'.mergeSort stamps.before = rows := by
  have hsorted := (List.mergeSort_perm rows' stamps.before).trans hperm
  refine eq_of_further (pairwise_further ((List.isChain_map _).mp hstory.chain) fun row hrow => ?_)
    (pairwise_further h.chain h.legal) hsorted
  exact h.legal row (hsorted.mem_iff.mp hrow)

/-- Every order of the rows is shown as the story if and only if the stamps are in the order of
the moves. -/
theorem isStory_iff (h : LegalHistory rows status) :
    (∀ rows', rows'.Perm rows → IsStory (toStatusHistory stamps rows') status) ↔
      rows.Pairwise fun a b => stamps.history a < stamps.history b := by
  have hfurther := pairwise_further h.chain h.legal
  have hnodup : rows.Nodup :=
    hfurther.imp fun hab heq => absurd hab (by rw [heq]; exact lt_irrefl _)
  constructor
  · intro hshown
    have hsorts : ∀ rows' : List HistoryRow, rows'.Perm rows →
        rows'.mergeSort stamps.before = rows :=
      fun rows' hperm => h.sorted_eq hperm (hshown rows' hperm)
    have htold := (mergeSort_eq_iff Stamps.before_trans Stamps.before_total hnodup).mp
      fun l₁ l₂ h₁ h₂ => (hsorts l₁ h₁).trans (hsorts l₂ h₂).symm
    have hle : rows.Pairwise fun a b => stamps.before a b = true := by
      have hpairwise := @List.pairwise_mergeSort _ stamps.before Stamps.before_trans
        Stamps.before_total rows
      rw [hsorts rows (List.Perm.refl _)] at hpairwise
      exact hpairwise
    refine (hle.and hfurther).imp_of_mem fun ha hb hab => lt_of_not_ge fun hge => ?_
    have heq := htold _ ha _ hb hab.1 (decide_eq_true hge)
    exact absurd hab.2 (by rw [heq]; exact lt_irrefl _)
  · intro hlt rows' hperm
    refine h.isStory (((List.mergeSort_perm rows' stamps.before).trans hperm).eq_of_pairwise
      (fun a b ha hb hab hba => ?_) (List.pairwise_mergeSort Stamps.before_trans
        Stamps.before_total rows') (hlt.imp fun hab => decide_eq_true hab.le))
    by_contra hne
    have hmem := ((List.mergeSort_perm rows' stamps.before).trans hperm).mem_iff.mp ha
    have hsymm : Std.Symm fun a b : HistoryRow => stamps.history a ≠ stamps.history b :=
      ⟨fun _ _ h => h.symm⟩
    have hdiffer : rows.Pairwise fun a b => stamps.history a ≠ stamps.history b :=
      hlt.imp fun hab => ne_of_lt hab
    exact hdiffer.forall hmem hb hne (le_antisymm (of_decide_eq_true hab) (of_decide_eq_true hba))

end shown

/-! ## Timelines -/

/-- The history rows of a log. -/
def historyRows (ws : List Write) : List HistoryRow :=
  ws.filterMap fun w => match w with
    | .history row => some row
    | _ => none

theorem orderStatusHistory_applyAll (ws : List Write) (db : Db) :
    (store.applyAll ws db).orderStatusHistory = db.orderStatusHistory ++ historyRows ws := by
  induction ws generalizing db with
  | nil => exact (List.append_nil _).symm
  | cons w ws ih =>
    rw [Store.applyAll_cons, ih]
    cases w with
    | history row => exact List.append_assoc ..
    | _ => rfl

/-- A world with a clock, which counts microseconds. -/
structure Timeline where
  world : PosWorld
  clock : ℤ
  /-- when the transaction of a call began -/
  begun : ℕ → ℤ
  /-- `created_at` of the history rows -/
  createdAt : HistoryRow → ℤ

namespace Timeline

/-- Before the first call. -/
def start : Timeline := ⟨opening, 0, fun _ => 0, fun _ => 0⟩

/-- Call `i` begins a transaction. -/
def begins (v : Timeline) (i : ℕ) (a : PosAct) : Bool :=
  match v.world.operation i a with
  | some (.begin, _) => true
  | _ => false

/-- The history rows an action commits, each with the default of its column: the time at which
the transaction began. -/
def stamped (v : Timeline) (a : PosAct) : List (HistoryRow × ℤ) :=
  match a with
  | .step i _ =>
    match v.world.operation i a with
    | some (.commit, l, _) => (historyRows l.log).map fun row => (row, v.begun i)
    | _ => []
  | _ => []

/-- The clock, the transactions and the column after an action. -/
def next (v : Timeline) (t : ℤ) (a : PosAct) (w : PosWorld) : Timeline where
  world := w
  clock := t
  begun i := if v.begins i a then t else v.begun i
  createdAt row := ((v.stamped a).lookup row).getD (v.createdAt row)

/-- An action at an instant. -/
def act (cfg : Config) (v : Timeline) (t : ℤ) (a : PosAct) : Option Timeline :=
  if v.clock ≤ t then (v.world.act (system cfg) a).map (v.next t a) else none

/-- The stamps that a read of the rows finds: `getTime` counts milliseconds. -/
def stamps (v : Timeline) (shown : Stamps) : Stamps :=
  { shown with history := fun row => v.createdAt row / 1000 }

/-- If the action moves an order, its transaction began in a later millisecond than the
transactions that moved the order before. -/
def OnTime (v : Timeline) (a : PosAct) : Prop :=
  ∀ e ∈ v.stamped a, ∀ row ∈ v.world.shared.db.historyOf e.1.orderId,
    v.createdAt row / 1000 < e.2 / 1000

instance (v : Timeline) (a : PosAct) : Decidable (v.OnTime a) :=
  inferInstanceAs (Decidable (∀ e ∈ v.stamped a, ∀ row ∈ _, _))

/-- The stamps of every order are in the order of its moves. -/
def InOrder (v : Timeline) : Prop :=
  ∀ id, (v.world.shared.db.historyOf id).Pairwise fun a b =>
    v.createdAt a / 1000 < v.createdAt b / 1000

end Timeline

/-- The timelines that permitted actions lead to. -/
inductive Timelines (cfg : Config) (P : Timeline → PosAct → Prop) : Timeline → Prop
  | start : Timelines cfg P .start
  | act {v v' : Timeline} {t : ℤ} {a : PosAct} : Timelines cfg P v → P v a →
      v.act cfg t a = some v' → Timelines cfg P v'

theorem Timeline.act_eq_some {v v' : Timeline} {t : ℤ} {a : PosAct}
    (h : v.act cfg t a = some v') : ∃ w, v.world.act (system cfg) a = some w ∧ v' = v.next t a w := by
  rw [act] at h
  split at h
  · obtain ⟨w, hw, rfl⟩ := Option.map_eq_some_iff.mp h
    exact ⟨w, hw, rfl⟩
  · cases h

theorem Timelines.reachable {P : Timeline → PosAct → Prop} {v : Timeline}
    (h : Timelines cfg P v) : Reachable cfg v.world := by
  induction h with
  | start => exact .refl
  | act _ _ hact ih =>
    obtain ⟨w, hw, rfl⟩ := Timeline.act_eq_some hact
    exact ih.tail (Runs.allows_all _ _) hw

/-- What an action does to the history and to its stamps. -/
inductive Timeline.Step (v : Timeline) (a : PosAct) (v' : Timeline) : Prop
  /-- nothing -/
  | stays : v'.world.shared.db.orderStatusHistory = v.world.shared.db.orderStatusHistory →
      v'.createdAt = v.createdAt → Step v a v'
  /-- a move of an order -/
  | moves {row : HistoryRow} {t : ℤ} : v.stamped a = [(row, t)] →
      v'.world.shared.db.orderStatusHistory = v.world.shared.db.orderStatusHistory ++ [row] →
      (∀ r, v'.createdAt r = if r = row then t else v.createdAt r) → Step v a v'

/-- An operation that is no commit writes no history. -/
theorem Move.history {c : Call} {o : Op} {l l' : Sess} {s s' : Shared}
    (h : Move cfg .all c o l s l' s') (ho : o ≠ .commit) :
    s'.db.orderStatusHistory = s.db.orderStatusHistory := by
  cases h with
  | quiet | publish | gateway => rfl
  | commit => exact absurd rfl ho
  | inbox => rfl

/-- A commit writes no history row, or one. -/
theorem Move.history_commit {c : Call} {l l' : Sess} {s s' : Shared}
    (h : Move cfg .all c .commit l s l' s') (hs : Settled s.db) (hr : Refunds s.db)
    (hdb : s'.db = store.applyAll l.log s.db) :
    historyRows l.log = [] ∨ ∃ row, historyRows l.log = [row] := by
  have hrows := orderStatusHistory_applyAll l.log s.db
  have hsame : s'.db = s.db → historyRows l.log = [] := by
    intro heq
    rw [← hdb, heq] at hrows
    exact List.self_eq_append_right.mp hrows
  cases h with
  | quiet | gateway => exact Or.inl (hsame rfl)
  | commit hc =>
    cases hc.orderStep hs hr with
    | stays _ hhistory =>
      rw [hrows] at hhistory
      exact Or.inl (List.append_right_eq_self.mp hhistory)
    | opens _ _ _ hhistory | moves _ _ _ _ _ hhistory =>
      rw [hrows] at hhistory
      exact Or.inr ⟨_, List.append_cancel_left hhistory⟩

/-- Only a commit stamps rows. -/
theorem Timeline.stamped_of_ne {v : Timeline} {i : ℕ} {inp : Input} {o : Op} {l : Sess} {s : Shared}
    (hop : v.world.operation i (.step i inp : PosAct) = some (o, l, s)) (ho : o ≠ .commit) :
    v.stamped (.step i inp) = [] := by
  simp only [stamped, hop]
  cases o with
  | commit => exact absurd rfl ho
  | _ => rfl

/-- The column after one row has been stamped. -/
theorem Timeline.createdAt_next {v : Timeline} {a : PosAct} {row : HistoryRow} {t : ℤ}
    (h : v.stamped a = [(row, t)]) (clock : ℤ) (w : PosWorld) (r : HistoryRow) :
    (v.next clock a w).createdAt r = if r = row then t else v.createdAt r := by
  simp only [next, h]
  by_cases hr : r = row
  · rw [if_pos hr, hr, List.lookup_cons_self, Option.getD_some]
  · have hne : (r == row) = false := beq_eq_false_iff_ne.mpr hr
    rw [if_neg hr, List.lookup_cons, hne, List.lookup_nil]
    rfl

/-- Every action is such a step. -/
theorem Timeline.step {v v' : Timeline} {t : ℤ} {a : PosAct} (h : Reachable cfg v.world)
    (hact : v.act cfg t a = some v') : v.Step a v' := by
  obtain ⟨w, hw, rfl⟩ := act_eq_some hact
  have hnone : v.stamped a = [] → (v.next t a w).createdAt = v.createdAt := by
    intro hstamped
    funext row
    simp only [next, hstamped, List.lookup_nil, Option.getD_none]
  cases World.transition_of_act hw with
  | start c => exact .stays rfl (hnone rfl)
  | crash => exact .stays rfl (hnone rfl)
  | world hs => exact .stays (congrArg Db.orderStatusHistory (happen_db hs)) (hnone rfl)
  | @step i inp u o k r l' s' hu hp hx =>
    obtain ⟨hmove, -⟩ := h.sound.step hu hp trivial hx
    have hop : v.world.operation i (.step i inp : PosAct) = some (o, u.session, v.world.shared) :=
      World.operation_self hu hp
    by_cases ho : o = .commit
    · subst ho
      have hstamped : v.stamped (.step i inp) =
          (historyRows u.session.log).map fun row => (row, v.begun i) := by
        simp only [stamped, hop]
      have hdb : s'.db = store.applyAll u.session.log v.world.shared.db := by
        obtain ⟨-, -, rfl⟩ := Option.some.inj hx |> Prod.mk.inj |>.imp_right Prod.mk.inj
        rfl
      have hrows := orderStatusHistory_applyAll u.session.log v.world.shared.db
      rw [← hdb] at hrows
      rcases hmove.history_commit h.sound.inv.1 h.refunds hdb with hempty | ⟨row, hone⟩
      · rw [hempty, List.append_nil] at hrows
        exact .stays hrows (hnone (by rw [hstamped, hempty]; rfl))
      · rw [hone] at hstamped hrows
        exact .moves hstamped hrows (createdAt_next hstamped t _)
    · exact .stays (hmove.history ho) (hnone (stamped_of_ne hop ho))

/-! ## In order -/

/-- A row that an order has moved on by is a new one. -/
theorem Historied.not_mem {db db' : Db} (h : Historied db') {row : HistoryRow}
    (hhistory : db'.orderStatusHistory = db.orderStatusHistory ++ [row]) :
    row ∉ db.orderStatusHistory := by
  intro hmem
  obtain ⟨o, ho⟩ := h.row row (by rw [hhistory]; exact List.mem_append_right _ (by simp))
  have hlegal := h.legal ho
  have hfurther := pairwise_further hlegal.chain hlegal.legal
  have hsplit : db'.historyOf row.orderId = db.historyOf row.orderId ++ [row] := by
    rw [Db.historyOf, hhistory, List.filter_append]
    simp [Db.historyOf]
  rw [hsplit, List.pairwise_append] at hfurther
  have hmine : row ∈ db.historyOf row.orderId := List.mem_filter.mpr ⟨hmem, beq_self_eq_true _⟩
  exact absurd (hfurther.2.2 row hmine row (List.mem_singleton_self _)) (lt_irrefl _)

/-- One action. -/
theorem Timeline.Step.inOrder {v v' : Timeline} {a : PosAct} (h : v.Step a v')
    (hv' : Historied v'.world.shared.db) (hv : v.InOrder) (hon : v.OnTime a) : v'.InOrder := by
  intro id
  cases h with
  | stays hhistory hcreated =>
    rw [Db.historyOf, hhistory, hcreated]
    exact hv id
  | @moves row t hstamped hhistory hcreated =>
    have hnew := hv'.not_mem hhistory
    have hold : ∀ r ∈ v.world.shared.db.historyOf id, v'.createdAt r = v.createdAt r := by
      intro r hr
      rw [hcreated, if_neg]
      rintro rfl
      exact hnew (List.mem_of_mem_filter hr)
    rw [Db.historyOf, hhistory, List.filter_append, List.pairwise_append]
    refine ⟨(hv id).imp_of_mem fun ha hb hab => ?_, ?_, fun r hr r' hr' => ?_⟩
    · rw [hold _ ha, hold _ hb]
      exact hab
    · exact (List.pairwise_singleton _ row).sublist List.filter_sublist
    · -- the row that is new
      obtain ⟨hmem, hid⟩ := List.mem_filter.mp hr'
      obtain rfl := List.mem_singleton.mp hmem
      rw [hold r hr, hcreated, if_pos rfl]
      refine hon (r', t) (by rw [hstamped]; exact List.mem_singleton_self _) r ?_
      rw [beq_iff_eq.mp hid]
      exact hr

/-- Every timeline whose moves come on time is in order. -/
theorem Timelines.inOrder {v : Timeline} (h : Timelines cfg Timeline.OnTime v) : v.InOrder := by
  induction h with
  | start => exact fun _ => List.Pairwise.nil
  | act hv hon hact ih =>
    exact (Timeline.step hv.reachable hact).inOrder (hv.act hon hact).reachable.historied ih hon

/-- In every state the history of an order is shown as its story, in whatever order its rows are
fetched, if and only if its stamps are in the order of its moves. -/
theorem Timelines.shown_iff {P : Timeline → PosAct → Prop} {v : Timeline}
    (h : Timelines cfg P v) (shown : Stamps) {id : Id} {o : Order}
    (ho : v.world.shared.db.orders.get id = some o) :
    (∀ rows : List HistoryRow, rows.Perm (v.world.shared.db.historyOf id) →
        IsStory (toStatusHistory (v.stamps shown) rows) o.status) ↔
      (v.world.shared.db.historyOf id).Pairwise fun a b =>
        v.createdAt a / 1000 < v.createdAt b / 1000 :=
  isStory_iff (h.reachable.historied.legal ho)

/-- **The displayed history is the story of the order.** In every run in which a transaction
moves an order only if it began in a later millisecond than those that moved it before, every
state shows the history of every order as a chain of moves, from nowhere to its status. -/
theorem history_shown {v : Timeline} (h : Timelines cfg Timeline.OnTime v) (shown : Stamps)
    {id : Id} {o : Order} (ho : v.world.shared.db.orders.get id = some o)
    {rows : List HistoryRow} (hrows : rows.Perm (v.world.shared.db.historyOf id)) :
    IsStory (toStatusHistory (v.stamps shown) rows) o.status :=
  (h.shown_iff shown ho).mpr (h.inOrder id) rows hrows

/-! ## Two runs -/

/-- Actions at their instants, evaluated. -/
def Timeline.run (cfg : Config) (check : Timeline → PosAct → Bool) (v : Timeline) :
    List (ℤ × PosAct) → Option Timeline
  | [] => some v
  | e :: acts =>
    if check v e.2 then (v.act cfg e.1 e.2).bind fun v' => v'.run cfg check acts else none

theorem Timelines.run {check : Timeline → PosAct → Bool} {acts : List (ℤ × PosAct)}
    {v v' : Timeline} (h : Timelines cfg (fun v a => check v a = true) v)
    (hrun : v.run cfg check acts = some v') :
    Timelines cfg (fun v a => check v a = true) v' := by
  induction acts generalizing v with
  | nil =>
    obtain rfl := Option.some.inj hrun
    exact h
  | cons e acts ih =>
    rw [Timeline.run] at hrun
    split at hrun
    · rename_i hcheck
      obtain ⟨v₁, hact, hrest⟩ := Option.bind_eq_some_iff.mp hrun
      exact ih (h.act hcheck hact) hrest
    · cases hrun

theorem Timelines.exists_of_run (cfg : Config) (check : Timeline → PosAct → Bool)
    (acts : List (ℤ × PosAct)) (p : Timeline → Prop) [DecidablePred p]
    (h : (Timeline.start.run cfg check acts).any (fun v => decide (p v)) = true) :
    ∃ v, Timelines cfg (fun v a => check v a = true) v ∧ p v := by
  obtain ⟨v, hv, hp⟩ := (Option.any_eq_true _ _).mp h
  exact ⟨v, Timelines.start.run hv, of_decide_eq_true hp⟩

theorem Timelines.mono {P Q : Timeline → PosAct → Prop} (hPQ : ∀ v a, P v a → Q v a)
    {v : Timeline} (h : Timelines cfg P v) : Timelines cfg Q v := by
  induction h with
  | start => exact .start
  | act _ hP hact ih => exact ih.act (hPQ _ _ hP) hact

/-- Staff member 8 moves order 100. -/
def moveOrder (target : OrderStatus) : PosAct := .start (.transition (.staff 8) 100 target)

/-- A latte is ordered, paid in the next millisecond and started in the one after. -/
theorem history_shown_started : ∃ v, Timelines cornerCafe Timeline.OnTime v ∧
    IsStory (toStatusHistory (v.stamps ⟨fun _ => 0, fun _ => 0, fun _ => 0⟩)
      (v.world.shared.db.historyOf 100).reverse) .inPreparation := by
  obtain ⟨v, hv, hstatus⟩ := Timelines.exists_of_run cornerCafe
    (fun v a => decide (v.OnTime a))
    (takeOrder.map (fun a => (0, a)) ++ (payCash 1 200).map (fun a => (1000, a)) ++
      (moveOrder .inPreparation :: steps 2 6 (supply 300 "")).map fun a => (2000, a))
    (fun v => (v.world.shared.db.orders.get 100).map Order.status = some .inPreparation)
    (by decide)
  obtain ⟨o, ho, hs⟩ := Option.map_eq_some_iff.mp hstatus
  have hontime := hv.mono fun _ _ => of_decide_eq_true
  have hstory := history_shown hontime ⟨fun _ => 0, fun _ => 0, fun _ => 0⟩ ho
    (List.reverse_perm _)
  rw [hs] at hstory
  exact ⟨v, hontime, hstory⟩

/-- One barista asks for `READY`, and before the order is read in that transaction another one
starts it: the move that came last is the one that began first, and is shown before it. -/
theorem history_out_of_order : ∃ v, Timelines cornerCafe (fun _ _ => True) v ∧
    ∃ o, v.world.shared.db.orders.get 100 = some o ∧
      (v.world.shared.db.historyOf 100).map (fun row => (row.toStatus, v.createdAt row)) =
        [(.pendingPayment, 0), (.paid, 1000), (.inPreparation, 3000), (.ready, 2000)] ∧
      ∃ rows : List HistoryRow, rows.Perm (v.world.shared.db.historyOf 100) ∧
        ¬ IsStory (toStatusHistory (v.stamps ⟨fun _ => 0, fun _ => 0, fun _ => 0⟩) rows)
          o.status := by
  obtain ⟨v, hv, hsome, hrows⟩ := Timelines.exists_of_run cornerCafe (fun _ _ => true)
    (takeOrder.map (fun a => (0, a)) ++ (payCash 1 200).map (fun a => (1000, a)) ++
      (moveOrder .ready :: steps 2 1 (supply 300 "")).map (fun a => (2000, a)) ++
      (moveOrder .inPreparation :: steps 3 6 (supply 300 "")).map (fun a => (3000, a)) ++
      (steps 2 5 (supply 300 "")).map fun a => (4000, a))
    (fun v => (v.world.shared.db.orders.get 100).isSome ∧
      (v.world.shared.db.historyOf 100).map (fun row => (row.toStatus, v.createdAt row)) =
        [(.pendingPayment, 0), (.paid, 1000), (.inPreparation, 3000), (.ready, 2000)]) (by decide)
  obtain ⟨o, ho⟩ := Option.isSome_iff_exists.mp hsome
  refine ⟨v, hv.mono fun _ _ _ => trivial, o, ho, hrows, ?_⟩
  by_contra hall
  push Not at hall
  have horder := (hv.shown_iff ⟨fun _ => 0, fun _ => 0, fun _ => 0⟩ ho).mp hall
  have hstamps : ((v.world.shared.db.historyOf 100).map fun row =>
      (row.toStatus, v.createdAt row)).Pairwise fun a b => a.2 / 1000 < b.2 / 1000 :=
    List.pairwise_map.mpr horder
  rw [hrows] at hstamps
  exact absurd hstamps (by decide)

end CafePos
