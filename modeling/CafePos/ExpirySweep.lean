import CafePos.Convergence
import CafePos.Interleaving.Entries
import Mathlib

/-!
# The expiry sweep

Every minute `OrderExpiryService.expireOverdue` (`orders/expiry/order-expiry.service.ts`) reads up
to `MAX_PER_TICK` orders whose payment window has passed, and expires them one after the other. Any
number of instances do this, none of them coordinates with another, and between the read and the
update of an order anything may happen to it. `Sweeping` is the system with these ticks and a
clock.

* `Commits.heedsWindow` — what a commit may do to an order, as far as its window is concerned;
* `expired_when_overdue` — in every run an order becomes `EXPIRED` only after its window has passed;
* `expiries_reported_once` — in every run the numbers the ticks report add up to the number of
  expired orders, or to less while a call is under way or has died.
-/

namespace CafePos

open Interleaving

variable {cfg : Config}

/-! ## Ticks -/

/-- `MAX_PER_TICK` -/
def maxExpiriesPerTick : ℕ := 200

/-- The order waits for its payment, and its window has passed. -/
def Order.overdue (now : Instant) (o : Order) : Bool :=
  o.status == .pendingPayment && o.expiresAt.any fun e => decide (e < now)

/-- The orders that are overdue. -/
def Db.overdue (db : Db) (now : Instant) : List Id :=
  (db.orders.select fun _ o => o.overdue now).map Prod.fst

/-- `batch` is an answer of the query of `expireOverdue`: overdue orders, each once, as many as fit,
in any order. -/
def Db.AnswersOverdue (db : Db) (now : Instant) (batch : List Id) : Prop :=
  batch.Nodup ∧ (∀ id ∈ batch, id ∈ db.overdue now) ∧
    batch.length = min (db.overdue now).length maxExpiriesPerTick

instance (db : Db) (now : Instant) (batch : List Id) : Decidable (db.AnswersOverdue now batch) :=
  inferInstanceAs (Decidable (_ ∧ _ ∧ _))

/-- One run of `expireOverdue`. -/
structure Tick where
  /-- the rows its loop has not come to -/
  pending : List Id
  /-- the calls of `expireOne` it has made -/
  calls : List ℕ

/-- The system, a clock, and every tick there has been, on whatever instance. -/
structure Sweeping where
  world : PosWorld
  clock : Instant
  ticks : List Tick

/-- What happens next. -/
inductive SweepAct where
  /-- a tick begins, and reads these rows -/
  | tick (batch : List Id)
  /-- the loop of tick `k` goes on to its next row -/
  | next (k : ℕ)
  /-- anything else -/
  | other (a : PosAct)

/-- Call `i` has returned. -/
def PosWorld.returned (w : PosWorld) (i : ℕ) : Bool := (w.threads[i]?).any Thread.returned

/-- The call is one of `expireOne`. -/
def Call.isExpireOne : Call → Bool
  | .expireOne _ => true
  | _ => false

/-- The action starts a call of `expireOne`, which only a tick does. -/
def startsExpireOne : PosAct → Bool
  | .start c => c.isExpireOne
  | _ => false

namespace Sweeping

/-- Before the first call. -/
def start : Sweeping := ⟨opening, 0, []⟩

/-- One action, at an instant. -/
def act (cfg : Config) (v : Sweeping) (now : Instant) (e : SweepAct) : Option Sweeping :=
  if v.clock ≤ now then
    match e with
    | .tick batch =>
      if v.world.shared.db.AnswersOverdue now batch then
        some ⟨v.world, now, v.ticks ++ [⟨batch, []⟩]⟩
      else none
    | .next k =>
      match v.ticks[k]? with
      | some ⟨id :: pending, calls⟩ =>
        if calls.all v.world.returned then
          (v.world.act (system cfg) (.start (.expireOne id))).map fun w =>
            ⟨w, now, v.ticks.set k ⟨pending, calls ++ [v.world.threads.length]⟩⟩
        else none
      | _ => none
    | .other a =>
      if startsExpireOne a then none
      else (v.world.act (system cfg) a).map fun w => ⟨w, now, v.ticks⟩
  else none

/-- What an action does, case by case. -/
inductive Step (cfg : Config) (v : Sweeping) (now : Instant) : Sweeping → Prop
  | tick {batch : List Id} : v.world.shared.db.AnswersOverdue now batch →
      Step cfg v now ⟨v.world, now, v.ticks ++ [⟨batch, []⟩]⟩
  | next {k : ℕ} {id : Id} {pending : List Id} {calls : List ℕ} {w : PosWorld} :
      v.ticks[k]? = some ⟨id :: pending, calls⟩ →
      v.world.act (system cfg) (.start (.expireOne id)) = some w →
      Step cfg v now ⟨w, now, v.ticks.set k ⟨pending, calls ++ [v.world.threads.length]⟩⟩
  | other {a : PosAct} {w : PosWorld} : startsExpireOne a = false →
      v.world.act (system cfg) a = some w → Step cfg v now ⟨w, now, v.ticks⟩

theorem step_of_act {v v' : Sweeping} {now : Instant} {e : SweepAct}
    (h : v.act cfg now e = some v') : v.clock ≤ now ∧ v.Step cfg now v' := by
  simp only [act] at h
  split at h
  · rename_i hclock
    refine ⟨hclock, ?_⟩
    cases e with
    | tick batch =>
      dsimp only at h
      split at h
      · rename_i hbatch
        obtain rfl := Option.some.inj h
        exact .tick hbatch
      · cases h
    | next k =>
      dsimp only at h
      split at h
      · rename_i id pending calls hk
        split at h
        · obtain ⟨w, hw, rfl⟩ := Option.map_eq_some_iff.mp h
          exact .next hk hw
        · cases h
      · cases h
    | other a =>
      dsimp only at h
      split at h
      · cases h
      · rename_i ha
        obtain ⟨w, hw, rfl⟩ := Option.map_eq_some_iff.mp h
        exact .other (Bool.eq_false_iff.mpr ha) hw
  · cases h

end Sweeping

/-- What the actions lead to. -/
inductive Sweepings (cfg : Config) : Sweeping → Prop
  | start : Sweepings cfg .start
  | act {v v' : Sweeping} {now : Instant} {e : SweepAct} : Sweepings cfg v →
      v.act cfg now e = some v' → Sweepings cfg v'

theorem Sweepings.reachable {v : Sweeping} (h : Sweepings cfg v) : Reachable cfg v.world := by
  induction h with
  | start => exact .refl
  | act _ hact ih =>
    cases (Sweeping.step_of_act hact).2 with
    | tick => exact ih
    | next _ hw | other _ hw => exact ih.tail (Runs.allows_all _ _) hw

/-! ## Windows -/

/-- What a call may write of an order: an order that was queued is not queued again, and one that
becomes `EXPIRED` was waiting for its payment, and the call is one of `expireOne`. -/
def Write.heedsWindow (c : Call) (db : Db) : Write → Prop
  | .order id o' => o'.status ≠ .expired ∧ db.orders.get id = none ∨
      ∃ o, db.orders.get id = some o ∧ (o.status ≠ .draft → o'.status ≠ .pendingPayment) ∧
        (o'.status = .expired → o.status = .pendingPayment ∧ c = .expireOne id)
  | _ => True

/-- The move of an order to a status that is neither `PENDING_PAYMENT` nor `EXPIRED`. -/
theorem heedsWindow_moveWrites {c : Call} {db : Db} {r : TransitionRequest} {row : Order}
    (hrow : db.orders.get r.orderId = some row) (hpending : r.target ≠ .pendingPayment)
    (hexpired : r.target ≠ .expired) : ∀ w ∈ moveWrites r row, w.heedsWindow c db :=
  forall_moveWrites (φ := Write.heedsWindow c db)
    (Or.inr ⟨row, hrow, fun _ => hpending, fun h => absurd h hexpired⟩) trivial

/-- Every write of every log heeds the window. -/
theorem Commits.heedsWindow {P : PosPermit} {c : Call} {s : Shared} {ws : List Write}
    (h : Commits cfg P c s ws) : ∀ w ∈ ws, w.heedsWindow c s.db := by
  have hstamp : ∀ {id : Id} {e : PaymentEvent} {paymentId : Option Id} {now : Instant},
      ∀ w ∈ stampWrites id e paymentId now, w.heedsWindow c s.db :=
    forall_stampWrites fun _ => trivial
  cases h with
  | create hkey hpriced hn hrow hfree =>
    refine forall_underKey (φ := Write.heedsWindow _ s.db) (fun _ _ => trivial) ?_ _ _ _
    refine forall_createWrites trivial (Or.inl ⟨?_, hfree⟩) (fun _ => trivial) trivial
    subst hrow
    simp only [orderRow]
    split <;> simp
  | checkout hrow hdraft hn =>
    have hqueued : ∀ (c : Call) (o' : Order), o'.status = .pendingPayment →
        (Write.order _ o').heedsWindow c s.db := fun c o' ho' =>
      Or.inr ⟨_, hrow, fun h => absurd hdraft h, fun h => by rw [ho'] at h; cases h⟩
    refine List.forall_mem_append.mpr ⟨?_, ?_⟩
    · exact forall_moveWrites (φ := Write.heedsWindow _ s.db) (hqueued _ _ rfl) trivial
    · exact List.forall_mem_cons.mpr ⟨trivial, List.forall_mem_singleton.mpr (hqueued _ _ rfl)⟩
  | cash hm ht hle hkey hrow =>
    refine forall_underKey (φ := Write.heedsWindow _ s.db) (fun _ _ => trivial) ?_ _ _ _
    exact List.forall_mem_cons.mpr ⟨trivial, heedsWindow_moveWrites hrow (by simp) (by simp)⟩
  | openPayment =>
    refine forall_underKey (φ := Write.heedsWindow _ s.db) (fun _ _ => trivial) ?_ _ _ _
    exact List.forall_mem_singleton.mpr trivial
  | record => exact List.forall_mem_singleton.mpr trivial
  | skip => exact hstamp
  | markPayment =>
    refine List.forall_mem_append.mpr ⟨?_, hstamp⟩
    exact forall_settleWrites (φ := Write.heedsWindow _ s.db) trivial
  | markPaid he hp hcap hrow hpending =>
    refine List.forall_mem_append.mpr ⟨heedsWindow_moveWrites hrow (by simp) (by simp),
      List.forall_mem_append.mpr ⟨?_, hstamp⟩⟩
    exact forall_settleWrites (φ := Write.heedsWindow _ s.db) trivial
  | close hcloses hrow hsrc hlive =>
    refine List.forall_mem_append.mpr ⟨?_, ?_⟩
    · cases hcloses with
      | cancel => exact heedsWindow_moveWrites hrow (by simp) (by simp)
      | expire =>
        refine forall_moveWrites (φ := Write.heedsWindow _ s.db) (Or.inr ⟨_, hrow, ?_, ?_⟩) trivial
        · exact fun _ h => by cases h
        · exact fun _ => ⟨hsrc, rfl⟩
    · exact forall_liveWrites (φ := Write.heedsWindow _ s.db) fun _ _ => trivial
  | staff hrow hstaff =>
    rcases target_of_isStaffTransition hstaff with rfl | rfl | rfl <;>
      exact heedsWindow_moveWrites hrow (by simp) (by simp)
  | refundPart => exact List.forall_mem_singleton.mpr trivial
  | refundAll hp hsucc hpos hall hrow =>
    exact List.forall_mem_cons.mpr ⟨trivial, heedsWindow_moveWrites hrow (by simp) (by simp)⟩

/-- A tick has found the order: it was queued, and if it still waits, its window has passed. -/
def Db.Found (db : Db) (now : Instant) (id : Id) : Prop :=
  ∃ o, db.orders.get id = some o ∧ o.status ≠ .draft ∧
    (o.status = .pendingPayment → ∃ e, o.expiresAt = some e ∧ e < now)

theorem Db.Found.of_mem_overdue {db : Db} {now : Instant} {id : Id} (h : id ∈ db.overdue now) :
    db.Found now id := by
  obtain ⟨⟨id', o⟩, hmem, rfl⟩ := List.mem_map.mp h
  obtain ⟨ho, hover⟩ := Table.mem_select.mp hmem
  simp only [Order.overdue, Bool.and_eq_true, beq_iff_eq, Option.any_eq_true,
    decide_eq_true_eq] at hover
  obtain ⟨hpending, e, he, hlt⟩ := hover
  exact ⟨o, ho, by simp [hpending], fun _ => ⟨e, he, hlt⟩⟩

/-- Nothing leads back to a draft. -/
theorem OrderStatus.Leads.draft {a : OrderStatus} : a.Leads .draft → a = .draft := by
  cases a <;> decide

theorem Db.Found.later {db : Db} {now now' : Instant} {id : Id} (h : db.Found now id)
    (hle : now ≤ now') : db.Found now' id := by
  obtain ⟨o, ho, hqueued, hwindow⟩ := h
  refine ⟨o, ho, hqueued, fun hpending => ?_⟩
  obtain ⟨e, he, hlt⟩ := hwindow hpending
  exact ⟨e, he, lt_of_lt_of_le hlt hle⟩

/-- What was found stays found. -/
theorem Db.Found.commit {P : PosPermit} {c : Call} {s : Shared} {ws : List Write} {now : Instant}
    {id : Id} (h : s.db.Found now id) (hs : Settled s.db) (hc : Commits cfg P c s ws) :
    (store.applyAll ws s.db).Found now id := by
  obtain ⟨o, ho, hqueued, hwindow⟩ := h
  obtain ⟨o', ho', hevolves⟩ := (hc.commit_grows hs).order ho
  rcases get_order_applyAll ho' with hold | hnew
  · rw [ho] at hold
    obtain rfl := Option.some.inj hold
    exact ⟨o, ho', hqueued, hwindow⟩
  · have hheeds := hc.heedsWindow _ hnew
    rcases hheeds with ⟨-, hnone⟩ | ⟨o₀, ho₀, hpending, -⟩
    · rw [ho] at hnone
      cases hnone
    · obtain rfl := Option.some.inj (ho.symm.trans ho₀)
      refine ⟨o', ho', fun hdraft => ?_, fun h => absurd h (hpending hqueued)⟩
      exact hqueued (OrderStatus.Leads.draft (hdraft ▸ hevolves.status))

/-- What the ticks have read, they have found. -/
structure Sweeping.Swept (v : Sweeping) : Prop where
  /-- what a loop has not come to -/
  pending : ∀ tick ∈ v.ticks, ∀ id ∈ tick.pending, v.world.shared.db.Found v.clock id
  /-- what a call was made for -/
  called : ∀ t ∈ v.world.threads, ∀ id, t.call = .expireOne id →
    v.world.shared.db.Found v.clock id

/-- The state moves on, and the calls are those there were, or one more. -/
theorem Sweeping.Swept.world {v : Sweeping} (h : v.Swept) (hv : Reachable cfg v.world)
    {now : Instant} (hclock : v.clock ≤ now) {a : PosAct} {w : PosWorld}
    (hw : v.world.act (system cfg) a = some w) :
    (∀ id, v.world.shared.db.Found v.clock id → w.shared.db.Found now id) ∧
      ∀ t ∈ w.threads, ∀ id, t.call = .expireOne id →
        w.shared.db.Found now id ∨ a = .start (.expireOne id) := by
  have hkept : ∀ id, v.world.shared.db.Found v.clock id → w.shared.db.Found now id := by
    intro id hid
    apply Db.Found.later _ hclock
    cases World.transition_of_act hw with
    | start | crash => exact hid
    | world hs => exact (happen_db hs).symm ▸ hid
    | step hu hp hx =>
      obtain ⟨hmove, -⟩ := hv.sound.step hu hp trivial hx
      exact hmove.preserves (J := fun s => s.db.Found v.clock id) hid (fun _ _ => hid)
        fun _ hc _ _ => hid.commit hv.sound.inv.1 hc
  refine ⟨hkept, fun t ht id hcall => ?_⟩
  have hset : ∀ {i : ℕ} {u u' : PosThread}, t ∈ v.world.threads.set i u' →
      v.world.threads[i]? = some u → u'.call = u.call → w.shared.db.Found now id := by
    intro i u u' hmem hu hsame
    rcases List.mem_or_eq_of_mem_set hmem with hold | rfl
    · exact hkept id (h.called t hold id hcall)
    · exact hkept id (h.called u (List.mem_of_getElem? hu) id (hsame ▸ hcall))
  cases World.transition_of_act hw with
  | start c =>
    rcases List.mem_append.mp ht with hold | hnew
    · exact Or.inl (hkept id (h.called t hold id hcall))
    · rw [List.mem_singleton.mp hnew] at hcall
      exact Or.inr (congrArg Act.start hcall)
  | world => exact Or.inl (hkept id (h.called t ht id hcall))
  | step hu | crash hu => exact Or.inl (hset ht hu rfl)

theorem Sweeping.Swept.step {v v' : Sweeping} (h : v.Swept) (hv : Reachable cfg v.world)
    {now : Instant} (hclock : v.clock ≤ now) (hstep : v.Step cfg now v') : v'.Swept := by
  cases hstep with
  | tick hbatch =>
    refine ⟨fun tick ht id hid => ?_, fun t ht id hcall => (h.called t ht id hcall).later hclock⟩
    rcases List.mem_append.mp ht with hold | hnew
    · exact (h.pending tick hold id hid).later hclock
    · rw [List.mem_singleton.mp hnew] at hid
      exact .of_mem_overdue (hbatch.2.1 id hid)
  | @next k id pending calls w hk hw =>
    obtain ⟨hkept, hcalled⟩ := h.world hv hclock hw
    have hmine := List.mem_of_getElem? hk
    refine ⟨fun tick ht id' hid' => hkept id' ?_, fun t ht id' hcall => ?_⟩
    · rcases List.mem_or_eq_of_mem_set ht with hold | rfl
      · exact h.pending tick hold id' hid'
      · exact h.pending _ hmine id' (List.mem_cons_of_mem _ hid')
    · rcases hcalled t ht id' hcall with hfound | hstart
      · exact hfound
      · obtain rfl := Call.expireOne.inj (Act.start.inj hstart)
        exact hkept id (h.pending _ hmine id List.mem_cons_self)
  | other ha hw =>
    obtain ⟨hkept, hcalled⟩ := h.world hv hclock hw
    refine ⟨fun tick ht id hid => hkept id (h.pending tick ht id hid), fun t ht id hcall => ?_⟩
    rcases hcalled t ht id hcall with hfound | rfl
    · exact hfound
    · cases ha

theorem Sweepings.swept {v : Sweeping} (h : Sweepings cfg v) : v.Swept := by
  induction h with
  | start => exact ⟨fun _ ht => absurd ht List.not_mem_nil, fun _ ht => absurd ht List.not_mem_nil⟩
  | act hv hact ih =>
    obtain ⟨hclock, hstep⟩ := Sweeping.step_of_act hact
    exact ih.step hv.reachable hclock hstep

/-- What a commit of a call leaves `EXPIRED` was so, or was waiting and the call is one of
`expireOne`. -/
theorem Commits.expired {P : PosPermit} {c : Call} {s : Shared} {ws : List Write}
    (hc : Commits cfg P c s ws) {id : Id} {o' : Order}
    (ho' : (store.applyAll ws s.db).orders.get id = some o') (hexpired : o'.status = .expired) :
    ∃ o, s.db.orders.get id = some o ∧
      (o.status = .expired ∨ o.status = .pendingPayment ∧ c = .expireOne id) := by
  rcases get_order_applyAll ho' with hold | hnew
  · exact ⟨o', hold, Or.inl hexpired⟩
  · rcases hc.heedsWindow _ hnew with ⟨hne, -⟩ | ⟨o, ho, -, hexpires⟩
    · exact absurd hexpired hne
    · exact ⟨o, ho, Or.inr (hexpires hexpired)⟩

/-- What one action leaves `EXPIRED` was so, or was waiting and a call of `expireOne` was made for
it. -/
theorem Reachable.expired_by {w w' : PosWorld} (h : Reachable cfg w) {a : PosAct}
    (hact : w.act (system cfg) a = some w') {id : Id} {o' : Order}
    (ho' : w'.shared.db.orders.get id = some o') (hexpired : o'.status = .expired) :
    ∃ o, w.shared.db.orders.get id = some o ∧ (o.status = .expired ∨
      o.status = .pendingPayment ∧ ∃ t ∈ w.threads, t.call = .expireOne id) := by
  cases World.transition_of_act hact with
  | start | crash => exact ⟨o', ho', Or.inl hexpired⟩
  | world hs => exact ⟨o', happen_db hs ▸ ho', Or.inl hexpired⟩
  | @step i inp t o k r l' s' hu hp hx =>
    obtain ⟨hmove, -⟩ := h.sound.step hu hp trivial hx
    have hcommit : ∀ ws, Commits cfg .all t.call w.shared ws →
        (store.applyAll ws w.shared.db).orders.get id = some o' → ∃ o,
        w.shared.db.orders.get id = some o ∧ (o.status = .expired ∨
          o.status = .pendingPayment ∧ ∃ t ∈ w.threads, t.call = .expireOne id) := by
      intro ws hc ho'
      obtain ⟨o, ho, hcases⟩ := hc.expired ho' hexpired
      exact ⟨o, ho, hcases.imp_right fun hwaits =>
        ⟨hwaits.1, t, List.mem_of_getElem? hu, hwaits.2⟩⟩
    cases hmove with
    | quiet | publish | gateway => exact ⟨o', ho', Or.inl hexpired⟩
    | commit hc | inbox hc => exact hcommit _ hc ho'

/-- **An order expires only after its window.** However many ticks there are, whatever they read and
whenever their calls come to run, between any other calls: an order that an action leaves `EXPIRED`
was so before, or it was still waiting for its payment and its window had passed. -/
theorem expired_when_overdue {v v' : Sweeping} {now : Instant} {e : SweepAct} (h : Sweepings cfg v)
    (hact : v.act cfg now e = some v') {id : Id} {o' : Order}
    (ho' : v'.world.shared.db.orders.get id = some o') (hexpired : o'.status = .expired) :
    ∃ o, v.world.shared.db.orders.get id = some o ∧ (o.status = .expired ∨ o.overdue now) := by
  obtain ⟨hclock, hstep⟩ := Sweeping.step_of_act hact
  have hworld : ∀ {a : PosAct} {w : PosWorld}, v.world.act (system cfg) a = some w →
      w.shared.db.orders.get id = some o' →
      ∃ o, v.world.shared.db.orders.get id = some o ∧ (o.status = .expired ∨ o.overdue now) := by
    intro a w hw ho'
    obtain ⟨o, ho, hold | ⟨hpending, t, ht, hcall⟩⟩ := h.reachable.expired_by hw ho' hexpired
    · exact ⟨o, ho, Or.inl hold⟩
    · obtain ⟨o₁, ho₁, -, hwindow⟩ := h.swept.called t ht id hcall
      obtain rfl := Option.some.inj (ho.symm.trans ho₁)
      obtain ⟨e, he, hlt⟩ := hwindow hpending
      have hpassed : e < now := lt_of_lt_of_le hlt hclock
      exact ⟨o, ho, Or.inr (by simp [Order.overdue, hpending, he, hpassed])⟩
  cases hstep with
  | tick => exact ⟨o', ho', Or.inl hexpired⟩
  | next _ hw | other _ hw => exact hworld hw ho'

/-! ## Reports -/

/-- The history row records an expiry. -/
def HistoryRow.isExpiry (row : HistoryRow) : Bool := row.toStatus == .expired

/-- The write records an expiry. -/
def Write.isExpiry : Write → Bool
  | .history row => row.isExpiry
  | _ => false

/-- The orders that have expired. -/
def Db.expired (db : Db) : List (Id × Order) := db.orders.select fun _ o => o.status == .expired

/-- The recorded expiries. -/
def Db.expiries (db : Db) : ℕ := db.orderStatusHistory.countP HistoryRow.isExpiry

/-- The call has answered that it expired its order. -/
def saysExpired (t : PosThread) : Bool :=
  match t.prog with
  | some (.done (.ok (.flag b))) => t.call.isExpireOne && b
  | _ => false

/-- What `expireOverdue` counts: the calls that answered `true`. -/
def Tick.expired (w : PosWorld) (tick : Tick) : ℕ :=
  tick.calls.countP fun i => (w.threads[i]?).any saysExpired

theorem expiries_applyAll (ws : List Write) (db : Db) :
    (store.applyAll ws db).expiries = db.expiries + ws.countP Write.isExpiry := by
  induction ws generalizing db with
  | nil => rfl
  | cons w ws ih =>
    have hw : (w.apply db).expiries = db.expiries + if w.isExpiry then 1 else 0 := by
      cases w with
      | history row =>
        simp only [Db.expiries, Write.apply, List.countP_append, List.countP_singleton]
        rfl
      | _ => rfl
    rw [Store.applyAll_cons, ih, store_apply, hw, List.countP_cons]
    omega

/-- Every expired order has been recorded once. -/
def ExpiredOnce (db : Db) : Prop := db.expired.length = db.expiries

theorem ExpiredOnce.step {db db' : Db} (h : ExpiredOnce db) (hstep : OrderStep db db') :
    ExpiredOnce db' := by
  rw [ExpiredOnce, Db.expired, Db.expiries]
  have hput := Table.length_select_put db.orders fun _ o => o.status == .expired
  cases hstep with
  | stays horders hhistory =>
    rw [horders, hhistory]
    exact h
  | @opens id row principal hfree hstatus horders hhistory =>
    have hne : row.status ≠ .expired := by
      rcases hstatus with hs | hs <;> simp [hs]
    have hrow := hput id row
    simp only [hfree, Option.any_none, beq_iff_eq, hne, if_false, Bool.false_eq_true] at hrow
    rw [horders, hhistory, List.countP_append, List.countP_singleton]
    simp only [HistoryRow.isExpiry, createdRow, beq_iff_eq, hne, if_false]
    exact hrow.trans h
  | @moves r row row' hrow hsrc htgt hlegal horders hhistory =>
    -- nothing leaves `EXPIRED`
    have hne : r.source ≠ .expired := by
      intro hs
      rw [hs] at hlegal
      exact absurd hlegal (by cases r.target <;> decide)
    have hmoved := hput r.orderId row'
    simp only [hrow, hsrc, htgt, Option.any_some, beq_iff_eq, hne, if_false] at hmoved
    rw [horders, hhistory, List.countP_append, List.countP_singleton]
    simp only [HistoryRow.isExpiry, TransitionRequest.history, beq_iff_eq]
    rw [Nat.add_zero] at hmoved
    rw [hmoved]
    exact congrArg (· + _) h

theorem Reachable.expiredOnce {w : PosWorld} (h : Reachable cfg w) : ExpiredOnce w.shared.db := by
  have hboth : Refunds w.shared.db ∧ ExpiredOnce w.shared.db :=
    h.db_invariant (J := fun db => Refunds db ∧ ExpiredOnce db) ⟨.empty, rfl⟩
      fun _ _ _ hs hJ hc => ⟨hc.refunds hs hJ.1, hJ.2.step (hc.orderStep hs hJ.1)⟩
  exact hboth.2

/-- A log records an expiry if and only if the call is one of `expireOne`. -/
theorem Commits.countP_isExpiry {P : PosPermit} {c : Call} {s : Shared} {ws : List Write}
    (h : Commits cfg P c s ws) :
    ws.countP Write.isExpiry = if c.isExpireOne then 1 else 0 := by
  have hnone : ∀ {ws : List Write}, (∀ w ∈ ws, w.isExpiry = false) →
      ws.countP Write.isExpiry = 0 := fun hws =>
    List.countP_eq_zero.mpr fun w hw => by simp [hws w hw]
  have hmove : ∀ {r : TransitionRequest} {row : Order}, r.target ≠ .expired →
      ∀ w ∈ moveWrites r row, w.isExpiry = false := fun htarget =>
    forall_moveWrites rfl (beq_eq_false_iff_ne.mpr htarget)
  have hstamp : ∀ {id : Id} {e : PaymentEvent} {paymentId : Option Id} {now : Instant},
      ∀ w ∈ stampWrites id e paymentId now, w.isExpiry = false := forall_stampWrites fun _ => rfl
  have hlives : ∀ {live : Option (Id × Payment)} {guarded : Bool},
      ∀ w ∈ liveWrites live guarded, w.isExpiry = false := forall_liveWrites fun _ _ => rfl
  cases h with
  | create hkey hpriced hn hrow hfree =>
    refine hnone (forall_underKey (φ := fun w => w.isExpiry = false) (fun _ _ => rfl)
      (forall_createWrites rfl rfl (fun _ => rfl) ?_) _ _ _)
    subst hrow
    simp only [orderRow]
    split <;> rfl
  | checkout =>
    exact hnone (List.forall_mem_append.mpr ⟨hmove (by simp), by simp [Write.isExpiry]⟩)
  | cash =>
    exact hnone (forall_underKey (φ := fun w => w.isExpiry = false) (fun _ _ => rfl)
      (List.forall_mem_cons.mpr ⟨rfl, hmove (by simp)⟩) _ _ _)
  | openPayment =>
    exact hnone (forall_underKey (φ := fun w => w.isExpiry = false) (fun _ _ => rfl)
      (List.forall_mem_singleton.mpr rfl) _ _ _)
  | record => rfl
  | skip => exact hnone hstamp
  | markPayment =>
    exact hnone (List.forall_mem_append.mpr ⟨forall_settleWrites rfl, hstamp⟩)
  | markPaid =>
    exact hnone (List.forall_mem_append.mpr ⟨hmove (by simp),
      List.forall_mem_append.mpr ⟨forall_settleWrites rfl, hstamp⟩⟩)
  | close hcloses =>
    cases hcloses with
    | cancel => exact hnone (List.forall_mem_append.mpr ⟨hmove (by simp), hlives⟩)
    | expire =>
      rw [List.countP_append, hnone hlives]
      rfl
  | staff _ hstaff =>
    refine hnone (hmove ?_)
    rcases target_of_isStaffTransition hstaff with rfl | rfl | rfl <;> simp
  | refundPart => rfl
  | refundAll => exact hnone (List.forall_mem_cons.mpr ⟨rfl, hmove (by simp)⟩)

/-- `expireOne` answers whether it has committed. -/
theorem expireOne_reports {Γ : Context cfg} {orderId : Id} {s : Shared} :
    Ensures Γ (.expireOne orderId) (expireOne orderId)
      (fun b l _ => if b then ∃ ws, l.committed = [ws] else l.committed = [])
      (fun _ _ _ => False) idle s := by
  refine .tryCatch (.bind (.select fun s₁ hs₁ _ => .bind (.cancelOverdueIntent ?_
    (fun _ _ => .pure (by rfl)))))
  intro s₂ outcome hs₂ hintent
  cases outcome with
  | alreadySucceeded => exact .pure (by rfl)
  | cancelled =>
    have hlive : LiveCancelled orderId _ s₂ := liveCancelled_of_intent rfl hs₂ (hintent rfl)
    refine .bind (.closeOrder .expire hlive ?_ (fun _ _ => .pure (by rfl)))
    intro s₃ row ws hws
    exact .pure ⟨ws, rfl⟩

/-- A call of `expireOne` that has answered has committed once if it says so, and never if not. -/
def Reports (c : Call) (a : Answer) (l : Sess) : Prop :=
  c.isExpireOne → ∃ b, a = .ok (.flag b) ∧ if b then ∃ ws, l.committed = [ws] else l.committed = []

theorem Reachable.reports {w : PosWorld} (h : Reachable cfg w) {t : PosThread} {a : Answer}
    (ht : t ∈ w.threads) (ha : t.Answered a) : Reports t.call a t.session := by
  have hstarts : Starts (Context.plain cfg).spec (system cfg) opening.shared 0
      fun _ c a l _ => Reports c a l := by
    intro i c s hn hp hinv hs
    cases c with
    | expireOne orderId =>
      have hmap : Ensures (.plain cfg) (.expireOne orderId) (Reply.flag <$> expireOne orderId)
          (fun r l _ => Reports (.expireOne orderId) (.ok r) l) (fun _ _ _ => False) idle s :=
        .map (expireOne_reports.mono (fun b _ _ _ hb _ => ⟨b, rfl, hb⟩) fun _ _ _ _ hf => hf)
      refine Spec.wp_mono (fun r l' s' _ hr => ?_) hmap
      cases r with
      | ok r => exact hr
      | error e => exact absurd hr id
    | _ =>
      refine Spec.wp_mono (fun _ _ _ _ _ => ?_)
        (Context.starts (.plain cfg) opening.shared 0 i _ s hn hp hinv hs)
      exact fun h => by cases h
  obtain ⟨i, hi⟩ := List.mem_iff_getElem?.mp ht
  have hsound := Sound.runs hstarts (Context.happens (.plain cfg)) (.initial ⟨.empty, trivial⟩) h
  obtain ⟨-, -, -, hreports⟩ := hsound.answered hi ha
  exact hreports

/-- What a call says to have expired is at most what it has committed, and all of it once it has
returned. -/
theorem Reachable.says_committed {w : PosWorld} (h : Reachable cfg w) {t : PosThread}
    (ht : t ∈ w.threads) :
    (if saysExpired t then 1 else 0) ≤ t.session.committed.flatten.countP Write.isExpiry ∧
      ((t.call.isExpireOne → t.returned) →
        t.session.committed.flatten.countP Write.isExpiry ≤ if saysExpired t then 1 else 0) := by
  have hfacts : ∀ ws ∈ t.session.committed,
      ws.countP Write.isExpiry = if t.call.isExpireOne then 1 else 0 :=
    h.committed_facts (F := fun c ws _ => ws.countP Write.isExpiry = if c.isExpireOne then 1 else 0)
      (fun _ _ _ _ _ hF => hF) (fun _ _ _ _ hc => hc.countP_isExpiry) t ht
  have hanswered : ∀ {b : Bool}, t.Answered (.ok (.flag b)) → t.call.isExpireOne →
      t.session.committed.flatten.countP Write.isExpiry = if b then 1 else 0 := by
    intro b ha hcall
    obtain ⟨b', heq, hcommitted⟩ := h.reports ht ha hcall
    obtain rfl : b = b' := by simpa using heq
    cases b with
    | false => rw [if_neg Bool.false_ne_true] at hcommitted; rw [hcommitted]; rfl
    | true =>
      obtain ⟨ws, hws⟩ := hcommitted
      rw [hws, List.flatten_singleton, hfacts ws (by rw [hws]; exact List.mem_singleton_self _),
        hcall]
  constructor
  · split
    · rename_i hsays
      rw [saysExpired] at hsays
      split at hsays
      · rename_i b hb
        simp only [Bool.and_eq_true] at hsays
        rw [hanswered hb hsays.1, hsays.2]
        rfl
      · cases hsays
    · exact Nat.zero_le _
  · intro hreturned
    cases hcall : t.call.isExpireOne with
    | false =>
      have hzero : t.session.committed.flatten.countP Write.isExpiry = 0 := by
        rw [List.countP_flatten, List.sum_eq_zero_iff]
        intro n hn
        obtain ⟨ws, hws, rfl⟩ := List.mem_map.mp hn
        rw [hfacts ws hws, hcall]
        rfl
      rw [hzero]
      exact Nat.zero_le _
    | true =>
      obtain ⟨a, ha⟩ := Thread.returned_iff.mp (hreturned hcall)
      obtain ⟨b, rfl, -⟩ := h.reports ht ha hcall
      have hsays : saysExpired t = b := by
        rw [saysExpired, ha, hcall]
        rfl
      rw [hanswered ha hcall, hsays]

/-! ## The calls of the ticks -/

/-- The calls of `expireOne`. -/
def expiryCalls (w : PosWorld) : List ℕ :=
  (List.range w.threads.length).filter fun i => (w.threads[i]?).any fun t => t.call.isExpireOne

/-- Counting the indices of a list counts its entries. -/
theorem countP_range_getElem? {α : Type} (p : α → Bool) (l : List α) :
    (List.range l.length).countP (fun i => (l[i]?).any p) = l.countP p := by
  induction l with
  | nil => rfl
  | cons x l ih =>
    rw [List.length_cons, List.range_succ_eq_map, List.countP_cons, List.countP_cons,
      List.countP_map, ← ih]
    rfl

/-- Counting is adding up. -/
theorem countP_eq_sum {α : Type} (p : α → Bool) (l : List α) :
    l.countP p = (l.map fun x => if p x then 1 else 0).sum := by
  induction l with
  | nil => rfl
  | cons x l ih => rw [List.countP_cons, ih, List.map_cons, List.sum_cons, Nat.add_comm]

/-- What the calls of `expireOne` say is what all calls say. -/
theorem countP_expiryCalls (w : PosWorld) :
    (expiryCalls w).countP (fun i => (w.threads[i]?).any saysExpired) =
      w.threads.countP saysExpired := by
  rw [← countP_range_getElem? saysExpired w.threads, expiryCalls, List.countP_filter]
  refine List.countP_congr fun i _ => ?_
  cases w.threads[i]? with
  | none => rfl
  | some t =>
    have hsays : saysExpired t → t.call.isExpireOne := by
      rw [saysExpired]
      split
      · exact fun h => (Bool.and_eq_true _ _ ▸ h).1
      · exact fun h => by cases h
    simpa using hsays

/-- One more call in one of the ticks. -/
theorem perm_flatMap_set {ticks : List Tick} {k : ℕ} {tick tick' : Tick} {i : ℕ}
    (hk : ticks[k]? = some tick) (hcalls : tick'.calls = tick.calls ++ [i]) :
    ((ticks.set k tick').flatMap Tick.calls).Perm (ticks.flatMap Tick.calls ++ [i]) := by
  induction ticks generalizing k with
  | nil => cases hk
  | cons t ticks ih =>
    cases k with
    | zero =>
      obtain rfl := Option.some.inj hk
      rw [List.set_cons_zero, List.flatMap_cons, List.flatMap_cons, hcalls, List.append_assoc,
        List.append_assoc]
      exact List.perm_append_comm.append_left _
    | succ k =>
      rw [List.set_cons_succ, List.flatMap_cons, List.flatMap_cons, List.append_assoc]
      exact (ih hk).append_left _

/-- An action that makes no call keeps the calls of `expireOne`, a start adds one if it is one. -/
theorem expiryCalls_act {w w' : PosWorld} {a : PosAct} (hact : w.act (system cfg) a = some w') :
    expiryCalls w' = expiryCalls w ++ if startsExpireOne a then [w.threads.length] else [] := by
  have hset : ∀ {i : ℕ} {u u' : PosThread} (s' : Shared), w.threads[i]? = some u →
      u'.call = u.call → expiryCalls ⟨s', w.threads.set i u'⟩ = expiryCalls w ++ [] := by
    intro i u u' s' hu hcall
    rw [List.append_nil, expiryCalls, List.length_set]
    refine List.filter_congr fun j _ => ?_
    by_cases hij : i = j
    · subst hij
      rw [List.getElem?_set_self (List.getElem?_eq_some_iff.mp hu).1, hu, Option.any_some,
        Option.any_some, hcall]
    · rw [List.getElem?_set_ne hij]
  cases World.transition_of_act hact with
  | start c =>
    rw [expiryCalls, List.length_append, List.length_singleton, List.range_succ,
      List.filter_append]
    congr 1
    · refine List.filter_congr fun j hj => ?_
      rw [List.getElem?_append_left (List.mem_range.mp hj)]
    · rw [List.filter_singleton, List.getElem?_concat_length, Option.any_some, Bool.cond_eq_ite]
      rfl
  | world => exact (List.append_nil _).symm
  | step hu | crash hu => exact hset _ hu rfl

/-- The calls of `expireOne` are those the ticks have made, each made once. -/
theorem Sweepings.calls_perm {v : Sweeping} (h : Sweepings cfg v) :
    (v.ticks.flatMap Tick.calls).Perm (expiryCalls v.world) := by
  induction h with
  | start => exact .nil
  | act hv hact ih =>
    cases (Sweeping.step_of_act hact).2 with
    | tick => simpa using ih
    | next hk hw =>
      rw [expiryCalls_act hw]
      exact (perm_flatMap_set hk rfl).trans (ih.append_right _)
    | other ha hw =>
      rw [expiryCalls_act hw, ha]
      simpa using ih

/-- **Every expiry is reported once.** However many ticks overlap, and however often they find the
same order, what they report adds up to at most the number of expired orders, and to exactly that
number once their calls have returned. -/
theorem expiries_reported_once {v : Sweeping} (h : Sweepings cfg v) :
    (v.ticks.map (Tick.expired v.world)).sum ≤ v.world.shared.db.expired.length ∧
      ((∀ tick ∈ v.ticks, ∀ i ∈ tick.calls, v.world.returned i) →
        (v.ticks.map (Tick.expired v.world)).sum = v.world.shared.db.expired.length) := by
  have hsum : (v.ticks.map (Tick.expired v.world)).sum = v.world.threads.countP saysExpired := by
    rw [← countP_expiryCalls, ← h.calls_perm.countP_eq, List.countP_flatMap]
    rfl
  have hcommitted : committedCount v.world Write.isExpiry = v.world.shared.db.expired.length := by
    rw [h.reachable.committedCount_eq (m := Db.expiries) rfl
      (fun _ _ _ _ _ => expiries_applyAll _ _)]
    exact h.reachable.expiredOnce.symm
  rw [hsum, ← hcommitted, countP_eq_sum, committedCount]
  refine ⟨List.sum_le_sum fun t ht => (h.reachable.says_committed ht).1, fun hall => ?_⟩
  refine congrArg List.sum (List.map_congr_left fun t ht => ?_)
  obtain ⟨hle, hge⟩ := h.reachable.says_committed ht
  refine hle.antisymm (hge fun hcall => ?_)
  -- the call is one that a tick has made
  obtain ⟨i, hi⟩ := List.mem_iff_getElem?.mp ht
  have hmine : i ∈ expiryCalls v.world := by
    refine List.mem_filter.mpr ⟨List.mem_range.mpr (List.getElem?_eq_some_iff.mp hi).1, ?_⟩
    rw [hi]
    exact hcall
  obtain ⟨tick, htick, hi'⟩ := List.mem_flatMap.mp (h.calls_perm.mem_iff.mpr hmine)
  have hreturned := hall tick htick i hi'
  rw [PosWorld.returned, hi] at hreturned
  exact hreturned

/-! ## Two ticks -/

/-- A sequence of actions, each at an instant. -/
def Sweeping.run (cfg : Config) (v : Sweeping) : List (Instant × SweepAct) → Option Sweeping
  | [] => some v
  | e :: es => (v.act cfg e.1 e.2).bind fun v' => v'.run cfg es

theorem Sweepings.run {v v' : Sweeping} (h : Sweepings cfg v) {es : List (Instant × SweepAct)}
    (hrun : v.run cfg es = some v') : Sweepings cfg v' := by
  induction es generalizing v with
  | nil => exact Option.some.inj hrun ▸ h
  | cons e es ih =>
    obtain ⟨u, hu, hrest⟩ := Option.bind_eq_some_iff.mp hrun
    exact ih (h.act hu) hrest

theorem Sweepings.exists_of_run (cfg : Config) (es : List (Instant × SweepAct))
    (p : Sweeping → Prop) [DecidablePred p]
    (h : ((Sweeping.start.run cfg es).any fun v => decide (p v)) = true) :
    ∃ v, Sweepings cfg v ∧ p v := by
  obtain ⟨v, hv, hp⟩ := Option.any_eq_true _ _ |>.mp h
  exact ⟨v, .run .start hv, of_decide_eq_true hp⟩

/-- Actions of the other parties, at an instant. -/
def others (now : Instant) (as : List PosAct) : List (Instant × SweepAct) :=
  as.map fun a => (now, .other a)

/-- A latte is ordered (call 0), nobody pays, and two ticks find the order (calls 1 and 2) before
either expires it. Call 1 has all but committed. -/
def foundTwice : List (Instant × SweepAct) :=
  others 5 takeOrder ++
    [(700000, .tick [100]), (700001, .tick [100]), (700002, .next 0), (700003, .next 1)] ++
    others 700004 (steps 2 1 (supply 0 "") ++ steps 1 4 (supply 0 ""))

theorem expired_when_overdue_latte : ∃ v v' o o', Sweepings cornerCafe v ∧
    v.act cornerCafe 700005 (.other (.step 1 (supply 0 ""))) = some v' ∧
    v'.world.shared.db.orders.get 100 = some o' ∧ o'.status = .expired ∧
    v.world.shared.db.orders.get 100 = some o ∧ o.overdue 700005 := by
  obtain ⟨v, hv, hwaits, hexpires⟩ := Sweepings.exists_of_run cornerCafe foundTwice
    (fun v => (v.world.shared.db.orders.get 100).all (fun o => o.status ≠ .expired) ∧
      ((v.act cornerCafe 700005 (.other (.step 1 (supply 0 "")))).any fun v' =>
        (v'.world.shared.db.orders.get 100).any fun o => decide (o.status = .expired)) = true)
    (by decide)
  obtain ⟨v', hact, hget⟩ := (Option.any_eq_true _ _).mp hexpires
  obtain ⟨o', ho', hexpired⟩ := (Option.any_eq_true _ _).mp hget
  obtain ⟨o, ho, hcases⟩ := expired_when_overdue hv hact ho' (of_decide_eq_true hexpired)
  refine ⟨v, v', o, o', hv, hact, ho', of_decide_eq_true hexpired, ho, hcases.resolve_left ?_⟩
  rw [ho] at hwaits
  exact of_decide_eq_true hwaits

theorem expiries_reported_once_latte : ∃ v, Sweepings cornerCafe v ∧
    (v.ticks.map Tick.calls = [[1], [2]] ∧ v.world.shared.db.expired.length = 1) ∧
    (v.ticks.map (Tick.expired v.world)).sum = v.world.shared.db.expired.length := by
  obtain ⟨v, hv, hticks, hexpired, hall⟩ := Sweepings.exists_of_run cornerCafe
    (foundTwice ++ others 700005 (steps 1 1 (supply 0 "") ++ steps 2 4 (supply 0 "")))
    (fun v => v.ticks.map Tick.calls = [[1], [2]] ∧ v.world.shared.db.expired.length = 1 ∧
      ∀ tick ∈ v.ticks, ∀ i ∈ tick.calls, v.world.returned i) (by decide)
  exact ⟨v, hv, ⟨hticks, hexpired⟩, (expiries_reported_once hv).2 hall⟩

end CafePos
