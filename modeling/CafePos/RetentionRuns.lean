import CafePos.Interleaving.Entries
import CafePos.RetentionJobs
import Mathlib

/-!
# What the retention jobs take and count

The comment over the jobs says that a second run, or both instances at once, finds nothing left to
do. Runs overlap at every statement here, and any statement may fail:

* `retention_takes_only_due` — whatever a run deletes or clears was past its window when the
  statement began (an overlapping run may clear it once more, and then only its stamp moves);
* `retention_counts_once` — what the runs of a deleting job have told the metrics is never more than
  the rows that were deleted, and just as many once they have all ended without a failed statement.

`RetentionCatchUp` has what a run leaves that nobody disturbs.
-/

namespace CafePos.RetentionJobs

open Interleaving

/-! ## Rows -/

namespace RetainedData

/-- There is nothing left to clear in the row. -/
def IsDone : (d : RetainedData) → d.Row → Prop
  | customerNames, (row : NamedOrder) => row.customerName = none
  | eventPayloads, (row : ReceivedEvent) =>
    row.payloadTrimmedAt.isSome ∧ trimPayload row.payload = row.payload
  | refreshTokens, _ => False
  | idempotencyKeys, _ => False

/-- What a statement that began at the given time leaves of a row. -/
def handled (d : RetainedData) (time : Instant) (row : d.Row) : Option d.Row :=
  if d.isDeletion then none else some (d.cleared time row)

/-- What is trimmed is trimmed. -/
theorem trimPayload_trimPayload (payload : Json) :
    trimPayload (trimPayload payload) = trimPayload payload := by
  simp [trimPayload, Json.arrow, Json.member]

/-- An updated row has nothing left to clear. -/
theorem isDone_cleared {d : RetainedData} (hd : d.isDeletion = false) (time : Instant)
    (row : d.Row) : d.IsDone (d.cleared time row) := by
  cases d with
  | customerNames => exact rfl
  | eventPayloads => exact ⟨rfl, trimPayload_trimPayload _⟩
  | refreshTokens | idempotencyKeys => cases hd

/-- A row with nothing left to clear is not past its window. -/
theorem not_isDue_of_isDone {d : RetainedData} {row : d.Row} (h : d.IsDone row) (now : Instant) :
    d.isDue now row = false := by
  cases d with
  | customerNames =>
    have hnone : row.customerName = none := h
    simp [isDue, isPast, hnone]
  | eventPayloads =>
    obtain ⟨hsome, -⟩ := h
    have hnot : row.payloadTrimmedAt.isNone = false := by simpa using hsome
    simp [isDue, isPast, hnot]
  | refreshTokens | idempotencyKeys => cases h

/-- The same row later: what a statement could pick of it, it still can, unless another has cleared
it. -/
structure Ages (d : RetainedData) (row row' : d.Row) : Prop where
  due : ∀ time, d.isDue time row → d.isDue time row' ∨ d.IsDone row'
  done : d.IsDone row → d.IsDone row'

namespace Ages

variable {d : RetainedData} {row row' row'' : d.Row}

theorem refl (row : d.Row) : d.Ages row row := ⟨fun _ => Or.inl, id⟩

theorem trans (h : d.Ages row row') (h' : d.Ages row' row'') : d.Ages row row'' where
  due time hdue := (h.due time hdue).elim (h'.due time) fun hdone => Or.inr (h'.done hdone)
  done hdone := h'.done (h.done hdone)

theorem cleared (time : Instant) (row : d.Row) : d.Ages row (d.cleared time row) := by
  cases hd : d.isDeletion with
  | true =>
    have hsame : d.cleared time row = row := by
      cases d with
      | customerNames | eventPayloads => cases hd
      | refreshTokens | idempotencyKeys => rfl
    rw [hsame]
    exact .refl row
  | false =>
    have hdone := isDone_cleared hd time row
    exact ⟨fun _ _ => Or.inr hdone, fun _ => hdone⟩

/-- The rest of the program leaves a row past its window where it is. -/
theorem rewritten (h : d.Rewritten row row') : d.Ages row row' := by
  cases d with
  | customerNames | eventPayloads => cases h
  | refreshTokens =>
    obtain ⟨hlive, hrow'⟩ := h
    refine ⟨fun time hdue => Or.inl ?_, nofun⟩
    simp only [isDue, isPast, hlive, Option.any_none, Bool.or_false] at hdue
    rw [hrow']
    simp [isDue, isPast, of_decide_eq_true hdue]
  | idempotencyKeys =>
    have hexpires : row'.expiresAt = row.expiresAt := h
    refine ⟨fun time hdue => Or.inl ?_, nofun⟩
    simp only [isDue, isPast, hexpires] at hdue ⊢
    exact hdue

end Ages

end RetainedData

/-! ## Statements -/

section statements

variable {s s' s'' : State} {d d' : RetainedData}

/-- What a statement leaves under a number. -/
theorem State.get_take (s : State) (d : RetainedData) (time : Instant) (batch : List ℕ) (id : ℕ) :
    ((s.take d time batch).tables d).get id =
      if id ∈ batch then ((s.tables d).get id).bind (d.handled time) else (s.tables d).get id := by
  simp only [take, Function.update_self]
  cases hd : d.isDeletion with
  | true =>
    rw [if_pos rfl, Table.get_keep]
    by_cases hid : id ∈ batch <;> cases (s.tables d).get id <;>
      simp [hid, RetainedData.handled, hd]
  | false =>
    rw [if_neg Bool.false_ne_true, Table.get_mapKeyed]
    by_cases hid : id ∈ batch <;> cases (s.tables d).get id <;>
      simp [hid, RetainedData.handled, hd]

/-- A statement leaves the other tables alone. -/
theorem State.take_of_ne (s : State) (h : d' ≠ d) (time : Instant) (batch : List ℕ) :
    (s.take d time batch).tables d' = s.tables d' := Function.update_of_ne h _ _

/-- A number is given out before it is used. -/
def Numbered (s : State) : Prop := ∀ d id row, (s.tables d).get id = some row → id < s.next d

/-- How the tables may move: no number comes back, and rows age. -/
structure Later (s s' : State) : Prop where
  clock : s.clock ≤ s'.clock
  next : ∀ d, s.next d ≤ s'.next d
  rows : ∀ d id row', id < s.next d → (s'.tables d).get id = some row' →
    ∃ row, (s.tables d).get id = some row ∧ d.Ages row row'

theorem Later.refl (s : State) : Later s s :=
  ⟨le_rfl, fun _ => le_rfl, fun _ _ row' _ h => ⟨row', h, .refl row'⟩⟩

theorem Later.trans (h : Later s s') (h' : Later s' s'') : Later s s'' := by
  refine ⟨h.clock.trans h'.clock, fun d => (h.next d).trans (h'.next d), ?_⟩
  intro d id row'' hid hrow''
  obtain ⟨row', hrow', hages'⟩ := h'.rows d id row'' (hid.trans_le (h.next d)) hrow''
  obtain ⟨row, hrow, hages⟩ := h.rows d id row' hid hrow'
  exact ⟨row, hrow, hages.trans hages'⟩

/-- A row after a statement was there before, and is what the statement left of it. -/
theorem State.of_get_take {time : Instant} {batch : List ℕ} {id : ℕ} {row' : d'.Row}
    (h : ((s.take d time batch).tables d').get id = some row') :
    ∃ row, (s.tables d').get id = some row ∧ d'.Ages row row' := by
  by_cases hd : d' = d
  · subst hd
    rw [State.get_take] at h
    split at h
    · obtain ⟨row, hrow, hhandled⟩ := Option.bind_eq_some_iff.mp h
      rw [RetainedData.handled] at hhandled
      split at hhandled
      · cases hhandled
      · obtain rfl := Option.some.inj hhandled
        exact ⟨row, hrow, .cleared time row⟩
    · exact ⟨row', h, .refl row'⟩
  · rw [State.take_of_ne s hd] at h
    exact ⟨row', h, .refl row'⟩

theorem Later.take (s : State) (d : RetainedData) (time : Instant) (batch : List ℕ) :
    Later s (s.take d time batch) :=
  ⟨le_rfl, fun _ => le_rfl, fun _ _ _ _ h => State.of_get_take h⟩

theorem Numbered.take (h : Numbered s) (d : RetainedData) (time : Instant) (batch : List ℕ) :
    Numbered (s.take d time batch) := by
  intro d' id row' hrow'
  obtain ⟨row, hrow, -⟩ := State.of_get_take hrow'
  exact h d' id row hrow

/-- What a statement that began at the given time may handle. -/
def Pickable (s : State) (d : RetainedData) (time : Instant) (batch : List ℕ) : Prop :=
  time ≤ s.clock ∧ ∀ id ∈ batch, id < s.next d ∧
    ∀ row, (s.tables d).get id = some row → d.isDue time row ∨ d.IsDone row

/-- It may still handle it later. -/
theorem Pickable.later {time : Instant} {batch : List ℕ} (h : Pickable s d time batch)
    (hs : Later s s') : Pickable s' d time batch := by
  refine ⟨h.1.trans hs.clock, fun id hid => ?_⟩
  obtain ⟨hlt, hrows⟩ := h.2 id hid
  refine ⟨hlt.trans_le (hs.next d), fun row' hrow' => ?_⟩
  obtain ⟨row, hrow, hages⟩ := hs.rows d id row' hlt hrow'
  exact (hrows row hrow).elim (hages.due time) fun hdone => Or.inr (hages.done hdone)

/-- The database lists every row it is asked for, in some order. -/
theorem mem_arranged {order ids : List ℕ} {id : ℕ} : id ∈ arranged order ids ↔ id ∈ ids := by
  by_cases h : id ∈ order <;> simp [arranged, h]

theorem State.mem_due {now : Instant} {id : ℕ} : id ∈ s.due d now ↔
    ∃ row, (s.tables d).get id = some row ∧ d.isDue now row := by
  constructor
  · intro h
    obtain ⟨q, hq, rfl⟩ := List.mem_map.mp h
    exact ⟨q.2, Table.mem_select.mp hq⟩
  · rintro ⟨row, hrow, hdue⟩
    exact List.mem_map.mpr ⟨(id, row), Table.mem_select.mpr ⟨hrow, hdue⟩, rfl⟩

end statements

/-! ## What one operation does -/

/-- What a run may have told the metrics: no more than its statements returned, and all of it unless
one failed. -/
structure Balanced (l : Log) : Prop where
  le : ∀ d, l.reported d ≤ l.taken d
  eq : l.failed = false → l.reported = l.taken

/-- How many rows of a batch are still there. -/
def State.present (s : State) (d : RetainedData) (batch : List ℕ) : ℕ :=
  ((s.tables d).select fun id _ => batch.contains id).length

/-- What one operation of a run does. -/
inductive Move (l : Log) (s : State) : Log → State → Prop
  /-- time passes -/
  | waits {time : Instant} : s.clock ≤ time → Move l s l { s with clock := time }
  /-- a statement handles its rows -/
  | takes {d : RetainedData} {time : Instant} {batch : List ℕ} : Pickable s d time batch →
      Move l s { l with taken := l.taken + Pi.single d (s.present d batch) } (s.take d time batch)
  /-- a statement fails -/
  | fails : Move l s { l with failed := true } s
  /-- the metrics are told -/
  | reports {d : RetainedData} {n : ℕ} : l.reported d + n ≤ l.taken d →
      Move l s { l with reported := l.reported + Pi.single d n } s

theorem Move.later {l l' : Log} {s s' : State} (h : Move l s l' s') : Later s s' := by
  cases h with
  | waits hle => exact ⟨hle, fun _ => le_rfl, fun _ _ row' _ h => ⟨row', h, .refl row'⟩⟩
  | takes => exact .take ..
  | fails | reports => exact .refl s

theorem Move.numbered {l l' : Log} {s s' : State} (hs : Numbered s) (h : Move l s l' s') :
    Numbered s' := by
  cases h with
  | waits | fails | reports => exact hs
  | takes => exact hs.take _ _ _

/-- What is proved of every run. -/
def spec : Spec State Log Op Call Event where
  inv := Numbered
  rely := Later
  gua _ _ l s l' s' := Move l s l' s'
  permit := .all
  rely_refl := .refl
  rely_trans := .trans
  gua_rely _ h := h.later
  gua_inv _ hs h := h.numbered hs

/-! ## The runs -/

section runs

variable {c : Call} {l : Log} {s : State}

/-- An operation, by what `exec` says of it. -/
theorem ensures_perform {o : Op} {Q : o.Res → Log → State → Prop} {T : Unit → Log → State → Prop}
    (h : ∀ s₁ inp r l' s₂, Later s s₁ → Numbered s₁ → exec inp l s₁ o = (r, l', s₂) →
      Move l s₁ l' s₂ ∧ Q r l' s₂) : spec.Ensures machine c (perform o) Q T l s :=
  .perform fun s₁ inp _ r l' s₂ hs₁ _ hx => h s₁ inp r l' s₂ hs₁.rely hs₁.inv (Option.some.inj hx)

/-- A statement begins: its rows are past their window. -/
theorem ensures_find {d : RetainedData} {limit : ℕ} {Q : Instant × List ℕ → Log → State → Prop}
    {T : Unit → Log → State → Prop}
    (h : ∀ time batch s', Pickable s' d time batch → Q (time, batch) l s') :
    spec.Ensures machine c (perform (.find d limit)) Q T l s := by
  refine ensures_perform fun s₁ inp r l' s₂ _ hnum hx => ?_
  obtain ⟨rfl, rfl, rfl⟩ := Prod.mk.inj hx |>.imp_right Prod.mk.inj
  refine ⟨.waits (le_max_left ..), h _ _ _ ⟨le_rfl, fun id hid => ?_⟩⟩
  obtain ⟨row, hrow, hdue⟩ := State.mem_due.mp (mem_arranged.mp (List.mem_of_mem_take hid))
  refine ⟨hnum d id row hrow, fun row' hrow' => Or.inl ?_⟩
  obtain rfl := Option.some.inj (hrow.symm.trans hrow')
  exact hdue

/-- And it handles those that are still there, or fails. -/
theorem ensures_take {d : RetainedData} {time : Instant} {batch : List ℕ}
    {Q : Except Unit ℕ → Log → State → Prop} {T : Unit → Log → State → Prop}
    (hpick : Pickable s d time batch)
    (hok : ∀ n s', Q (.ok n) { l with taken := l.taken + Pi.single d n } s')
    (herror : ∀ s', Q (.error ()) { l with failed := true } s') :
    spec.Ensures machine c (perform (.take d time batch)) Q T l s := by
  refine ensures_perform fun s₁ inp r l' s₂ hs₁ _ hx => ?_
  simp only [exec] at hx
  split at hx
  · obtain ⟨rfl, rfl, rfl⟩ := Prod.mk.inj hx |>.imp_right Prod.mk.inj
    exact ⟨.fails, herror _⟩
  · obtain ⟨rfl, rfl, rfl⟩ := Prod.mk.inj hx |>.imp_right Prod.mk.inj
    exact ⟨.takes (hpick.later hs₁), hok _ _⟩

/-- The metrics are told no more than was handled. -/
theorem ensures_report {d : RetainedData} {n : ℕ} {Q : Unit → Log → State → Prop}
    {T : Unit → Log → State → Prop} (hle : l.reported d + n ≤ l.taken d)
    (h : ∀ s', Q () { l with reported := l.reported + Pi.single d n } s') :
    spec.Ensures machine c (perform (.report d n)) Q T l s := by
  refine ensures_perform fun s₁ inp r l' s₂ _ _ hx => ?_
  obtain ⟨rfl, rfl, rfl⟩ := Prod.mk.inj hx |>.imp_right Prod.mk.inj
  exact ⟨.reports hle, h _⟩

/-- What a statement returns is what it has handled. -/
theorem step_ensures (d : RetainedData) (limit : ℕ) :
    spec.Ensures machine c (step d limit)
      (fun n l' _ => l' = { l with taken := l.taken + Pi.single d n })
      (fun _ l' _ => l' = { l with failed := true }) l s := by
  refine .bind (ensures_find fun time batch s' hpick => .bind (ensures_take hpick ?_ ?_))
  · exact fun n s'' => .pure rfl
  · exact fun s'' => .throw rfl

/-- A job adds up what its statements return. -/
theorem drainUpTo_ensures (d : RetainedData) (limit batches : ℕ) :
    spec.Ensures machine c (drainUpTo (step d) limit batches)
      (fun n l' _ => l' = { l with taken := l.taken + Pi.single d n })
      (fun _ l' _ => ∃ n, l' = { l with taken := l.taken + Pi.single d n, failed := true })
      l s := by
  induction batches generalizing l s with
  | zero =>
    refine .pure ?_
    rw [Pi.single_zero, add_zero]
  | succ batches ih =>
    refine .bind (Spec.wp_mono (fun r l' s' _ hr => ?_) (step_ensures d limit))
    cases r with
    | error e => exact ⟨0, by rw [Pi.single_zero, add_zero]; exact hr⟩
    | ok n =>
      obtain rfl := hr
      refine .ite (fun _ => .pure rfl) fun _ => .bind ?_
      refine Spec.wp_mono (fun r l' s' _ hr => ?_) ih
      cases r with
      | error e =>
        obtain ⟨m, rfl⟩ := hr
        exact ⟨n + m, by rw [Pi.single_add, ← add_assoc]⟩
      | ok m =>
        obtain rfl := hr
        refine .pure ?_
        rw [Pi.single_add, ← add_assoc]

/-- A job that fails is caught. -/
theorem ensures_tryCatch {α : Type} {m : Service α} {handle : Unit → Service α}
    {Q : α → Log → State → Prop} {T : Unit → Log → State → Prop}
    (h : spec.Ensures machine c m Q (fun e l s => spec.Ensures machine c (handle e) Q T l s) l s) :
    spec.Ensures machine c (tryCatch m handle) Q T l s := by
  refine Spec.wp_bind (Spec.wp_mono (fun r l' s' _ hr => ?_) h)
  cases r with
  | ok a => exact hr
  | error e => exact hr

/-- A job reports what it has handled, or fails. -/
theorem run_ensures (d : RetainedData) {job : Service ℕ} (hl : Balanced l)
    (hjob : job = drainInBatches (step d)) :
    spec.Ensures machine c (run d job) (fun _ l' _ => Balanced l') (fun _ _ _ => False) l s := by
  subst hjob
  refine ensures_tryCatch (.bind ?_)
  refine Spec.wp_mono (fun r l' s' _ hr => ?_) (drainUpTo_ensures d batchSize defaultMaxBatches)
  cases r with
  | error e =>
    obtain ⟨n, rfl⟩ := hr
    refine .pure ⟨fun d' => (hl.le d').trans (Nat.le_add_right ..), fun hfailed => ?_⟩
    cases hfailed
  | ok n =>
    obtain rfl := hr
    refine ensures_report (by simpa using hl.le d) fun s'' => ⟨fun d' => ?_, fun hfailed => ?_⟩
    · exact Nat.add_le_add_right (hl.le d') _
    · exact congrArg (· + Pi.single d n) (hl.eq hfailed)

end runs

/-- What a run's log says when it has ended. -/
def Post (_ : Call) (_ : Except Unit Unit) (l : Log) (_ : State) : Prop := Balanced l

theorem balanced_idle : Balanced {} := ⟨fun _ => le_rfl, fun _ => rfl⟩

theorem starts (base : State) : Starts spec system base 0 fun _ c a l s => Post c a l s := by
  intro i c s _ _ _ _
  cases c with
  | nightly =>
    have hrest : spec.Ensures machine .nightly runNightly (fun _ l _ => Balanced l)
        (fun _ _ _ => False) {} s := by
      refine .bind (Spec.wp_mono (fun r l s' _ hr => ?_)
        (run_ensures .customerNames balanced_idle rfl))
      cases r with
      | error e => exact hr
      | ok _ =>
        refine .bind (Spec.wp_mono (fun r l s' _ hr => ?_) (run_ensures .eventPayloads hr rfl))
        cases r with
        | error e => exact hr
        | ok _ => exact run_ensures .refreshTokens hr rfl
    refine Spec.wp_mono (fun r l s' _ hr => ?_) hrest
    cases r with
    | error e => exact hr.elim
    | ok _ => exact hr
  | hourly =>
    refine Spec.wp_mono (fun r l s' _ hr => ?_) (run_ensures .idempotencyKeys balanced_idle rfl)
    cases r with
    | error e => exact hr.elim
    | ok _ => exact hr

/-! ## What happens by itself -/

section happenings

variable {s s' : State}

/-- Writing one row leaves the others. -/
theorem get_update_put_ne (s : State) (d : RetainedData) (id : ℕ) (row : d.Row) {d' : RetainedData}
    {id' : ℕ} (h : d' = d → id' ≠ id) :
    (Function.update s.tables d ((s.tables d).put id row) d').get id' = (s.tables d').get id' := by
  by_cases hd : d' = d
  · subst hd
    rw [Function.update_self, Table.get_put_ne _ _ (h rfl)]
  · rw [Function.update_of_ne hd]

/-- A row is inserted under a number nobody has had. -/
theorem later_insert (hs : Numbered s) (d : RetainedData) (row : d.Row)
    (h : happen s (.insert d row) = some s') : Numbered s' ∧ Later s s' := by
  obtain rfl := Option.some.inj h
  have hnext : ∀ d', s.next d' ≤ Function.update s.next d (s.next d + 1) d' := by
    intro d'
    by_cases hd : d' = d
    · subst hd
      rw [Function.update_self]
      omega
    · rw [Function.update_of_ne hd]
  refine ⟨fun d' id row' hrow' => ?_, le_rfl, hnext, fun d' id row' hid hrow' => ?_⟩
  · by_cases hnew : d' = d ∧ id = s.next d
    · obtain ⟨rfl, rfl⟩ := hnew
      dsimp only
      rw [Function.update_self]
      exact Nat.lt_succ_self _
    · rw [get_update_put_ne s d _ row fun hd hid => hnew ⟨hd, hid⟩] at hrow'
      exact (hs d' id row' hrow').trans_le (hnext d')
  · rw [get_update_put_ne s d _ row fun hd hid' => by
      subst hd
      omega] at hrow'
    exact ⟨row', hrow', .refl row'⟩

/-- A row is rewritten. -/
theorem later_rewrite (hs : Numbered s) (d : RetainedData) (id : ℕ) (row : d.Row)
    (h : happen s (.rewrite d id row) = some s') : Numbered s' ∧ Later s s' := by
  obtain ⟨old, hold, hx⟩ := Option.bind_eq_some_iff.mp h
  split at hx
  · rename_i hwritten
    obtain rfl := Option.some.inj hx
    have hrows : ∀ d' id' row', (Function.update s.tables d ((s.tables d).put id row) d').get id' =
        some row' → ∃ u, (s.tables d').get id' = some u ∧ d'.Ages u row' := by
      intro d' id' row' hrow'
      by_cases hmine : d' = d ∧ id' = id
      · obtain ⟨rfl, rfl⟩ := hmine
        rw [Function.update_self, Table.get_put_self] at hrow'
        obtain rfl := Option.some.inj hrow'
        exact ⟨old, hold, .rewritten hwritten⟩
      · rw [get_update_put_ne s d id row fun hd hid => hmine ⟨hd, hid⟩] at hrow'
        exact ⟨row', hrow', .refl row'⟩
    refine ⟨fun d' id' row' hrow' => ?_, le_rfl, fun _ => le_rfl,
      fun d' id' row' _ hrow' => hrows d' id' row' hrow'⟩
    obtain ⟨u, hu, -⟩ := hrows d' id' row' hrow'
    exact hs d' id' u hu
  · cases hx

theorem happens : Happens spec system := by
  intro e s s' _ hs hs'
  cases e with
  | tick elapsed =>
    obtain rfl := Option.some.inj hs'
    refine ⟨hs, ?_, fun _ => le_rfl, fun _ _ row' _ h => ⟨row', h, .refl row'⟩⟩
    exact le_add_of_nonneg_right (Int.natCast_nonneg elapsed)
  | insert d row => exact later_insert hs d row hs'
  | rewrite d id row => exact later_rewrite hs d id row hs'

end happenings

/-! ## Every run -/

theorem Reachable.sound {w : JobWorld} (h : Reachable w) :
    Sound spec system opening.shared 0 (fun _ c a l s => Post c a l s) w :=
  Sound.runs (starts _) happens (.initial fun _ _ _ hrow => by cases hrow) h

/-- **A run takes only what is due.** Whatever a statement deletes or clears, of any run and between
any others, was past its window when the statement began; but two runs that have picked the same row
may both clear it, and then the second finds nothing left in it. -/
theorem retention_takes_only_due {w w' : JobWorld} (h : Reachable w) {i : ℕ} {inp : Input}
    (hact : w.act system (.step i inp) = some w') {d : RetainedData} {id : ℕ} {row : d.Row}
    (hrow : (w.shared.tables d).get id = some row)
    (hlost : (w'.shared.tables d).get id ≠ some row) :
    ∃ time ≤ w.shared.clock, (d.isDue time row ∨ d.IsDone row) ∧
      (w'.shared.tables d).get id = d.handled time row := by
  cases World.transition_of_act hact with
  | step hu hp hx =>
    obtain ⟨hmove, -⟩ := h.sound.step hu hp trivial hx
    cases hmove with
    | waits | fails | reports => exact absurd hrow hlost
    | @takes d' time batch hpick =>
      by_cases hd : d = d'
      · subst hd
        rw [State.get_take] at hlost ⊢
        split at hlost
        · rename_i hid
          refine ⟨time, hpick.1, (hpick.2 id hid).2 row hrow, ?_⟩
          rw [if_pos hid, hrow]
          rfl
        · exact absurd hrow hlost
      · rw [State.take_of_ne _ hd] at hlost
        exact absurd hrow hlost

/-- A key that has expired. -/
def expiredKey : IdempotencyKey := ⟨"hash", some 201, none, 5⟩

/-- A key expires, and two instances find it (runs 0 and 1). -/
def twoFindIt : List (Act Input Call Event) :=
  [.world (.insert .idempotencyKeys expiredKey), .world (.tick 10), .start .hourly, .start .hourly,
    .step 0 {}, .step 1 {}]

theorem retention_takes_only_due_key : ∃ w w' : JobWorld, Reachable w ∧
    w.act system (.step 0 {}) = some w' ∧
    (w.shared.tables .idempotencyKeys).get 0 = some expiredKey ∧
    (w'.shared.tables .idempotencyKeys).get 0 ≠ some expiredKey ∧
    ∃ time ≤ w.shared.clock,
      (RetainedData.isDue .idempotencyKeys time expiredKey ∨
        RetainedData.IsDone .idempotencyKeys expiredKey) ∧
      (w'.shared.tables .idempotencyKeys).get 0 =
        RetainedData.handled .idempotencyKeys time expiredKey := by
  obtain ⟨w, hw, hrow, hnext⟩ := Runs.exists_of_acts system opening twoFindIt
    (fun w => ((w.shared.tables .idempotencyKeys).get 0).any (fun row => row = expiredKey) = true ∧
      (w.act system (.step 0 {})).any
        (fun w' => ((w'.shared.tables .idempotencyKeys).get 0).isNone) = true) (by decide +kernel)
  obtain ⟨row, hrow, hkey⟩ := (Option.any_eq_true _ _).mp hrow
  obtain rfl := of_decide_eq_true hkey
  obtain ⟨w', hact, hgone⟩ := (Option.any_eq_true _ _).mp hnext
  have hlost : (w'.shared.tables .idempotencyKeys).get 0 ≠ some expiredKey := by
    rw [Option.isNone_iff_eq_none.mp hgone]
    nofun
  exact ⟨w, w', hw, hact, hrow, hlost, retention_takes_only_due hw hact hrow hlost⟩

/-! ## What the metrics are told -/

/-- The rows of a kind that were deleted. -/
def State.deleted (s : State) (d : RetainedData) : ℕ := s.next d - (s.tables d).entries.length

/-- What the runs have told the metrics. -/
def reportedTotal (w : JobWorld) (d : RetainedData) : ℕ :=
  (w.threads.map fun t => t.session.reported d).sum

/-- What their statements have returned. -/
def takenTotal (w : JobWorld) (d : RetainedData) : ℕ :=
  (w.threads.map fun t => t.session.taken d).sum

/-- What a deletion leaves, and what it returns. -/
theorem State.length_take_add (s : State) {d : RetainedData} (hd : d.isDeletion) (time : Instant)
    (batch : List ℕ) : ((s.take d time batch).tables d).entries.length + s.present d batch =
      (s.tables d).entries.length := by
  simp only [take, Function.update_self, hd, if_true]
  exact Table.length_keep_add _ _

/-- One call changes: what the sum over the calls changes by. -/
theorem sum_map_set {α : Type} {l : List α} {i : ℕ} {a : α} (h : l[i]? = some a) (b : α)
    (f : α → ℕ) : ((l.set i b).map f).sum + f a = (l.map f).sum + f b := by
  induction l generalizing i with
  | nil => cases h
  | cons c l ih =>
    cases i with
    | zero =>
      obtain rfl := Option.some.inj h
      simp only [List.set_cons_zero, List.map_cons, List.sum_cons]
      omega
    | succ i =>
      have hrest := ih (i := i) h
      simp only [List.set_cons_succ, List.map_cons, List.sum_cons]
      omega

/-- A run of the jobs. -/
abbrev JobThread : Type := Thread Log Op Op.Res Call (Except Unit Unit)

/-- The books of the deleting jobs. -/
structure Accounted (w : JobWorld) : Prop where
  le : ∀ t ∈ w.threads, ∀ d, t.session.reported d ≤ t.session.taken d
  eq : ∀ d, d.isDeletion → takenTotal w d + (w.shared.tables d).entries.length = w.shared.next d

/-- One operation. -/
theorem Accounted.step {w : JobWorld} (h : Accounted w) {i : ℕ} {t : JobThread} {l' : Log}
    {p : Option (Prog Op Op.Res (Except Unit Unit))} {s' : State} (ht : w.threads[i]? = some t)
    (hmove : Move t.session w.shared l' s') :
    Accounted ⟨s', w.threads.set i ⟨t.call, l', p⟩⟩ := by
  have hmine := h.le t (List.mem_of_getElem? ht)
  have hsum : ∀ d, takenTotal ⟨s', w.threads.set i ⟨t.call, l', p⟩⟩ d + t.session.taken d =
      takenTotal w d + l'.taken d := fun d => sum_map_set ht _ fun t => t.session.taken d
  refine ⟨fun u hu d => ?_, fun d hd => ?_⟩
  · rcases List.mem_or_eq_of_mem_set hu with hu | rfl
    · exact h.le u hu d
    · cases hmove with
      | waits | fails => exact hmine d
      | takes => exact (hmine d).trans (Nat.le_add_right ..)
      | @reports d' n hle =>
        by_cases hd' : d = d'
        · subst hd'
          simpa using hle
        · simpa [hd'] using hmine d
  · have heq := h.eq d hd
    have hsum := hsum d
    cases hmove with
    | waits | fails | reports =>
      dsimp only at hsum ⊢
      omega
    | @takes d' time batch hpick =>
      change takenTotal _ d + ((w.shared.take d' time batch).tables d).entries.length =
        w.shared.next d
      by_cases hd' : d = d'
      · subst hd'
        have htable := w.shared.length_take_add hd time batch
        simp only [Pi.add_apply, Pi.single_eq_same] at hsum
        omega
      · rw [State.take_of_ne _ hd']
        simp only [Pi.add_apply, Pi.single_eq_of_ne hd', add_zero] at hsum
        omega

/-- What happens by itself deletes nothing. -/
theorem entries_happen {s s' : State} {e : Event} (hs : Numbered s) (h : happen s e = some s')
    (d : RetainedData) : s'.next d + (s.tables d).entries.length =
      s.next d + (s'.tables d).entries.length := by
  cases e with
  | tick elapsed =>
    obtain rfl := Option.some.inj h
    rfl
  | insert d' row =>
    obtain rfl := Option.some.inj h
    dsimp only
    by_cases hd : d = d'
    · subst hd
      have hfree : (s.tables d).get (s.next d) = none := by
        by_contra hsome
        obtain ⟨u, hu⟩ := Option.ne_none_iff_exists'.mp hsome
        exact absurd (hs d _ u hu) (Nat.lt_irrefl _)
      rw [Function.update_self, Function.update_self, Table.length_put_of_none hfree]
      omega
    · rw [Function.update_of_ne hd, Function.update_of_ne hd]
  | rewrite d' id row =>
    obtain ⟨old, hold, hx⟩ := Option.bind_eq_some_iff.mp h
    split at hx
    · obtain rfl := Option.some.inj hx
      dsimp only
      by_cases hd : d = d'
      · subst hd
        rw [Function.update_self, Table.length_put_of_some hold]
      · rw [Function.update_of_ne hd]
    · cases hx

theorem Reachable.accounted {w : JobWorld} (h : Reachable w) : Accounted w := by
  refine Sound.invariant (J := Accounted) (starts opening.shared) happens ?_ ?_ ?_ ?_
    (.initial fun _ _ _ hrow => by cases hrow)
    ⟨fun _ ht => absurd ht List.not_mem_nil, fun _ _ => rfl⟩ h
  · intro v c hJ _
    refine ⟨fun u hu d => ?_, fun d hd => ?_⟩
    · rcases List.mem_append.mp hu with hu | hu
      · exact hJ.le u hu d
      · rw [List.mem_singleton.mp hu]
        exact le_rfl
    · have hsame : takenTotal ⟨v.shared, v.threads ++ [⟨c, system.machine.idle,
          some (system.program c)⟩]⟩ d = takenTotal v d := by
        simp [takenTotal, system, machine, Machine.atomic]
      rw [hsame]
      exact hJ.eq d hd
  · exact fun v i t o k r l' s' _ hJ ht _ _ hmove => hJ.step ht hmove
  · intro v i t hJ ht _ _
    refine ⟨fun u hu d => ?_, fun d hd => ?_⟩
    · rcases List.mem_or_eq_of_mem_set hu with hu | rfl
      · exact hJ.le u hu d
      · exact hJ.le t (List.mem_of_getElem? ht) d
    · have hsum := sum_map_set ht (⟨t.call, system.machine.abort t.session, none⟩ : JobThread)
        fun t => t.session.taken d
      have hsame : (system.machine.abort t.session).taken d = t.session.taken d := rfl
      have heq := hJ.eq d hd
      dsimp only at hsum
      rw [hsame] at hsum
      simp only [takenTotal] at heq ⊢
      omega
  · intro v e s' hs hJ _ hs'
    refine ⟨hJ.le, fun d hd => ?_⟩
    have hrows := entries_happen hs hs' d
    have heq := hJ.eq d hd
    simp only [takenTotal] at heq ⊢
    omega

/-- **The metrics are told what was deleted.** However the runs of a deleting job overlap, die and
fail, what they have told the metrics is never more than the rows that are gone: two runs that pick
the same row count it once. Once all runs have ended, and no statement of theirs has failed, it is
just as many. -/
theorem retention_counts_once {w : JobWorld} (h : Reachable w) {d : RetainedData}
    (hd : d.isDeletion) : reportedTotal w d ≤ w.shared.deleted d ∧
    ((∀ t ∈ w.threads, (∃ a, t.Answered a) ∧ t.session.failed = false) →
      reportedTotal w d = w.shared.deleted d) := by
  have hacc := h.accounted
  have htaken : takenTotal w d = w.shared.deleted d := by
    have heq := hacc.eq d hd
    rw [State.deleted]
    omega
  rw [← htaken]
  refine ⟨List.sum_le_sum fun t ht => hacc.le t ht d, fun hended => ?_⟩
  refine congrArg List.sum (List.map_congr_left fun t ht => ?_)
  obtain ⟨⟨a, ha⟩, hfailed⟩ := hended t ht
  obtain ⟨i, hi⟩ := List.mem_iff_getElem?.mp ht
  obtain ⟨s₀, -, -, hpost⟩ := h.sound.answered hi ha
  have hbalanced : Balanced t.session := hpost
  rw [hbalanced.eq hfailed]

/-- Both instances delete the key, and only one of them has. -/
theorem retention_counts_once_key : ∃ w : JobWorld, Reachable w ∧
    w.shared.deleted .idempotencyKeys = 1 ∧ reportedTotal w .idempotencyKeys = 1 ∧
    reportedTotal w .idempotencyKeys ≤ w.shared.deleted .idempotencyKeys ∧
    ((∀ t ∈ w.threads, (∃ a, t.Answered a) ∧ t.session.failed = false) →
      reportedTotal w .idempotencyKeys = w.shared.deleted .idempotencyKeys) := by
  obtain ⟨w, hw, hdeleted, hreported⟩ := Runs.exists_of_acts system opening
    (twoFindIt ++ [.step 0 {}, .step 1 {}, .step 1 {}, .step 0 {}])
    (fun w => w.shared.deleted .idempotencyKeys = 1 ∧ reportedTotal w .idempotencyKeys = 1)
    (by decide +kernel)
  exact ⟨w, hw, hdeleted, hreported, retention_counts_once hw rfl⟩

end CafePos.RetentionJobs
