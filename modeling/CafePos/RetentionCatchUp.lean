import CafePos.RetentionRuns
import CafePos.Interleaving.Undisturbed
import Mathlib

/-!
# What a retention run leaves

A run that nobody disturbs and no statement of which fails leaves nothing past its window, of any
kind of data it looks after, unless it has handled all its 100 batches: `retention_catches_up`.
Time goes on while it runs; what is promised is promised for the moment of a job's last statement.

* `step_ends` — a batch that comes back short has held all there was;
* `drainUpTo_ends` — so a job stops with nothing left, or at its cap;
* `Caught.run` — and the jobs of a run do not get into each other's way.
-/

namespace CafePos.RetentionJobs

open Interleaving

/-! ## Calls nobody disturbs -/

/-- The call, begun while nobody else does anything and supplied with statements that do not fail,
returns into `Q`. -/
def Ends {α : Type} (m : Service α) (Q : α → Log → State → Prop) (l : Log) (s : State) : Prop :=
  m.run.ends machine (fun inp => inp.failed = false) (fun r l s => ∃ a, r = .ok a ∧ Q a l s) l s

namespace Ends

variable {α β : Type} {l : Log} {s : State}

theorem pure {a : α} {Q : α → Log → State → Prop} (h : Q a l s) : Ends (Pure.pure a) Q l s :=
  ⟨a, rfl, h⟩

theorem mono {m : Service α} {Q Q' : α → Log → State → Prop} (h : Ends m Q l s)
    (hQ : ∀ a l s, Q a l s → Q' a l s) : Ends m Q' l s := by
  refine Prog.ends_mono (fun r l s hr => ?_) h
  obtain ⟨a, rfl, ha⟩ := hr
  exact ⟨a, rfl, hQ a l s ha⟩

theorem bind {m : Service β} {f : β → Service α} {Q : α → Log → State → Prop}
    (h : Ends m (fun b l s => Ends (f b) Q l s) l s) : Ends (m >>= f) Q l s := by
  refine Prog.ends_bind (Prog.ends_mono (fun r l s hr => ?_) h)
  obtain ⟨b, rfl, hb⟩ := hr
  exact hb

theorem tryCatch {m : Service α} {handle : Unit → Service α} {Q : α → Log → State → Prop}
    (h : Ends m Q l s) : Ends (MonadExcept.tryCatch m handle) Q l s := by
  refine Prog.ends_bind (Prog.ends_mono (fun r l s hr => ?_) h)
  obtain ⟨a, rfl, ha⟩ := hr
  exact ⟨a, rfl, ha⟩

theorem perform {o : Op} {Q : o.Res → Log → State → Prop}
    (h : ∀ inp : Input, inp.failed = false →
      Q (exec inp l s o).1 (exec inp l s o).2.1 (exec inp l s o).2.2) :
    Ends (RetentionJobs.perform o) Q l s :=
  fun inp hinp => ⟨_, _, _, rfl, _, rfl, h inp hinp⟩

end Ends

section alone

variable {s s' s'' : State} {d : RetainedData}

/-- No row is past its window. -/
def State.Clear (s : State) (d : RetainedData) (time : Instant) : Prop :=
  ∀ id row, (s.tables d).get id = some row → d.isDue time row = false

/-- From `s` to `s'` the row was handled, when it was past its window. -/
def HandledBetween (s s' : State) (d : RetainedData) (id : ℕ) : Prop :=
  ∃ row time, (s.tables d).get id = some row ∧ s.clock ≤ time ∧ time ≤ s'.clock ∧
    d.isDue time row ∧ (s'.tables d).get id = d.handled time row

/-- From `s` to `s'` only rows of one kind were handled. -/
structure Swept (d : RetainedData) (s s' : State) : Prop where
  clock : s.clock ≤ s'.clock
  others : ∀ d', d' ≠ d → s'.tables d' = s.tables d'
  rows : ∀ id, (s'.tables d).get id = (s.tables d).get id ∨ HandledBetween s s' d id

theorem Swept.refl (d : RetainedData) (s : State) : Swept d s s :=
  ⟨le_rfl, fun _ _ => rfl, fun _ => Or.inl rfl⟩

/-- What was handled is not due again. -/
theorem Swept.trans (h : Swept d s s') (h' : Swept d s' s'') : Swept d s s'' := by
  refine ⟨h.clock.trans h'.clock, fun d' hd => (h'.others d' hd).trans (h.others d' hd), ?_⟩
  intro id
  rcases h.rows id with hsame | ⟨row, time, hrow, hlo, hhi, hdue, hget⟩
  · rcases h'.rows id with hsame' | ⟨row, time, hrow, hlo, hhi, hdue, hget⟩
    · exact Or.inl (hsame'.trans hsame)
    · exact Or.inr ⟨row, time, hsame ▸ hrow, h.clock.trans hlo, hhi, hdue, hget⟩
  · rcases h'.rows id with hsame' | ⟨row', time', hrow', -, -, hdue', -⟩
    · exact Or.inr ⟨row, time, hrow, hlo, hhi.trans h'.clock, hdue, hsame'.trans hget⟩
    · rw [hget, RetainedData.handled] at hrow'
      split at hrow'
      · cases hrow'
      · rename_i hd
        obtain rfl := Option.some.inj hrow'
        have hdone := RetainedData.isDone_cleared (Bool.eq_false_iff.mpr hd) time row
        rw [RetainedData.not_isDue_of_isDone hdone] at hdue'
        cases hdue'

theorem nodup_due (s : State) (d : RetainedData) (now : Instant) : (s.due d now).Nodup :=
  (s.tables d).nodup_select _

/-- Whatever the order, every row is listed once. -/
theorem arranged_perm (order : List ℕ) {ids : List ℕ} (h : ids.Nodup) :
    (arranged order ids).Perm ids := by
  refine (List.perm_ext_iff_of_nodup ?_ h).mpr fun id => mem_arranged
  refine (order.nodup_dedup.filter _).append (h.filter _) fun id hid hid' => ?_
  have hin : id ∈ order := List.mem_dedup.mp (List.mem_filter.mp hid).1
  simp [hin] at hid'

/-- A statement handles every row it has picked, while nobody else does anything. -/
theorem present_eq {batch : List ℕ} (hnodup : batch.Nodup)
    (hthere : ∀ id ∈ batch, ∃ row, (s.tables d).get id = some row) :
    s.present d batch = batch.length := by
  have hperm : (((s.tables d).select fun id _ => batch.contains id).map Prod.fst).Perm batch := by
    refine (List.perm_ext_iff_of_nodup ((s.tables d).nodup_select _) hnodup).mpr fun id => ?_
    constructor
    · intro hid
      obtain ⟨q, hq, rfl⟩ := List.mem_map.mp hid
      simpa using (Table.mem_select.mp hq).2
    · intro hid
      obtain ⟨row, hrow⟩ := hthere id hid
      exact List.mem_map.mpr ⟨(id, row), Table.mem_select.mpr ⟨hrow, by simpa using hid⟩, rfl⟩
  rw [State.present, ← hperm.length_eq, List.length_map]

/-- One statement: at most `limit` rows, and if fewer, all that are due. -/
theorem step_ends (d : RetainedData) (limit : ℕ) {l : Log} :
    Ends (step d limit) (fun n l' s' => Swept d s s' ∧ l'.reported = l.reported ∧ n ≤ limit ∧
      (n < limit → s'.Clear d s'.clock)) l s := by
  refine .bind (.perform fun inp hinp => .bind (.perform fun inp' hinp' => ?_))
  simp only [exec, hinp', Bool.false_eq_true, if_false]
  let time := max s.clock inp.now
  let batch := (arranged inp.order (s.due d time)).take limit
  have hperm := arranged_perm inp.order (nodup_due s d time)
  have hbatch : ∀ id ∈ batch, ∃ row, (s.tables d).get id = some row ∧ d.isDue time row :=
    fun id hid => State.mem_due.mp (hperm.mem_iff.mp (List.mem_of_mem_take hid))
  have hcount : State.present { s with clock := time } d batch = batch.length :=
    present_eq ((hperm.nodup_iff.mpr (nodup_due s d time)).sublist (List.take_sublist ..))
      fun id hid => ⟨_, (hbatch id hid).choose_spec.1⟩
  refine .pure ⟨⟨le_max_left .., fun d' hd => State.take_of_ne _ hd _ _, fun id => ?_⟩, rfl, ?_, ?_⟩
  · by_cases hid : id ∈ batch
    · obtain ⟨row, hrow, hdue⟩ := hbatch id hid
      refine Or.inr ⟨row, time, hrow, le_max_left .., le_rfl, hdue, ?_⟩
      refine (State.get_take { s with clock := time } d time batch id).trans ?_
      rw [if_pos hid, hrow]
      rfl
    · exact Or.inl ((State.get_take { s with clock := time } d time batch id).trans (if_neg hid))
  · change State.present { s with clock := time } d batch ≤ limit
    rw [hcount, List.length_take]
    exact min_le_left ..
  · intro hlt id row' hrow'
    change State.present { s with clock := time } d batch < limit at hlt
    rw [hcount, List.length_take] at hlt
    have hall : batch = arranged inp.order (s.due d time) := List.take_of_length_le (by omega)
    change ((State.take { s with clock := time } d time batch).tables d).get id = some row' at hrow'
    change d.isDue time row' = false
    rw [State.get_take] at hrow'
    split at hrow'
    · obtain ⟨row, -, hhandled⟩ := Option.bind_eq_some_iff.mp hrow'
      rw [RetainedData.handled] at hhandled
      split at hhandled
      · cases hhandled
      · rename_i hd
        obtain rfl := Option.some.inj hhandled
        exact RetainedData.not_isDue_of_isDone
          (RetainedData.isDone_cleared (Bool.eq_false_iff.mpr hd) time row) time
    · rename_i hid
      refine Bool.eq_false_iff.mpr fun hdue => hid ?_
      rw [hall, mem_arranged]
      exact State.mem_due.mpr ⟨row', hrow', hdue⟩

/-- A job: every batch full, or nothing left that is due. -/
theorem drainUpTo_ends (d : RetainedData) (limit batches : ℕ) {l : Log} :
    Ends (drainUpTo (step d) limit batches) (fun n l' s' => Swept d s s' ∧
      l'.reported = l.reported ∧ (n = batches * limit ∨ s'.Clear d s'.clock)) l s := by
  induction batches generalizing l s with
  | zero => exact .pure ⟨.refl d s, rfl, Or.inl (Nat.zero_mul limit).symm⟩
  | succ batches ih =>
    refine .bind ((step_ends d limit).mono fun n l₁ s₁ h₁ => ?_)
    obtain ⟨hswept, hreported, hle, hclear⟩ := h₁
    split
    · rename_i hlt
      exact .pure ⟨hswept, hreported, Or.inr (hclear hlt)⟩
    · rename_i hnot
      refine .bind (ih.mono fun m l₂ s₂ h₂ => .pure ?_)
      obtain ⟨hswept', hreported', hend⟩ := h₂
      refine ⟨hswept.trans hswept', hreported'.trans hreported, hend.imp_left fun hm => ?_⟩
      rw [hm, Nat.succ_mul]
      omega

/-- A job, reported. -/
theorem run_ends {job : Service ℕ} (hjob : job = drainInBatches (step d)) {l : Log} :
    Ends (run d job) (fun _ l' s' => ∃ n, Swept d s s' ∧
      l'.reported = l.reported + Pi.single d n ∧
      (n = defaultMaxBatches * batchSize ∨ s'.Clear d s'.clock)) l s := by
  subst hjob
  refine .tryCatch (.bind ?_)
  refine (drainUpTo_ends d batchSize defaultMaxBatches).mono fun n l₁ s₁ h₁ => ?_
  obtain ⟨hswept, hreported, hend⟩ := h₁
  refine .perform fun inp _ => ⟨n, hswept, ?_, hend⟩
  rw [← hreported]
  rfl

/-- What a run has done, when it has looked after some kinds of data. -/
structure Caught (data : List RetainedData) (s : State) (l' : Log) (s' : State) : Prop where
  clock : s.clock ≤ s'.clock
  rows : ∀ d id, (s'.tables d).get id = (s.tables d).get id ∨
    d ∈ data ∧ HandledBetween s s' d id
  quiet : ∀ d, d ∉ data → l'.reported d = 0
  clear : ∀ d ∈ data, l'.reported d = defaultMaxBatches * batchSize ∨
    ∃ time, s.clock ≤ time ∧ time ≤ s'.clock ∧ s'.Clear d time

theorem Caught.nil (s : State) : Caught [] s {} s :=
  ⟨le_rfl, fun _ _ => Or.inl rfl, fun _ _ => rfl, nofun⟩

/-- One more job, of another kind of data. -/
theorem Caught.run {data : List RetainedData} {l' : Log} (h : Caught data s l' s')
    {job : Service ℕ} (hjob : job = drainInBatches (step d)) (hd : d ∉ data) :
    Ends (run d job) (fun _ l'' s'' => Caught (d :: data) s l'' s'') l' s' := by
  refine (run_ends hjob).mono fun _ l'' s'' h' => ?_
  obtain ⟨n, hswept, hreported, hend⟩ := h'
  have hother : ∀ d', d' ≠ d → l''.reported d' = l'.reported d' := by
    intro d' hd'
    rw [hreported, Pi.add_apply, Pi.single_eq_of_ne hd', add_zero]
  refine ⟨h.clock.trans hswept.clock, fun d' id => ?_, fun d' hd' => ?_, fun d' hd' => ?_⟩
  · by_cases hmine : d' = d
    · subst hmine
      -- the other jobs have not touched this table
      have hbefore : (s'.tables d').get id = (s.tables d').get id :=
        (h.rows d' id).resolve_right fun hh => hd hh.1
      rcases hswept.rows id with hsame | ⟨row, time, hrow, hlo, hhi, hdue, hget⟩
      · exact Or.inl (hsame.trans hbefore)
      · exact Or.inr ⟨List.mem_cons_self, row, time, hbefore ▸ hrow, h.clock.trans hlo, hhi, hdue,
          hget⟩
    · rw [hswept.others d' hmine]
      rcases h.rows d' id with hsame | ⟨hmem, row, time, hrow, hlo, hhi, hdue, hget⟩
      · exact Or.inl hsame
      · exact Or.inr ⟨List.mem_cons_of_mem _ hmem, row, time, hrow, hlo, hhi.trans hswept.clock,
          hdue, by rw [hswept.others d' hmine]; exact hget⟩
  · rw [hother d' fun hmine => hd' (hmine ▸ List.mem_cons_self)]
    exact h.quiet d' fun hmem => hd' (List.mem_cons_of_mem _ hmem)
  · rcases List.mem_cons.mp hd' with rfl | hmem
    · refine hend.imp (fun hn => ?_) fun hclear => ⟨s''.clock, ?_, le_rfl, hclear⟩
      · rw [hreported, Pi.add_apply, h.quiet d' hd, Pi.single_eq_same, zero_add, hn]
      · exact h.clock.trans hswept.clock
    · have hne : d' ≠ d := fun heq => hd (heq ▸ hmem)
      rw [hother d' hne]
      refine (h.clear d' hmem).imp_right fun ⟨time, hlo, hhi, hclear⟩ => ?_
      refine ⟨time, hlo, hhi.trans hswept.clock, fun id row hrow => hclear id row ?_⟩
      rwa [hswept.others d' hne] at hrow

/-- The grace comes on top of the window. -/
theorem RetainedData.overdueCutoff_le (d : RetainedData) (now : Instant) :
    d.overdueCutoff now ≤ d.cutoff now := by
  have hmonths : d.grace.months = 0 := by cases d <;> rfl
  rw [overdueCutoff, cutoff, Interval.before, Interval.before, Interval.add, hmonths, Nat.add_zero]
  exact Int.sub_le_sub_left (Int.ofNat_le.mpr (Nat.le_add_right ..)) _

/-- What is overdue is due. -/
theorem RetainedData.isDue_of_isOverdue {d : RetainedData} {now : Instant} {row : d.Row}
    (h : d.isOverdue now row) : d.isDue now row := by
  have hle := d.overdueCutoff_le now
  cases d with
  | customerNames | eventPayloads =>
    simp only [isOverdue, isDue, isPast, Bool.and_eq_true, decide_eq_true_eq] at h ⊢
    exact ⟨h.1, h.2.trans_le hle⟩
  | idempotencyKeys =>
    simp only [isOverdue, isDue, isPast, decide_eq_true_eq] at h ⊢
    exact h.trans_le hle
  | refreshTokens =>
    simp only [isOverdue, isDue, isPast, Bool.or_eq_true, decide_eq_true_eq,
      Option.any_eq_true] at h ⊢
    refine h.imp (fun hlt => hlt.trans_le hle) fun hused => ?_
    exact hused.imp fun _ ht => And.imp_right (fun hlt => hlt.trans_le hle) ht

/-- Where nothing is past its window, the gauge shows nothing. -/
theorem State.Clear.overdueCounts {time : Instant} (h : s.Clear d time) :
    s.overdueCounts time d = 0 := by
  refine List.length_eq_zero_iff.mpr (Table.select_eq_nil.mpr fun id row hrow => ?_)
  refine Bool.eq_false_iff.mpr fun hoverdue => ?_
  have hdue := RetainedData.isDue_of_isOverdue hoverdue
  rw [h id row hrow] at hdue
  cases hdue

/-- The jobs of a call, one after the other. -/
theorem program_ends (c : Call) (s : State) :
    (program c).ends machine (fun inp => inp.failed = false)
      (fun r l' s' => r = .ok () ∧ Caught c.data.reverse s l' s') {} s := by
  have hjobs : ∀ {m : Service Unit}, Ends m (fun _ l' s' => Caught c.data.reverse s l' s') {} s →
      m.run.ends machine (fun inp => inp.failed = false)
        (fun r l' s' => r = .ok () ∧ Caught c.data.reverse s l' s') {} s := by
    refine Prog.ends_mono fun r l' s' hr => ?_
    obtain ⟨_, rfl, hcaught⟩ := hr
    exact ⟨rfl, hcaught⟩
  cases c with
  | nightly =>
    refine hjobs (.bind (((Caught.nil s).run rfl (by decide)).mono fun _ l₁ s₁ h₁ => ?_))
    exact .bind ((h₁.run rfl (by decide)).mono fun _ l₂ s₂ h₂ => h₂.run rfl (by decide))
  | hourly => exact hjobs ((Caught.nil s).run rfl (by decide))

/-- **A run catches up.** Where nobody disturbs a run and no statement of it fails, whatever the
state it finds, the order its rows come in and the time it takes, it ends; of every kind of data it
looks after it reports 100 full batches, or else at some moment of the run no row of the kind was
past its window, and the gauge of overdue rows had nothing to show; and it has handled nothing but
rows that were past their window. -/
theorem retention_catches_up (c : Call) (s : State) {inp : ℕ → Input}
    (hinp : ∀ n, (inp n).failed = false) :
    ∃ ops l' s', (program c).traced machine (fun _ => false) inp {} s = some (ops, .ok (), l', s') ∧
      (∀ d ∈ c.data, l'.reported d = 100000 ∨ ∃ time, s.clock ≤ time ∧ time ≤ s'.clock ∧
        s'.Clear d time ∧ s'.overdueCounts time d = 0) ∧
      ∀ d id, (s'.tables d).get id = (s.tables d).get id ∨
        d ∈ c.data ∧ HandledBetween s s' d id := by
  obtain ⟨ops, r, l', s', htraced, rfl, hcaught⟩ := Prog.ends_traced (program_ends c s) hinp
  refine ⟨ops, l', s', htraced, fun d hd => ?_, fun d id => ?_⟩
  · refine (hcaught.clear d (List.mem_reverse.mpr hd)).imp_right fun ⟨time, hlo, hhi, hclear⟩ => ?_
    exact ⟨time, hlo, hhi, hclear, hclear.overdueCounts⟩
  · exact (hcaught.rows d id).imp_right (And.imp_left List.mem_reverse.mp)

/-- The state a nightly run finds: a name of long ago. -/
def oldName : State where
  clock := 100 * day
  tables
    | .customerNames => (∅ : Table ℕ NamedOrder).put 0 ⟨some "Nok", 0⟩
    | .eventPayloads => ∅
    | .refreshTokens => ∅
    | .idempotencyKeys => ∅
  next _ := 1

theorem retention_catches_up_name : ∃ ops l' s',
    (program .nightly).traced machine (fun _ => false) (fun _ => {}) {} oldName =
      some (ops, .ok (), l', s') ∧
    (∀ d ∈ Call.nightly.data, l'.reported d = 100000 ∨ ∃ time, oldName.clock ≤ time ∧
      time ≤ s'.clock ∧ s'.Clear d time ∧ s'.overdueCounts time d = 0) ∧
    ∀ d id, (s'.tables d).get id = (oldName.tables d).get id ∨
      d ∈ Call.nightly.data ∧ HandledBetween oldName s' d id :=
  retention_catches_up .nightly oldName fun _ => rfl

end alone

end CafePos.RetentionJobs
