import CafePos.Reporting
import CafePos.Capture

/-!
# The unmatched events of a Z-report

The Z-report narrows the unprocessed events to those of its day by
`payment_events.payment_id`. The inbox stores an event without it, and the stamp that fills
it in is the stamp that marks the event processed (`markProcessed`): no unprocessed event
has ever carried it, so the list is empty on every day.
-/

namespace CafePos

open Interleaving

variable {cfg : Config}

/-! ## The inbox -/

/-- What one commit does to the inbox. -/
inductive InboxStep (t t' : Table Id PaymentEvent) : Prop
  | stays : t' = t → InboxStep t t'
  /-- an event is recorded, without a payment -/
  | records {id : Id} {e : PaymentEvent} : t.get id = none →
      (∀ id' e', t.get id' = some e' → e'.providerEventId ≠ e.providerEventId) →
      e.paymentId = none → t' = t.put id e → InboxStep t t'
  /-- an event is marked processed, and may get its payment -/
  | stamps {id : Id} {e e' : PaymentEvent} : t.get id = some e →
      e'.providerEventId = e.providerEventId → e'.processedAt ≠ none → t' = t.put id e' →
      InboxStep t t'

theorem InboxStep.of_stampWrites {id : Id} {e : PaymentEvent} {paymentId : Option Id}
    {now : Instant} {db db' : Db} (he : db.paymentEvents.get id = some e)
    (hdb : db'.paymentEvents = db.paymentEvents) :
    InboxStep db.paymentEvents
      (store.applyAll (stampWrites id e paymentId now) db').paymentEvents := by
  rw [stampWrites]
  split
  · have hput : (store.applyAll [Write.event id { e with
        processedAt := some now, paymentId := paymentId.or e.paymentId }] db').paymentEvents =
        db.paymentEvents.put id
          { e with processedAt := some now, paymentId := paymentId.or e.paymentId } := by
      simp only [Store.applyAll_cons, Store.applyAll_nil, store_apply, Write.apply, hdb]
    refine .stamps he ?_ ?_ hput
    · rfl
    · simp
  · exact .stays hdb

theorem Commits.inboxStep {P : PosPermit} {c : Call} {s : Shared} {ws : List Write}
    (h : Commits cfg P c s ws) :
    InboxStep s.db.paymentEvents (store.applyAll ws s.db).paymentEvents := by
  have helse : (∀ id, c ≠ .processEvent id) → (∀ event, c ≠ .record event) →
      InboxStep s.db.paymentEvents (store.applyAll ws s.db).paymentEvents :=
    fun hp hr => .stays (h.paymentEvents hp hr)
  cases h with
  | record hfree hnew => exact .records hfree hnew rfl rfl
  | skip he => exact .of_stampWrites he rfl
  | markPayment he =>
    rw [Store.applyAll_append]
    exact .of_stampWrites he (applyAll_paymentEvents (forall_settleWrites fun _ _ => by simp) _)
  | markPaid he =>
    rw [applyAll_moveWrites, applyAll_settleWrites (fun h => absurd h Bool.false_ne_true)]
    exact .of_stampWrites he rfl
  | close hcloses => exact helse hcloses.not_inbox.1 hcloses.not_inbox.2
  | _ => exact helse (by simp) (by simp)

/-- What the inbox of every committed state satisfies. -/
structure Inbox (t : Table Id PaymentEvent) : Prop where
  /-- the gateway's event id names one row -/
  once : ∀ {id id' e e'}, t.get id = some e → t.get id' = some e' →
    e.providerEventId = e'.providerEventId → id = id'
  /-- an unprocessed event joins no payment -/
  unjoined : ∀ {id e}, t.get id = some e → e.processedAt = none → e.paymentId = none

namespace Inbox

theorem empty : Inbox ∅ where
  once h := by cases h
  unjoined h := by cases h

/-- A row put under an id whose event id no other row has. -/
theorem put {t : Table Id PaymentEvent} (h : Inbox t) {id : Id} {e : PaymentEvent}
    (hother : ∀ id' e', t.get id' = some e' → e'.providerEventId = e.providerEventId → id' = id)
    (hopen : e.processedAt = none → e.paymentId = none) : Inbox (t.put id e) where
  once {id₁ id₂ e₁ e₂} h₁ h₂ hname := by
    rw [Table.get_put] at h₁ h₂
    split at h₁ <;> split at h₂
    · rename_i hid₁ hid₂
      rw [hid₁, hid₂]
    · rename_i hid₁ _
      obtain rfl := Option.some.inj h₁
      rw [hother id₂ e₂ h₂ hname.symm, hid₁]
    · rename_i _ hid₂
      obtain rfl := Option.some.inj h₂
      rw [hother id₁ e₁ h₁ hname, hid₂]
    · exact h.once h₁ h₂ hname
  unjoined {id₁ e₁} h₁ := by
    rw [Table.get_put] at h₁
    split at h₁
    · obtain rfl := Option.some.inj h₁
      exact hopen
    · exact h.unjoined h₁

theorem step {t t' : Table Id PaymentEvent} (h : Inbox t) (hs : InboxStep t t') : Inbox t' := by
  cases hs with
  | stays heq => exact heq ▸ h
  | records hfree hnew hjoin heq =>
    subst heq
    exact h.put (fun id' e' he' hname => absurd hname (hnew id' e' he')) fun _ => hjoin
  | stamps he hname hdone heq =>
    subst heq
    exact h.put (fun id' e' he' hsame => h.once he' he (hsame.trans hname))
      fun hopen => absurd hopen hdone

end Inbox

theorem Reachable.inbox {w : PosWorld} (h : Reachable cfg w) : Inbox w.shared.db.paymentEvents :=
  h.db_invariant (J := fun db => Inbox db.paymentEvents) .empty
    fun _ _ _ _ hJ hc => hJ.step hc.inboxStep

/-- No unprocessed event joins a payment, so none is attributed to a day. -/
theorem Inbox.unmatchedEventsForDay {db : Db} (h : Inbox db.paymentEvents) (day : String) :
    unmatchedEventsForDay db day (db.unprocessed.map fun e => e.2.providerEventId) = [] := by
  rw [CafePos.unmatchedEventsForDay]
  split
  · rfl
  · rw [List.map_eq_nil_iff, Table.select_eq_nil]
    intro id e he
    by_cases hmem : e.providerEventId ∈ db.unprocessed.map fun e => e.2.providerEventId
    · obtain ⟨⟨id', e'⟩, he', hname⟩ := List.mem_map.mp hmem
      obtain ⟨hget, hopen⟩ := Table.mem_select.mp he'
      obtain rfl := h.once hget he hname
      obtain rfl := Option.some.inj (hget.symm.trans he)
      simp [h.unjoined he (by simpa using hopen)]
    · simp only [List.contains_eq_mem, hmem, decide_false, Bool.false_and]

/-! ## The report -/

/-- The intent a payload is about. -/
def Json.intentId (payload : Json) : Option Json :=
  ((payload.member "data").bind (Json.member "object")).bind (Json.member "id")

/-- The event is still unprocessed, and its payload names the intent of a payment of an order
of the day. -/
def Db.Unmatched (db : Db) (day : String) (e : PaymentEvent) : Prop :=
  e.processedAt = none ∧ ∃ id p, db.payments.get id = some p ∧ db.isOn day p.orderId = true ∧
    p.named e.payload.intentId

/-- The unmatched events of the report are exactly the day's. -/
def ZReport.Attributes (z : ZReport) (db : Db) (day : String) : Prop :=
  ∃ block, z.reconciliation = some block ∧ ∀ name, name ∈ block.unmatchedEvents ↔
    ∃ id e, db.paymentEvents.get id = some e ∧ e.providerEventId = name ∧ db.Unmatched day e

/-- The totals of one day are always there. -/
theorem dayTotals_singleton (localeCompare : String → String → Ordering)
    (rollups : Table String DailySalesRollup) (db : Db) (day : String) :
    ∃ totals row, dayTotals localeCompare rollups db [day] = .ok totals ∧
      totals.get day = some row := by
  simp only [dayTotals]
  generalize List.foldl _ _ (rollups.select _) = stored
  cases hday : stored.get day with
  | none => exact ⟨_, _, by simp [hday, maxLiveDays]; rfl, Table.get_put_self ..⟩
  | some row => exact ⟨stored, row, by simp [hday, maxLiveDays], hday⟩

theorem reconcile_unmatchedEvents {inp : ZInput} {s : Shared} {day : String}
    {report : ReconciliationReport} (h : reconcileWithDeadline inp s day = some report) :
    report.unmatchedEvents = s.db.unprocessed.map fun e => e.2.providerEventId := by
  rw [reconcileWithDeadline] at h
  split at h
  · rw [reconcile] at h
    cases hcaptured : capturedTotalFor inp.reachable s.gateway
        ((s.db.recordedOn day).filterMap fun e => e.2.providerIntentId) with
    | error e => simp [hcaptured, bind, Except.bind, Except.toOption] at h
    | ok r =>
      simp only [hcaptured, bind, Except.bind, Except.toOption, Option.some.injEq] at h
      rw [← h]
  · cases h

/-- The Z-report of a closed day for which the gateway answers lists no event. -/
theorem Reachable.zReport_unmatchedEvents {w : PosWorld} (h : Reachable cfg w)
    (localeCompare : String → String → Ordering) (rollups : Table String DailySalesRollup)
    {inp : ZInput} {day : String} {report : ReconciliationReport}
    (hclosed : day < cfg.businessDayOf inp.now)
    (hanswer : reconcileWithDeadline inp w.shared day = some report) (hscoping : inp.scoping) :
    ∃ z, zReport cfg localeCompare inp rollups w.shared day = .ok (some z) ∧
      z.reconciliation = some { report with unmatchedEvents := [] } := by
  obtain ⟨totals, row, htotals, hrow⟩ := dayTotals_singleton localeCompare rollups w.shared.db day
  have hreport : report.unmatchedEvents =
      w.shared.db.unprocessed.map fun e => e.2.providerEventId := reconcile_unmatchedEvents hanswer
  have hblock : reconciliationBlock inp w.shared day (day == cfg.businessDayOf inp.now) =
      (some { report with unmatchedEvents := [] }, none) := by
    simp [reconciliationBlock, hclosed.ne, hanswer, hscoping, hreport,
      h.inbox.unmatchedEventsForDay]
  refine ⟨⟨day, day == cfg.businessDayOf inp.now, row.ordersCompleted, row.ordersRefunded,
    row.ordersCancelled, row.ordersExpired, row.revenueMinor, row.revenueByMethod,
    row.refundsMinor, row.vatMinor, some { report with unmatchedEvents := [] }, none⟩, ?_, rfl⟩
  simp [zReport, hclosed.not_gt, htotals, hrow, hblock, bind, Except.bind]

/-- A report that lists nothing is right when there is nothing to list. -/
theorem ZReport.attributes_iff {z : ZReport} {db : Db} {day : String}
    {block : ReconciliationReport} (hblock : z.reconciliation = some block)
    (hnone : block.unmatchedEvents = []) : z.Attributes db day ↔
      ∀ id e, db.paymentEvents.get id = some e → ¬ db.Unmatched day e := by
  constructor
  · rintro ⟨block', hblock', hexact⟩ id e he hun
    obtain rfl := Option.some.inj (hblock.symm.trans hblock')
    have hmem := (hexact e.providerEventId).mpr ⟨id, e, he, rfl, hun⟩
    rw [hnone] at hmem
    cases hmem
  · intro hno
    refine ⟨block, hblock, fun name => ?_⟩
    rw [hnone]
    constructor
    · intro hmem
      cases hmem
    · rintro ⟨id, e, he, -, hun⟩
      exact absurd hun (hno id e he)

/-- The unmatched events of the Z-report of a closed day for which the gateway answers are
exactly the unprocessed events about the day's payments if and only if there are none. -/
theorem unmatchedEvents_exact_iff {w : PosWorld} (h : Reachable cfg w)
    (localeCompare : String → String → Ordering) (rollups : Table String DailySalesRollup)
    {inp : ZInput} {day : String} {report : ReconciliationReport}
    (hclosed : day < cfg.businessDayOf inp.now)
    (hanswer : reconcileWithDeadline inp w.shared day = some report) (hscoping : inp.scoping) :
    ∃ z, zReport cfg localeCompare inp rollups w.shared day = .ok (some z) ∧
      (z.Attributes w.shared.db day ↔
        ∀ id e, w.shared.db.paymentEvents.get id = some e → ¬ w.shared.db.Unmatched day e) := by
  obtain ⟨z, hz, hblock⟩ := h.zReport_unmatchedEvents localeCompare rollups hclosed hanswer hscoping
  exact ⟨z, hz, ZReport.attributes_iff hblock rfl⟩

/-- The corner café, with a second business day. -/
def nightCafe : Config :=
  { cornerCafe with businessDayOf := fun now => if now < 1000 then "2026-01-01" else "2026-01-02" }

/-- The Z-report of the first day, asked for on the second. -/
def nextMorning : ZInput := ⟨2000, true, true, true⟩

theorem unmatchedEvents_exact_iff_quiet : ∃ w z, Reachable nightCafe w ∧
    zReport nightCafe compare nextMorning ∅ w.shared "2026-01-01" = .ok (some z) ∧
    z.Attributes w.shared.db "2026-01-01" := by
  obtain ⟨w, hw, hanswer, hempty⟩ := Reachable.exists_of_runIf nightCafe (takeOrder ++ payCash 1 200)
    (fun w => (reconcileWithDeadline nextMorning w.shared "2026-01-01").isSome = true ∧
      (w.shared.db.paymentEvents.select fun _ _ => true) = []) (by decide)
  obtain ⟨report, hreport⟩ := Option.isSome_iff_exists.mp hanswer
  obtain ⟨z, hz, hiff⟩ := unmatchedEvents_exact_iff hw compare ∅ (by decide) hreport rfl
  refine ⟨w, z, hw, hz, hiff.mpr fun id e he => ?_⟩
  exact absurd (Table.select_eq_nil.mp hempty id e he) (by simp)

/-- A success is delivered, and not processed yet. -/
def deliverOnly : List PosAct :=
  .start (.record (eventAboutPi "ev1" "payment_intent.succeeded")) :: steps 2 1 (supply 300 "")

theorem unmatchedEvents_missing : ∃ w z, Reachable nightCafe w ∧
    "2026-01-01" < nightCafe.businessDayOf nextMorning.now ∧
    zReport nightCafe compare nextMorning ∅ w.shared "2026-01-01" = .ok (some z) ∧
    z.reconciliation.isSome ∧ ¬ z.Attributes w.shared.db "2026-01-01" := by
  obtain ⟨w, hw, hanswer, hevent, hpayment⟩ := Reachable.exists_of_runIf nightCafe
    (takeOrder ++ payByCard 1 ++ [.world (.confirm "pi" "ev1")] ++ deliverOnly)
    (fun w => (reconcileWithDeadline nextMorning w.shared "2026-01-01").isSome = true ∧
      ((w.shared.db.paymentEvents.get 300).any fun e => e.processedAt.isNone &&
        Json.isString "pi" e.payload.intentId) = true ∧
      ((w.shared.db.payments.get 200).any fun p => p.providerIntentId == some "pi" &&
        w.shared.db.isOn "2026-01-01" p.orderId) = true) (by decide)
  obtain ⟨report, hreport⟩ := Option.isSome_iff_exists.mp hanswer
  simp only [Option.any_eq_true, Bool.and_eq_true, Option.isNone_iff_eq_none] at hevent
  simp only [Option.any_eq_true, Bool.and_eq_true, beq_iff_eq] at hpayment
  obtain ⟨e, he, hopen, hnames⟩ := hevent
  obtain ⟨p, hp, hintent, hon⟩ := hpayment
  have hclosed : "2026-01-01" < nightCafe.businessDayOf nextMorning.now := by decide
  obtain ⟨z, hz, hblock⟩ := hw.zReport_unmatchedEvents compare ∅ hclosed hreport rfl
  refine ⟨w, z, hw, hclosed, hz, by rw [hblock]; rfl, fun hattr => ?_⟩
  refine (ZReport.attributes_iff hblock rfl).mp hattr 300 e he ⟨hopen, 200, p, hp, hon, ?_⟩
  rw [Payment.named, hintent]
  exact hnames

end CafePos
