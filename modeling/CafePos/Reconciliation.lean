import CafePos.Reporting
import CafePos.Secrets
import CafePos.SameDayRefunds

/-!
# The books and the gateway

`ReconciliationService.reconcile` (`payments/reconciliation/reconciliation.service.ts`) compares,
for one business day, the gateway payments our books call `SUCCEEDED` with what the gateway says of
their intents. The webhook route only records events whose signature it has verified, so an event in
the inbox is one the gateway has raised (`genuine`). In every such run the two agree:

* `Booked` — what ties the inbox and the payments to the gateway, kept by every commit
  (`Booked.commit`) and by every move of the gateway (`Booked.gateway`);
* `reconcile_agrees` — whenever the gateway can be reached, the report of any day has no delta and
  no payment that was not captured.
-/

namespace CafePos

open Interleaving

variable {cfg : Config}

/-! ## Genuine deliveries -/

mutual

/-- The two values are the same. -/
def Json.same : Json → Json → Bool
  | .null, .null => true
  | .bool a, .bool b => a == b
  | .num a, .num b => a == b
  | .str a, .str b => a == b
  | .arr xs, .arr ys => Json.sameAll xs ys
  | .obj ms, .obj ns => Json.sameMembers ms ns
  | _, _ => false
termination_by structural x => x

/-- The two arrays are the same. -/
def Json.sameAll : List Json → List Json → Bool
  | [], [] => true
  | x :: xs, y :: ys => x.same y && Json.sameAll xs ys
  | _, _ => false
termination_by structural xs => xs

/-- The two objects are the same, member by member. -/
def Json.sameMembers : List (String × Json) → List (String × Json) → Bool
  | [], [] => true
  | m :: ms, n :: ns => Json.sameMember m n && Json.sameMembers ms ns
  | _, _ => false
termination_by structural ms => ms

/-- The two members are the same. -/
def Json.sameMember : String × Json → String × Json → Bool
  | (name, x), (name', y) => name == name' && x.same y
termination_by structural m => m

end

mutual

theorem Json.eq_of_same : ∀ x y : Json, x.same y = true → x = y
  | .null, y, h => by cases y <;> simp_all [Json.same]
  | .bool a, y, h => by cases y <;> simp_all [Json.same]
  | .num a, y, h => by cases y <;> simp_all [Json.same]
  | .str a, y, h => by cases y <;> simp_all [Json.same]
  | .arr xs, y, h => by
    cases y with
    | arr ys => rw [Json.eq_of_sameAll xs ys (by simpa [Json.same] using h)]
    | _ => simp [Json.same] at h
  | .obj ms, y, h => by
    cases y with
    | obj ns => rw [Json.eq_of_sameMembers ms ns (by simpa [Json.same] using h)]
    | _ => simp [Json.same] at h

theorem Json.eq_of_sameAll : ∀ xs ys : List Json, Json.sameAll xs ys = true → xs = ys
  | [], ys, h => by cases ys <;> simp_all [Json.sameAll]
  | x :: xs, [], h => by simp [Json.sameAll] at h
  | x :: xs, y :: ys, h => by
    simp only [Json.sameAll, Bool.and_eq_true] at h
    rw [Json.eq_of_same x y h.1, Json.eq_of_sameAll xs ys h.2]

theorem Json.eq_of_sameMembers :
    ∀ ms ns : List (String × Json), Json.sameMembers ms ns = true → ms = ns
  | [], ns, h => by cases ns <;> simp_all [Json.sameMembers]
  | m :: ms, [], h => by simp [Json.sameMembers] at h
  | m :: ms, n :: ns, h => by
    simp only [Json.sameMembers, Bool.and_eq_true] at h
    rw [Json.eq_of_sameMember m n h.1, Json.eq_of_sameMembers ms ns h.2]

theorem Json.eq_of_sameMember : ∀ m n : String × Json, Json.sameMember m n = true → m = n
  | (name, x), (name', y), h => by
    simp only [Json.sameMember, Bool.and_eq_true, beq_iff_eq] at h
    rw [h.1, Json.eq_of_same x y h.2]

end

/-- An event that is recorded has been raised by the gateway. -/
def genuine : Call → Op → Sess → Shared → Bool
  | .record event, _, _, s => s.gateway.events.any fun e => e.eventId == event.eventId &&
      e.type == event.type && e.payload.same event.payload
  | _, _, _, _ => true

theorem mem_events_of_genuine {event : GatewayEvent} {o : Op} {l : Sess} {s : Shared}
    (h : genuine (.record event) o l s = true) : event ∈ s.gateway.events := by
  simp only [genuine, List.any_eq_true, Bool.and_eq_true, beq_iff_eq] at h
  obtain ⟨e, he, ⟨hid, htype⟩, hpayload⟩ := h
  have heq : e = event := by
    cases e
    cases event
    simp only [GatewayEvent.mk.injEq]
    exact ⟨hid, htype, Json.eq_of_same _ _ hpayload⟩
  exact heq ▸ he

/-! ## What the gateway stands for -/

/-- The gateway has raised an event with this payload. -/
def Gateway.Raised (g : Gateway) (payload : Json) : Prop := ∃ e ∈ g.events, e.payload = payload

/-- The intent a payload is about, if it reports a success, has succeeded. -/
def Gateway.Supports (g : Gateway) (payload : Json) : Prop :=
  ∀ intentId amountMinor currency,
    toOutcome payload = some (.succeeded intentId amountMinor currency) →
    ∃ i it, intentId = some (.str i) ∧ g.intents.get i = some it ∧ it.status = .succeeded

/-- A gateway payment has an intent for its amount, and a `SUCCEEDED` one an intent that has
succeeded. -/
def Gateway.Backs (g : Gateway) (p : Payment) : Prop :=
  p.provider = .stripe → ∃ i it, p.providerIntentId = some i ∧ g.intents.get i = some it ∧
    it.amount = p.amountMinor ∧ (p.status = .succeeded → it.status = .succeeded)

/-- What ties the books to the gateway. -/
structure Booked (s : Shared) : Prop where
  /-- the gateway's own events are true -/
  supported : ∀ e ∈ s.gateway.events, s.gateway.Supports e.payload
  /-- the inbox holds events of the gateway only -/
  raised : ∀ id e, s.db.paymentEvents.get id = some e → s.gateway.Raised e.payload
  /-- every gateway payment is backed -/
  backed : ∀ id p, s.db.payments.get id = some p → s.gateway.Backs p

theorem Booked.opening : Booked opening.shared where
  supported _ he := absurd he List.not_mem_nil
  raised _ _ he := by cases he
  backed _ _ hp := by cases hp

/-! ## Moves of the gateway -/

/-- An intent that has succeeded stays so. -/
theorem Gateway.Supports.grows {g g' : Gateway} {payload : Json} (h : g.Supports payload)
    (hg : g.Grows g') : g'.Supports payload := by
  intro intentId amountMinor currency hout
  obtain ⟨i, it, hi, hget, hsucc⟩ := h intentId amountMinor currency hout
  obtain ⟨it', hget', hevolves⟩ := hg i it hget
  refine ⟨i, it', hi, hget', ?_⟩
  rw [hevolves.dead (by simp [hsucc]), hsucc]

theorem Gateway.Backs.grows {g g' : Gateway} {p : Payment} (h : g.Backs p) (hg : g.Grows g') :
    g'.Backs p := by
  intro hp
  obtain ⟨i, it, hi, hget, hamount, hsucc⟩ := h hp
  obtain ⟨it', hget', hevolves⟩ := hg i it hget
  refine ⟨i, it', hi, hget', hevolves.amount.trans hamount, fun hs => ?_⟩
  rw [hevolves.dead (by simp [hsucc hs]), hsucc hs]

/-- The gateway moves on, raising at most one event, which is true. -/
theorem Booked.gateway {s : Shared} (h : Booked s) {g : Gateway} (hg : s.gateway.Grows g)
    (hevents : g.events = s.gateway.events ∨
      ∃ e, g.events = s.gateway.events ++ [e] ∧ g.Supports e.payload) : Booked ⟨s.db, g⟩ := by
  have hkept : ∀ e ∈ s.gateway.events, e ∈ g.events := by
    rcases hevents with heq | ⟨e', heq, -⟩
    · simp [heq]
    · exact fun e he => heq ▸ List.mem_append_left _ he
  refine ⟨fun e he => ?_, fun id e he => ?_, fun id p hp => (h.backed id p hp).grows hg⟩
  · rcases hevents with heq | ⟨e', heq, htrue⟩
    · apply (h.supported e (heq ▸ he)).grows hg
    · change e ∈ g.events at he
      rw [heq] at he
      rcases List.mem_append.mp he with hold | hnew
      · apply (h.supported e hold).grows hg
      · rw [List.mem_singleton.mp hnew]
        exact htrue
  · obtain ⟨e', he', hpayload⟩ := h.raised id e he
    exact ⟨e', hkept e' he', hpayload⟩

/-- A request of ours raises nothing, or the cancellation it asked for. -/
theorem Gateway.Moves.events {g g' : Gateway} (h : g.Moves g') :
    g'.events = g.events ∨ ∃ e, g'.events = g.events ++ [e] ∧ g'.Supports e.payload := by
  rcases h with ⟨inp, request, r, hcreate⟩ | ⟨inp, i, rfl⟩
  · left
    simp only [stripeCreate] at hcreate
    split at hcreate
    · obtain ⟨-, rfl⟩ := Prod.mk.inj (Option.some.inj hcreate)
      rfl
    · split at hcreate
      · split at hcreate <;>
        · obtain ⟨-, rfl⟩ := Prod.mk.inj (Option.some.inj hcreate)
          rfl
      · split at hcreate
        · cases hcreate
        · obtain ⟨-, rfl⟩ := Prod.mk.inj (Option.some.inj hcreate)
          rfl
  · simp only [stripeCancel]
    split
    · exact Or.inl rfl
    · split
      · split
        · refine Or.inr ⟨_, rfl, fun intentId amountMinor currency hout => ?_⟩
          rw [toOutcome_canceled] at hout
          cases hout
        · exact Or.inl rfl
      · exact Or.inl rfl

/-- The customer's confirmation captures the money it reports. -/
theorem Booked.happen {s s' : Shared} (h : Booked s) {e : Happening} (hs : happen e s = some s') :
    Booked s' := by
  cases e with
  | confirm i eventId =>
    obtain ⟨g, hg, rfl⟩ := Option.map_eq_some_iff.mp hs
    apply h.gateway (.confirm hg)
    simp only [Gateway.confirm] at hg
    split at hg
    · rename_i it hi
      split at hg
      · obtain rfl := Option.some.inj hg
        refine Or.inr ⟨_, rfl, fun intentId amountMinor currency hout => ?_⟩
        rw [toOutcome_succeeded] at hout
        obtain ⟨rfl, -, -⟩ := GatewayOutcome.succeeded.inj (Option.some.inj hout)
        exact ⟨i, { it with status := .succeeded }, rfl, Table.get_put_self .., rfl⟩
      · cases hg
    · cases hg
  | decline i eventId =>
    obtain ⟨g, hg, rfl⟩ := Option.map_eq_some_iff.mp hs
    apply h.gateway (.decline hg)
    simp only [Gateway.decline] at hg
    split at hg
    · split at hg
      · obtain rfl := Option.some.inj hg
        refine Or.inr ⟨_, rfl, fun intentId amountMinor currency hout => ?_⟩
        rw [toOutcome_payment_failed] at hout
        cases hout
      · cases hg
    · cases hg

/-! ## Commits -/

/-- The write keeps the books tied to the gateway. -/
def Write.tied (g : Gateway) : Write → Prop
  | .payment _ p => g.Backs p
  | .event _ e => g.Raised e.payload
  | _ => True

/-- An event after a log: what it was, or what the log wrote. -/
theorem get_event_applyAll {ws : List Write} {db : Db} {id : Id} {e : PaymentEvent}
    (h : (store.applyAll ws db).paymentEvents.get id = some e) :
    db.paymentEvents.get id = some e ∨ .event id e ∈ ws := by
  induction ws generalizing db with
  | nil => exact Or.inl h
  | cons w ws ih =>
    rcases ih h with h | h
    · cases w with
      | event id' e' =>
        simp only [store_apply, Write.apply, Table.get_put] at h
        split at h
        · rename_i hid
          obtain rfl := Option.some.inj h
          subst hid
          exact Or.inr List.mem_cons_self
        · exact Or.inl h
      | _ => exact Or.inl h
    · exact Or.inr (List.mem_cons_of_mem _ h)

/-- A stamp leaves the payload alone. -/
theorem tied_stampWrites {g : Gateway} {id : Id} {e : PaymentEvent} (h : g.Raised e.payload)
    (paymentId : Option Id) (now : Instant) : ∀ w ∈ stampWrites id e paymentId now, w.tied g := by
  intro w hw
  rw [stampWrites] at hw
  split at hw
  · rw [List.mem_singleton.mp hw]
    exact h
  · cases hw

/-- A payment that has not succeeded is backed as it was. -/
theorem Gateway.Backs.unpaid {g : Gateway} {p : Payment} (h : g.Backs p) {status : PaymentStatus}
    (hstatus : status ≠ .succeeded) (method : Option PaymentMethod) :
    g.Backs { p with status, method } := by
  intro hp
  obtain ⟨i, it, hi, hget, hamount, -⟩ := h hp
  exact ⟨i, it, hi, hget, hamount, fun hs => absurd hs hstatus⟩

/-- A payment that a true success captures is backed when it becomes `SUCCEEDED`. -/
theorem Booked.captured {s : Shared} (h : Booked s) {eventId id : Id} {e : PaymentEvent}
    {p : Payment} (he : s.db.paymentEvents.get eventId = some e)
    (hp : s.db.payments.get id = some p) (hcap : captures e p) (method : Option PaymentMethod) :
    s.gateway.Backs { p with status := .succeeded, method } := by
  intro hstripe
  obtain ⟨i, it, hi, hget, hamount, -⟩ := h.backed id p hp hstripe
  obtain ⟨intentId, amount, hout, hnamed, -⟩ := captures_iff.mp hcap
  obtain ⟨event, hevent, hpayload⟩ := h.raised eventId e he
  obtain ⟨i', it', rfl, hget', hsucc⟩ := h.supported event hevent intentId amount p.currency
    (hpayload ▸ hout)
  -- the event names the payment's own intent
  have hsame : i' = i := by
    simpa [Payment.named, hi, Json.isString] using hnamed
  rw [hsame, hget] at hget'
  obtain rfl := Option.some.inj hget'
  exact ⟨i, it, hi, hget, hamount, fun _ => hsucc⟩

/-- What a call may commit keeps the books tied to the gateway. -/
theorem Commits.tied {P : PosPermit} {c : Call} {s : Shared} {ws : List Write}
    (hc : Commits cfg P c s ws) (h : Booked s)
    (hgenuine : ∀ event, c = .record event → event ∈ s.gateway.events) :
    ∀ w ∈ ws, w.tied s.gateway := by
  have hmove : ∀ {r : TransitionRequest} {row : Order}, ∀ w ∈ moveWrites r row,
      w.tied s.gateway := forall_moveWrites (φ := Write.tied s.gateway) trivial trivial
  cases hc with
  | create =>
    refine forall_underKey (φ := Write.tied s.gateway) (fun _ _ => trivial) ?_ _ _ _
    exact forall_createWrites trivial trivial (fun _ => trivial) trivial
  | checkout =>
    refine List.forall_mem_append.mpr ⟨hmove, ?_⟩
    simp [Write.tied]
  | cash hm ht hle hkey hrow hpending hp =>
    subst hp
    refine forall_underKey (φ := Write.tied s.gateway) (fun _ _ => trivial) ?_ _ _ _
    exact List.forall_mem_cons.mpr ⟨fun hstripe => (by cases hstripe), hmove⟩
  | openPayment hm hkey hrow hmine hp hopened =>
    subst hp
    refine forall_underKey (φ := Write.tied s.gateway) (fun _ _ => trivial) ?_ _ _ _
    refine List.forall_mem_singleton.mpr fun _ => ?_
    obtain ⟨it, hget, -, hamount, -⟩ := hopened
    exact ⟨_, it, rfl, hget, hamount, fun hs => by cases hs⟩
  | record =>
    exact List.forall_mem_singleton.mpr ⟨_, hgenuine _ rfl, rfl⟩
  | skip he => exact tied_stampWrites (h.raised _ _ he) _ _
  | markPayment he hno hp hstatus =>
    refine List.forall_mem_append.mpr ⟨?_, tied_stampWrites (h.raised _ _ he) _ _⟩
    refine forall_settleWrites (φ := Write.tied s.gateway) ((h.backed _ _ hp).unpaid ?_ _)
    rcases hstatus with rfl | rfl <;> simp
  | markPaid he hp hcap hrow hpending =>
    refine List.forall_mem_append.mpr ⟨hmove, List.forall_mem_append.mpr ⟨?_, ?_⟩⟩
    · exact forall_settleWrites (φ := Write.tied s.gateway) (h.captured he hp hcap _)
    · exact tied_stampWrites (h.raised _ _ he) _ _
  | close hcl hrow hsrc hlive =>
    refine List.forall_mem_append.mpr ⟨hmove, ?_⟩
    refine forall_liveWrites (φ := Write.tied s.gateway) fun q hq => ?_
    exact (h.backed _ _ (hlive q hq).1).unpaid (by simp) _
  | staff => exact hmove
  | refundPart => simp [Write.tied]
  | refundAll => exact List.forall_mem_cons.mpr ⟨trivial, hmove⟩

theorem Booked.commit {P : PosPermit} {c : Call} {s : Shared} {ws : List Write} (h : Booked s)
    (hc : Commits cfg P c s ws) (hgenuine : ∀ event, c = .record event → event ∈ s.gateway.events) :
    Booked ⟨store.applyAll ws s.db, s.gateway⟩ where
  supported := h.supported
  raised id e he := by
    rcases get_event_applyAll he with hold | hnew
    · exact h.raised id e hold
    · exact hc.tied h hgenuine _ hnew
  backed id p hp := by
    rcases get_payment_applyAll hp with hold | hnew
    · exact h.backed id p hold
    · exact hc.tied h hgenuine _ hnew

/-- The runs in which only genuine events are recorded. -/
def bookedContext (cfg : Config) : Context cfg where
  permit := .ofCheck genuine
  extra := Booked
  move hp _ h hm := hm.preserves h (fun _ hg => h.gateway hg.grows hg.events)
    fun _ hc _ _ => h.commit hc fun _ hrecord => mem_events_of_genuine (hrecord ▸ hp)
  happen _ _ h hs := h.happen hs

/-! ## The report -/

/-- The gateway has captured exactly what backed payments that succeeded are for. -/
theorem capturedTotalFor_backed {g : Gateway} {ps : List (Id × Payment)}
    (h : ∀ e ∈ ps, e.2.provider = .stripe ∧ e.2.status = .succeeded ∧ g.Backs e.2) :
    capturedTotalFor true g (ps.filterMap fun e => e.2.providerIntentId) =
      .ok ((ps.map fun e => e.2.amountMinor).sum, []) := by
  induction ps with
  | nil => rfl
  | cons e ps ih =>
    obtain ⟨hstripe, hsucc, hbacked⟩ := h e List.mem_cons_self
    obtain ⟨i, it, hi, hget, hamount, hcaptured⟩ := hbacked hstripe
    have hrest := ih fun e' he' => h e' (List.mem_cons_of_mem _ he')
    simp [hi, capturedTotalFor, hget, hrest, hcaptured hsucc, hamount]

/-- **The books and the gateway agree**: in every run in which the inbox records the gateway's own
events, a reconciliation of any business day that reads the books in one state, and reaches the
gateway in any later one, finds that the gateway has captured what our books say, payment by
payment. -/
theorem reconcile_agrees {w w' : PosWorld} (h : Runs (system cfg) (.ofCheck genuine) opening w)
    (hlater : Runs (system cfg) .all w w') (businessDay : String) :
    ∃ report, reconcile true ⟨w.shared.db, w'.shared.gateway⟩ businessDay = .ok report ∧
      report.deltaMinor = 0 ∧ report.gatewayCapturedMinor = report.dbRecordedMinor ∧
      report.notCaptured = [] := by
  have hbooked : Booked w.shared := ((bookedContext cfg).holds Booked.opening h).2
  have hreachable : Reachable cfg w := h.mono fun w a _ => Runs.allows_all w a
  have hgrows : w.shared.gateway.Grows w'.shared.gateway := (hreachable.grows hlater).gateway
  have hrecorded : ∀ e ∈ w.shared.db.recordedOn businessDay, e.2.provider = .stripe ∧
      e.2.status = .succeeded ∧ w'.shared.gateway.Backs e.2 := by
    intro e he
    obtain ⟨hget, hp⟩ := Table.mem_select.mp he
    simp only [Bool.and_eq_true, beq_iff_eq] at hp
    exact ⟨hp.1.2, hp.2, (hbooked.backed _ _ hget).grows hgrows⟩
  have hcaptured := capturedTotalFor_backed hrecorded
  refine ⟨_, by rw [reconcile, hcaptured]; rfl, ?_, rfl, rfl⟩
  exact sub_self _

theorem reconcile_agrees_latte : ∃ w, Runs (system cornerCafe) (.ofCheck genuine) opening w ∧
    w.shared.db.recordedOn "2026-01-01" ≠ [] ∧
    ∃ report, reconcile true w.shared "2026-01-01" = .ok report ∧ report.deltaMinor = 0 ∧
      report.gatewayCapturedMinor = report.dbRecordedMinor ∧ report.notCaptured = [] := by
  obtain ⟨w, hw, hrow⟩ := exists_of_check cornerCafe genuine
    (takeOrder ++ payByCard 1 ++ .world (.confirm "pi" "ev1") ::
      deliver 2 (eventAboutPi "ev1" "payment_intent.succeeded") 300 12)
    (fun w => (w.shared.db.recordedOn "2026-01-01").isEmpty = false) (by decide +kernel)
  exact ⟨w, hw, List.isEmpty_eq_false_iff.mp hrow, reconcile_agrees hw .refl "2026-01-01"⟩

end CafePos
