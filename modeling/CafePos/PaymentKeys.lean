import CafePos.Capture
import CafePos.KeySteps

/-!
# Payment idempotency

A retry of `CreatePaymentService.create` should be answered with the payment of the call it
repeats. Unlike for orders, the look at the stored response, the payability checks, the
gateway call and the reservation are four separate steps. A retry that looked too early, finds
no response, and checks payability too late, finds an order that the original has paid for
meanwhile: it is refused with a 409 about state that it caused itself, which is what the look
at the stored response is there to prevent.
-/

namespace CafePos

open Interleaving

variable {cfg : Config}

/-! ## One intent a key -/

/-- The gateway has one intent for each key. -/
def Gateway.OneIntentAKey (g : Gateway) : Prop :=
  ∀ i i' it it' k, g.intents.get i = some it → g.intents.get i' = some it' →
    it.idempotencyKey = some k → it'.idempotencyKey = some k → i = i'

/-- Another status for an intent changes no key. -/
theorem Gateway.OneIntentAKey.setStatus {g : Gateway} (h : g.OneIntentAKey) {i : String}
    {it : Intent} (hi : g.intents.get i = some it) (status : IntentStatus) :
    (g.setStatus i it status).OneIntentAKey := by
  have hget : ∀ {j jt k}, (g.setStatus i it status).intents.get j = some jt →
      jt.idempotencyKey = some k → ∃ jt', g.intents.get j = some jt' ∧
        jt'.idempotencyKey = some k := by
    intro j jt k hj hk
    simp only [Gateway.setStatus, Table.get_put] at hj
    split at hj
    · rename_i hji
      obtain rfl := Option.some.inj hj
      subst hji
      exact ⟨it, hi, hk⟩
    · exact ⟨jt, hj, hk⟩
  intro j j' jt jt' k hj hj' hk hk'
  obtain ⟨u, hu, huk⟩ := hget hj hk
  obtain ⟨u', hu', huk'⟩ := hget hj' hk'
  exact h j j' u u' k hu hu' huk huk'

theorem Gateway.OneIntentAKey.moves {g g' : Gateway} (h : g.OneIntentAKey) (hg : g.Moves g') :
    g'.OneIntentAKey := by
  rcases hg with ⟨inp, request, r, hr⟩ | ⟨inp, i, rfl⟩
  · simp only [stripeCreate] at hr
    split at hr
    · obtain ⟨-, rfl⟩ := Prod.mk.inj (Option.some.inj hr)
      exact h
    · split at hr
      · split at hr
        · obtain ⟨-, rfl⟩ := Prod.mk.inj (Option.some.inj hr)
          exact h
        · obtain ⟨-, rfl⟩ := Prod.mk.inj (Option.some.inj hr)
          exact h
      · rename_i hnone
        split at hr
        · cases hr
        · obtain ⟨-, rfl⟩ := Prod.mk.inj (Option.some.inj hr)
          -- the key of a new intent is on no other
          have hnew : ∀ {j jt k}, g.intents.get j = some jt → jt.idempotencyKey = some k →
              request.idempotencyKey ≠ some k := by
            intro j jt k hj hk hreq
            rw [hreq, Gateway.byKey.eq_def, List.head?_eq_none_iff, Table.select_eq_nil] at hnone
            simpa [hk] using hnone j jt hj
          intro j j' jt jt' k hj hj' hk hk'
          simp only [Table.get_put] at hj hj'
          split at hj
          · rename_i hji
            obtain rfl := Option.some.inj hj
            split at hj'
            · rename_i hji'
              exact hji.trans hji'.symm
            · exact absurd hk (hnew hj' hk')
          · split at hj'
            · obtain rfl := Option.some.inj hj'
              exact absurd hk' (hnew hj hk)
            · exact h j j' jt jt' k hj hj' hk hk'
  · simp only [stripeCancel]
    split
    · exact h
    · split
      · rename_i it hi
        split
        · exact h.setStatus hi _
        · exact h
      · exact h

theorem Reachable.oneIntentAKey {w : PosWorld} (h : Reachable cfg w) :
    w.shared.gateway.OneIntentAKey := by
  refine h.invariant (J := fun s => s.gateway.OneIntentAKey) (fun _ _ _ _ _ hi => by cases hi)
    (fun _ _ _ _ hJ _ => hJ) (fun _ _ hJ hg => hJ.moves hg) ?_
  intro e s s' hJ hs
  cases e with
  | confirm i eventId =>
    obtain ⟨g, hg, rfl⟩ := Option.map_eq_some_iff.mp hs
    simp only [Gateway.confirm] at hg
    split at hg
    · rename_i it hi
      split at hg
      · obtain rfl := Option.some.inj hg
        exact hJ.setStatus hi _
      · cases hg
    · cases hg
  | decline i eventId =>
    obtain ⟨g, hg, rfl⟩ := Option.map_eq_some_iff.mp hs
    simp only [Gateway.decline] at hg
    split at hg
    · split at hg
      · obtain rfl := Option.some.inj hg
        exact hJ
      · cases hg
    · cases hg

/-! ## A payment under a key -/

/-- The key of a stored payment is stored. -/
def KeyedPayments (db : Db) : Prop :=
  ∀ id p k, db.payments.get id = some p → p.idempotencyKey = some k →
    db.idempotencyKeys.get k ≠ none

/-- A payment in a log is an old one, or carries the key of its call. -/
theorem Commits.payment_key {P : PosPermit} {c : Call} {s : Shared} {ws : List Write}
    (h : Commits cfg P c s ws) : ∀ w ∈ ws, ∀ id p, w = .payment id p →
      (∃ p₀, s.db.payments.get id = some p₀ ∧ p₀.idempotencyKey = p.idempotencyKey) ∨
        p.idempotencyKey = c.key := by
  have hmove : ∀ {r : TransitionRequest} {row : Order}, ∀ w ∈ moveWrites r row, ∀ id p,
      w = .payment id p →
      (∃ p₀, s.db.payments.get id = some p₀ ∧ p₀.idempotencyKey = p.idempotencyKey) ∨
        p.idempotencyKey = c.key :=
    forall_moveWrites (fun _ _ h => by cases h) (fun _ _ h => by cases h)
  have hsettle : ∀ {id : Id} {p : Payment} {status : PaymentStatus}
      {method : Option PaymentMethod} {guarded : Bool}, s.db.payments.get id = some p →
      ∀ w ∈ settleWrites id p status method guarded, ∀ id p, w = .payment id p →
      (∃ p₀, s.db.payments.get id = some p₀ ∧ p₀.idempotencyKey = p.idempotencyKey) ∨
        p.idempotencyKey = c.key := by
    refine fun hp => forall_settleWrites fun _ _ h => ?_
    obtain ⟨rfl, rfl⟩ := Write.payment.inj h
    exact Or.inl ⟨_, hp, rfl⟩
  have hstamp : ∀ {id : Id} {e : PaymentEvent} {paymentId : Option Id} {now : Instant},
      ∀ w ∈ stampWrites id e paymentId now, ∀ id p, w = .payment id p →
      (∃ p₀, s.db.payments.get id = some p₀ ∧ p₀.idempotencyKey = p.idempotencyKey) ∨
        p.idempotencyKey = c.key :=
    forall_stampWrites fun _ _ _ h => by cases h
  cases h with
  | create =>
    exact forall_underKey (fun _ _ _ _ h => by cases h)
      (forall_createWrites (fun _ _ h => by cases h) (fun _ _ h => by cases h)
        (fun _ _ _ h => by cases h) (fun _ _ h => by cases h)) _ _ _
  | checkout => exact List.forall_mem_append.mpr ⟨hmove, by simp⟩
  | cash hm ht hle hkey hrow hpending hp hfree hconf hstore =>
    subst hp
    refine forall_underKey (fun _ _ _ _ h => by cases h)
      (List.forall_mem_cons.mpr ⟨fun _ _ h => ?_, hmove⟩) _ _ _
    obtain ⟨-, rfl⟩ := Write.payment.inj h
    exact Or.inr rfl
  | openPayment hm hkey hrow hmine hp hopened hfree hconf hstore =>
    subst hp
    refine forall_underKey (fun _ _ _ _ h => by cases h)
      (List.forall_mem_singleton.mpr fun _ _ h => ?_) _ _ _
    obtain ⟨-, rfl⟩ := Write.payment.inj h
    exact Or.inr rfl
  | record => simp
  | skip => exact hstamp
  | markPayment he hno hp hstatus => exact List.forall_mem_append.mpr ⟨hsettle hp, hstamp⟩
  | markPaid he hp hcap hrow hpending =>
    exact List.forall_mem_append.mpr
      ⟨hmove, List.forall_mem_append.mpr ⟨hsettle hp, hstamp⟩⟩
  | close hcloses hrow hsrc hlive =>
    refine List.forall_mem_append.mpr ⟨hmove, forall_liveWrites fun q hq _ _ h => ?_⟩
    obtain ⟨rfl, rfl⟩ := Write.payment.inj h
    exact Or.inl ⟨_, (hlive q hq).1, rfl⟩
  | staff => exact hmove
  | refundPart => simp
  | refundAll => exact List.forall_mem_cons.mpr ⟨fun _ _ h => (by cases h), hmove⟩

/-- A call that commits leaves its key answered. -/
theorem Commits.key_stored {P : PosPermit} {c : Call} {s : Shared} {ws : List Write}
    (h : Commits cfg P c s ws) {k : String} (hk : c.key = some k) :
    (store.applyAll ws s.db).idempotencyKeys.get k ≠ none := by
  cases h.keyStep with
  | stays hkey _ =>
    rw [hk] at hkey
    cases hkey
  | answers hkey hfree hws hans =>
    obtain rfl := Option.some.inj (hk.symm.trans hkey)
    rw [applyAll_underKey hws]
    simp only [keysAfter, Table.get_put_self]
    exact Option.some_ne_none _

theorem KeyedPayments.commit {P : PosPermit} {c : Call} {s : Shared} {ws : List Write}
    (h : KeyedPayments s.db) (hs : Settled s.db) (hc : Commits cfg P c s ws) :
    KeyedPayments (store.applyAll ws s.db) := by
  have hkeep : ∀ {k}, s.db.idempotencyKeys.get k ≠ none →
      (store.applyAll ws s.db).idempotencyKeys.get k ≠ none := by
    intro k hk
    obtain ⟨row, hrow⟩ := Option.ne_none_iff_exists'.mp hk
    obtain ⟨row', hrow', -⟩ := (hc.grows hs).idempotencyKeys k row hrow
    rw [hrow']
    exact Option.some_ne_none _
  intro id p k hp hk
  rcases (hc.paymentStep hs).get hp with ⟨hold, -⟩ | hnew
  · exact hkeep (h id p k hold hk)
  · rcases hc.payment_key _ hnew id p rfl with ⟨p₀, hp₀, hsame⟩ | hkey
    · exact hkeep (h id p₀ k hp₀ (hsame.trans hk))
    · exact hc.key_stored (hkey.symm.trans hk)

/-- A call of `CreatePaymentService.create` has committed payment `pid` under its key: what the
key stands for, and why the call was not refused. -/
structure PaidUnder (cfg : Config) (principal : Principal) (orderId : Id)
    (input : CreatePaymentInput) (k : String) (pid : Id) (s : Shared) : Prop where
  stored : ∃ view, Stored s.db k (paymentHash cfg principal orderId input) (.payment view) ∧
    view.id = pid
  allowed : ∃ p o, s.db.payments.get pid = some p ∧ s.db.orders.get orderId = some o ∧
    foreign principal o = false ∧ p.storable ∧ p.amountMinor = o.totalMinor ∧
    p.cashTenderedMinor = (if input.method = .cash then input.cashTenderedMinor else none) ∧
    (input.method = .cash → ∃ userId tendered, principal = .staff userId ∧
      input.cashTenderedMinor = some tendered ∧ o.totalMinor ≤ tendered) ∧
    (input.method ≠ .cash → ∃ i it, s.gateway.intents.get i = some it ∧
      it.idempotencyKey = some k ∧ it.Answers ⟨o.totalMinor, o.currency, some k, orderId⟩)

theorem Payment.Evolves.cashTenderedMinor {p p' : Payment} (h : p.Evolves p') :
    p'.cashTenderedMinor = p.cashTenderedMinor := by rw [← h.terms]

theorem Payment.Evolves.storable {p p' : Payment} (h : p.Evolves p') :
    p'.storable = p.storable := by
  rw [Payment.storable, h.amountMinor, h.cashTenderedMinor, Payment.storable]

/-- Nothing of it changes later. -/
theorem PaidUnder.grows {principal : Principal} {orderId : Id} {input : CreatePaymentInput}
    {k : String} {pid : Id} {s s' : Shared} (h : PaidUnder cfg principal orderId input k pid s)
    (hs : Grows s s') : PaidUnder cfg principal orderId input k pid s' := by
  obtain ⟨view, hview, hid⟩ := h.stored
  obtain ⟨p, o, hp, ho, hmine, hstore, hamount, htender, hcash, hgateway⟩ := h.allowed
  obtain ⟨p', hp', hevp⟩ := hs.payment hp
  obtain ⟨o', ho', hevo⟩ := hs.order ho
  refine ⟨⟨view, hview.grows hs, hid⟩, p', o', hp', ho', ?_, ?_, ?_, ?_, ?_, ?_⟩
  · rw [foreign_of_evolves hevo]
    exact hmine
  · rw [hevp.storable]
    exact hstore
  · rw [hevp.amountMinor, hevo.totalMinor]
    exact hamount
  · rw [hevp.cashTenderedMinor]
    exact htender
  · rw [hevo.totalMinor]
    exact hcash
  · intro hm
    obtain ⟨i, it, hi, hk, ha, hc, hio⟩ := hgateway hm
    obtain ⟨it', hi', hev⟩ := hs.intent hi
    refine ⟨i, it', hi', hev.idempotencyKey.trans hk, hev.amount.trans ?_, hev.currency.trans ?_,
      hev.orderId.trans hio⟩
    · rw [hevo.totalMinor]
      exact ha
    · rw [hevo.currency]
      exact hc

/-- So it is right after the commit. -/
theorem PaidUnder.of_commits {principal : Principal} {orderId : Id} {input : CreatePaymentInput}
    {k : String} {s : Shared} {ws : List Write} (hs : Settled s.db)
    (hc : Commits cfg .all (.createPayment principal orderId input (some k)) s ws) {pid : Id}
    {q : Payment} (hq : .payment pid q ∈ ws) :
    PaidUnder cfg principal orderId input k pid (s.commit ws) := by
  have hpaid := (hc.paymentStep hs).get_of_mem hq
  have hgrow : Grows s (s.commit ws) := hc.commit_grows hs
  cases hc with
  | close hcloses => cases hcloses
  | @cash _ userId _ id tendered _ _ row expiry p hm ht hle hkey hrow hpending hp hfree hconf
      hstore =>
    have hws : ∀ w ∈ Write.payment id p :: moveWrites ⟨orderId, .pendingPayment, .paid,
        ⟨.user, some userId⟩, none⟩ row, ∀ k row, w ≠ .key k row := by
      simp [moveWrites]
    -- the log holds one payment
    have hmem : (pid, q) ∈ [(id, p)] := by
      have h := mem_paymentWrites.mpr hq
      rw [paymentWrites_underKey] at h
      exact h
    obtain ⟨rfl, rfl⟩ := Prod.mk.inj (List.mem_singleton.mp hmem)
    obtain ⟨o, ho, hev⟩ := hgrow.order hrow
    refine ⟨⟨_, stored_commit hws k _ expiry _, rfl⟩, q, o, hpaid, ho, rfl, hstore, ?_, ?_, ?_,
      fun h => absurd hm h⟩
    · rw [hp, hev.totalMinor]
      rfl
    · rw [hp, if_pos hm, ht]
      rfl
    · rw [hev.totalMinor]
      exact fun _ => ⟨userId, tendered, rfl, ht, hle⟩
  | @openPayment _ _ _ id i _ _ row expiry p hm hkey hrow hmine hp hopened hfree hconf hstore =>
    have hws : ∀ w ∈ [Write.payment id p], ∀ k row, w ≠ .key k row := by simp
    have hmem : (pid, q) ∈ [(id, p)] := by
      have h := mem_paymentWrites.mpr hq
      rw [paymentWrites_underKey] at h
      exact h
    obtain ⟨rfl, rfl⟩ := Prod.mk.inj (List.mem_singleton.mp hmem)
    obtain ⟨o, ho, hev⟩ := hgrow.order hrow
    refine ⟨⟨_, stored_commit hws k _ expiry _, rfl⟩, q, o, hpaid, ho, ?_, hstore, ?_, ?_,
      fun h => absurd h hm, fun _ => ?_⟩
    · rw [foreign_of_evolves hev]
      exact hmine
    · rw [hp, hev.totalMinor]
      rfl
    · rw [hp, if_neg hm]
      rfl
    · subst hp
      obtain ⟨it, hit, hio, hamount, hcurrency, hik⟩ := hopened
      refine ⟨i, it, hit, hik, ?_, ?_, hio⟩
      · rw [hev.totalMinor]
        exact hamount
      · rw [hev.currency]
        exact hcurrency

theorem Reachable.paidUnder {w : PosWorld} (h : Reachable cfg w) {t : PosThread}
    (ht : t ∈ w.threads) {principal : Principal} {orderId : Id} {input : CreatePaymentInput}
    {k : String} (hcall : t.call = .createPayment principal orderId input (some k)) {pid : Id}
    {q : Payment} (hq : .payment pid q ∈ t.session.committed.flatten) :
    PaidUnder cfg principal orderId input k pid w.shared := by
  obtain ⟨ws, hws, hq⟩ := List.mem_flatten.mp hq
  refine h.committed_facts (F := fun c ws s => ∀ principal orderId input k pid q,
    c = .createPayment principal orderId input (some k) → .payment pid q ∈ ws →
      PaidUnder cfg principal orderId input k pid s) ?_ ?_ t ht ws hws principal orderId input k
    pid q hcall hq
  · exact fun c ws s s' hs hF principal orderId input k pid q hc hq =>
      (hF principal orderId input k pid q hc hq).grows hs
  · rintro c s ws hs hc principal orderId input k pid q rfl hq
    exact .of_commits hs hc hq

/-! ## Retries -/

/-- The write touches the order or one of its payments. -/
def Write.concerns (orderId : Id) : Write → Bool
  | .order id _ => id == orderId
  | .payment _ p => p.orderId == orderId
  | _ => false

/-- The write is about the key. -/
def Write.isKey (k : String) : Write → Bool
  | .key k' _ => k' == k
  | _ => false

/-- Until the key is answered, nothing else is committed about the order; and once it is, no
payment call that carries it reads an order or live payments any more. -/
def readsInTime (orderId : Id) (k : String) : Call → Op → Sess → Shared → Bool
  | .createPayment _ _ _ key, .query .pool (.order _), _, s =>
    key != some k || (s.db.idempotencyKeys.get k).isNone
  | .createPayment _ _ _ key, .query .pool (.livePayments _), _, s =>
    key != some k || (s.db.idempotencyKeys.get k).isNone
  | _, .commit, l, s => (s.db.idempotencyKeys.get k).isSome || l.log.any (Write.isKey k) ||
    !l.log.any (Write.concerns orderId)
  | _, _, _, _ => true

/-- While nobody has answered under the key, the order waits and has no live payment. -/
def WaitsForKey (orderId : Id) (k : String) (db : Db) : Prop :=
  db.idempotencyKeys.get k = none → db.livePayments orderId = [] ∧
    ∃ o, db.orders.get orderId = some o ∧ o.status = .pendingPayment

/-- A key that a log writes is answered afterwards. -/
theorem KeyStep.stored_of_mem {c : Call} {s : Shared} {ws : List Write} (h : KeyStep cfg c s ws)
    {k : String} {row : IdempotencyKey} (hk : .key k row ∈ ws) :
    (store.applyAll ws s.db).idempotencyKeys.get k ≠ none := by
  cases h with
  | stays _ hws => exact absurd rfl (hws _ hk k row)
  | answers hkey hfree hws hans =>
    rw [applyAll_underKey hws]
    simp only [underKey, List.mem_cons, List.mem_append, List.not_mem_nil, or_false] at hk
    rcases hk with hk | hk | hk
    · obtain ⟨rfl, -⟩ := Write.key.inj hk
      simp [keysAfter]
    · exact absurd rfl (hws _ hk k row)
    · obtain ⟨rfl, -⟩ := Write.key.inj hk
      simp [keysAfter]

/-- What the condition says of a commit. -/
theorem readsInTime_commit {orderId : Id} {k : String} {c : Call} {l : Sess} {s : Shared}
    (h : readsInTime orderId k c .commit l s) :
    s.db.idempotencyKeys.get k ≠ none ∨ (∃ row, .key k row ∈ l.log) ∨
      ∀ w ∈ l.log, w.concerns orderId = false := by
  have hcheck : (s.db.idempotencyKeys.get k).isSome || l.log.any (Write.isKey k) ||
      !l.log.any (Write.concerns orderId) := by
    cases c <;> exact h
  simp only [Bool.or_eq_true, Bool.not_eq_true', List.any_eq_true, List.any_eq_false] at hcheck
  rcases hcheck with (hstored | ⟨w, hw, hk⟩) | hnone
  · refine Or.inl fun hfree => ?_
    rw [hfree] at hstored
    cases hstored
  · cases w with
    | key k' row =>
      obtain rfl : k' = k := by simpa [Write.isKey] using hk
      exact Or.inr (Or.inl ⟨row, hw⟩)
    | _ => cases hk
  · exact Or.inr (Or.inr fun w hw => Bool.eq_false_iff.mpr (hnone w hw))

theorem WaitsForKey.commit {P : PosPermit} {orderId : Id} {k : String} {c : Call} {l : Sess}
    {s : Shared} (h : WaitsForKey orderId k s.db) (hs : Settled s.db)
    (hc : Commits cfg P c s l.log) (hcheck : readsInTime orderId k c .commit l s) :
    WaitsForKey orderId k (store.applyAll l.log s.db) := by
  intro hfree
  have hbefore : s.db.idempotencyKeys.get k = none := by
    by_contra hne
    obtain ⟨row, hrow⟩ := Option.ne_none_iff_exists'.mp hne
    obtain ⟨row', hrow', -⟩ := (hc.grows hs).idempotencyKeys k row hrow
    rw [hfree] at hrow'
    cases hrow'
  obtain ⟨hlive, o, ho, hpending⟩ := h hbefore
  rcases readsInTime_commit hcheck with hstored | ⟨row, hrow⟩ | hleft
  · exact absurd hbefore hstored
  · exact absurd hfree (hc.keyStep.stored_of_mem hrow)
  · -- the log is not about the order
    constructor
    · refine Table.select_eq_nil.mpr fun id p hp => ?_
      rcases (hc.paymentStep hs).get hp with ⟨hold, -⟩ | hnew
      · exact Table.select_eq_nil.mp hlive id p hold
      · have hne := hleft _ hnew
        simp only [Write.concerns] at hne
        rw [hne, Bool.false_and]
    · obtain ⟨o', ho', -⟩ := (hc.grows hs).orders _ o ho
      rcases get_order_applyAll ho' with hsame | hnew
      · obtain rfl := Option.some.inj (ho.symm.trans hsame)
        exact ⟨o, ho', hpending⟩
      · have hne := hleft _ hnew
        simp [Write.concerns] at hne

/-- The runs in which no retry reads too late. -/
def retryContext (cfg : Config) (orderId : Id) (k : String) : Context cfg where
  permit := .ofCheck (readsInTime orderId k)
  extra s := IntentsOpened s ∧ KeyedPayments s.db ∧ WaitsForKey orderId k s.db
  move {c o l s _ _} hp hs h hm := by
    refine hm.preserves
      (J := fun s => IntentsOpened s ∧ KeyedPayments s.db ∧ WaitsForKey orderId k s.db) h
      (fun g hg => ⟨h.1.gateway hg.grows, h.2⟩) ?_
    intro ws hc hlog hevent
    refine ⟨h.1.commit hs hc, h.2.1.commit hs hc, ?_⟩
    by_cases ho : o = .commit
    · subst ho
      obtain rfl := hlog rfl
      exact h.2.2.commit hs hc hp
    · obtain ⟨id, e, rfl⟩ := hevent ho
      exact h.2.2
  happen {e s s'} _ _ h hs := by
    have hdb := happen_db hs
    have hgrow := (happen_grows hs).gateway
    obtain ⟨db, g⟩ := s'
    subst hdb
    exact ⟨h.1.gateway hgrow, h.2⟩

theorem Reachable.keyedPayments {w : PosWorld} (h : Reachable cfg w) :
    KeyedPayments w.shared.db :=
  h.db_invariant (fun _ _ _ hp => by cases hp) fun _ _ _ hs hJ hc => hJ.commit hs hc

/-- From `w₁`, in which the order waits, has no live payment, and nobody has answered under the
key, to `w₂`, in which a call has committed payment `pid` under it. All calls of that request
began after `w₁`, and none of them read too late. -/
structure Retries (cfg : Config) (principal : Principal) (orderId : Id)
    (input : CreatePaymentInput) (k : String) (pid : Id) (w₁ w₂ : PosWorld) : Prop where
  reachable : Reachable cfg w₁
  waits : WaitsForKey orderId k w₁.shared.db
  begun : ∀ i t, w₂.threads[i]? = some t →
    t.call = .createPayment principal orderId input (some k) → w₁.threads.length ≤ i
  run : Runs (system cfg) (.ofCheck (readsInTime orderId k)) w₁ w₂
  committed : ∃ t ∈ w₂.threads, t.call = .createPayment principal orderId input (some k) ∧
    ∃ p, .payment pid p ∈ t.session.committed.flatten

/-- Whatever a call of the request was refused for, it was not refused for what the original
has done: the only failure left is the gateway's. -/
theorem Refusal.down_of_paidUnder {principal : Principal} {orderId : Id}
    {input : CreatePaymentInput} {k : String} {pid : Id} {e : Err} {s s' : Shared}
    (h : Refusal (retryContext cfg orderId k) principal orderId input (some k) e s)
    (hinv : (retryContext cfg orderId k).spec.inv s) (hs : Grows s s')
    (hpaid : PaidUnder cfg principal orderId input k pid s')
    (hone : s'.gateway.OneIntentAKey) : e = unreachable := by
  obtain ⟨-, hopened, hkeyed, hwaits⟩ := hinv
  obtain ⟨p, o, hp, ho, hmine, hstore, hamount, htender, hcash, hgateway⟩ := hpaid.allowed
  -- an order row read earlier is the same order
  have hsame : ∀ {row}, s.db.orders.get orderId = some row → row.Evolves o := by
    intro row hrow
    obtain ⟨o', ho', hev⟩ := hs.order hrow
    obtain rfl := Option.some.inj (ho.symm.trans ho')
    exact hev
  cases h with
  | conflict hk hrow hno =>
    obtain rfl := Option.some.inj hk
    obtain ⟨view, ⟨row', hrow', hhash, hbody⟩, -⟩ := hpaid.stored
    obtain rfl := Option.some.inj ((hs.key hrow).symm.trans hrow')
    exact absurd ⟨_, hrow, hhash, hbody⟩ (hno _)
  | down => rfl
  | intentGone hq hqi hgone =>
    obtain ⟨it, hit, -⟩ := hopened _ _ _ hq hqi
    rw [hgone] at hit
    cases hit
  | unpayable hpermit hno =>
    have hfree : s.db.idempotencyKeys.get k = none := by
      simpa [retryContext, Permit.ofCheck, readsInTime] using hpermit
    obtain ⟨-, row, hrow, hpending⟩ := hwaits hfree
    rcases hno row hrow with hforeign | hne
    · rw [← foreign_of_evolves (hsame hrow), hmine] at hforeign
      cases hforeign
    · exact absurd hpending hne
  | live hpermit hlive =>
    have hfree : s.db.idempotencyKeys.get k = none := by
      simpa [retryContext, Permit.ofCheck, readsInTime] using hpermit
    exact absurd (hwaits hfree).1 hlive
  | tender hm hrow hshort =>
    obtain ⟨userId, tendered, hstaff, htendered, hle⟩ := hcash hm
    have hlt := hshort userId tendered hstaff htendered
    rw [(hsame hrow).totalMinor] at hle
    omega
  | keyReused hm hrow hkey hdiff =>
    obtain ⟨hi, hik⟩ := byKey_some hkey
    obtain ⟨it', hi', hev⟩ := hs.intent hi
    obtain ⟨i₀, it₀, hi₀, hk₀, hans⟩ := hgateway hm
    -- the key has one intent, the one the payment was opened with
    obtain rfl := hone _ _ _ _ k hi' hi₀ (hev.idempotencyKey.trans hik) hk₀
    obtain rfl := Option.some.inj (hi'.symm.trans hi₀)
    refine absurd ⟨?_, ?_, ?_⟩ hdiff
    · rw [← (hsame hrow).totalMinor, ← hev.amount]
      exact hans.1
    · rw [← (hsame hrow).currency, ← hev.currency]
      exact hans.2.1
    · rw [← hev.orderId]
      exact hans.2.2
  | unstorable hrow hq hqt hbad =>
    refine absurd ?_ hbad
    rw [Payment.storable, hq, hqt, ← (hsame hrow).totalMinor, ← hamount, ← htender]
    exact hstore
  | @taken _ _ q hfree hqo hqk hqi hconf =>
    have hkey : s.db.idempotencyKeys.get k = none := hfree _ rfl
    have hnone : ∀ id u, s.db.payments.get id = some u → u.idempotencyKey ≠ some k :=
      fun id u hu huk => hkeyed id u k hu huk hkey
    have hclear : Statement.paymentConflicts s.db q = false := by
      refine paymentConflicts_eq_false.mpr ⟨?_, ?_, ?_⟩
      · -- an intent of another payment was opened under another key
        intro i hi id u hu hui
        obtain ⟨it, hit, -, -, -, hik⟩ := hqi i hi
        obtain ⟨it', hit', -, -, -, hik'⟩ := hopened id u i hu hui
        obtain rfl := Option.some.inj (hit.symm.trans hit')
        exact hnone id u hu ((hik'.symm.trans hik).trans hqk)
      · intro k' hk' id u hu
        obtain rfl := Option.some.inj (hqk.symm.trans hk')
        exact hnone id u hu
      · intro _ id u hu huo hlive
        have hmem : (id, u) ∈ s.db.livePayments orderId :=
          Table.mem_select.mpr ⟨hu, by simp [huo, hqo, hlive]⟩
        rw [(hwaits hkey).1] at hmem
        cases hmem
    rw [hclear] at hconf
    cases hconf
  | moved hfree hno =>
    obtain ⟨-, row, hrow, hpending⟩ := hwaits (hfree _ rfl)
    exact absurd hpending (hno row hrow)

/-- However many calls of one request there are: if none reads too late, each is answered with
the payment that was committed under the key, unless the gateway cannot be reached. -/
theorem retries_answered {principal : Principal} {orderId : Id} {input : CreatePaymentInput}
    {k : String} {pid : Id} {w₁ w₂ : PosWorld}
    (h : Retries cfg principal orderId input k pid w₁ w₂) :
    ∀ t ∈ w₂.threads, t.call = .createPayment principal orderId input (some k) →
      ∀ a, t.Answered a → a ≠ .error unreachable →
        ∃ view replayed, a = .ok (.payment ⟨.payment view, replayed⟩) ∧ view.id = pid := by
  have hreach := h.reachable.extend h.run
  obtain ⟨t₀, ht₀, hcall₀, p₀, hp₀⟩ := h.committed
  have hpaid := hreach.paidUnder ht₀ hcall₀ hp₀
  obtain ⟨view₀, hstored₀, hid⟩ := hpaid.stored
  have hwindow := (retryContext cfg orderId k).window (fun _ _ _ _ => rfl) h.reachable
    ⟨h.reachable.intentsOpened, h.reachable.keyedPayments, h.waits⟩ h.run
  intro t ht hcall a ha hup
  obtain ⟨i, hi⟩ := List.mem_iff_getElem?.mp ht
  obtain ⟨s, -, hs, hpost⟩ := hwindow.answered hi ha
  have hpost := hpost (h.begun i t hi hcall)
  rw [hcall] at hpost
  -- whatever the key stands for is the payment
  have hone : ∀ {body}, Stored s.db k (paymentHash cfg principal orderId input) body →
      body = .payment view₀ := by
    rintro body hbody
    obtain ⟨row, hrow, -, hb⟩ := hbody.grows hs
    obtain ⟨row', hrow', -, hb'⟩ := hstored₀
    obtain rfl := Option.some.inj (hrow.symm.trans hrow')
    exact Option.some.inj (hb.symm.trans hb')
  cases a with
  | error e =>
    obtain ⟨-, s₁, hinv, hs₁, hrefusal⟩ := hpost
    refine absurd ?_ hup
    rw [hrefusal.down_of_paidUnder hinv (hs₁.trans hs) hpaid hreach.oneIntentAKey]
  | ok r =>
    obtain ⟨created, rfl, -, hgiven⟩ := hpost
    cases hgiven with
    | @replayed _ k' body body' hk hstored hre =>
      obtain rfl := Option.some.inj hk
      obtain rfl := hone hstored
      rcases hre with rfl | ⟨view, secret, p, hview, rfl, -⟩
      · exact ⟨view₀, true, rfl, hid⟩
      · obtain rfl := ResponseBody.payment.inj hview
        exact ⟨_, true, rfl, hid⟩
    | @fresh _ view p hp hpo hintent hstored =>
      have hview := ResponseBody.payment.inj (hone (hstored k rfl))
      refine ⟨view, false, rfl, ?_⟩
      rw [← hid, ← hview]

/-! ## One retry, in time and too late -/

/-- Staff member 7 takes cash for order 100, under key `k`. -/
def cashUnderKey : Call := .createPayment (.staff 7) 100 ⟨.cash, some 10000⟩ (some "k")

/-- The call is that one. -/
def isCashUnderKey : Call → Bool
  | .createPayment principal orderId input key => decide (principal = .staff 7 ∧ orderId = 100 ∧
      input = ⟨.cash, some 10000⟩ ∧ key = some "k")
  | _ => false

theorem isCashUnderKey_iff {c : Call} : isCashUnderKey c ↔ c = cashUnderKey := by
  cases c with
  | createPayment principal orderId input key =>
    simp [isCashUnderKey, cashUnderKey]
  | _ => simp [isCashUnderKey, cashUnderKey]

/-- Order 100 waits and has no live payment; one call has been made. -/
def isUnpaid (w : PosWorld) : Bool :=
  decide (w.threads.length = 1) && (w.shared.db.livePayments 100).isEmpty &&
    (w.shared.db.orders.get 100).any fun o => o.status == .pendingPayment

theorem waitsForKey_of_isUnpaid {w : PosWorld} (h : isUnpaid w) :
    w.threads.length = 1 ∧ WaitsForKey 100 "k" w.shared.db := by
  simp only [isUnpaid, Bool.and_eq_true, List.isEmpty_iff, Option.any_eq_true, beq_iff_eq,
    decide_eq_true_eq] at h
  exact ⟨h.1.1, fun _ => ⟨h.1.2, h.2⟩⟩

/-- Calls 1 and 2, but not call 0, are that call; the first has committed payment 201. -/
def isRetried (w : PosWorld) : Bool :=
  !(w.threads[0]?).any (fun t => isCashUnderKey t.call) &&
    (w.threads[1]?).any (fun t => isCashUnderKey t.call &&
      t.session.committed.flatten.any fun w => match w with
        | .payment id _ => id == 201
        | _ => false) &&
    (w.threads[2]?).any fun t => isCashUnderKey t.call

theorem exists_of_isRetried {w : PosWorld} (h : isRetried w) :
    (∀ t, w.threads[0]? = some t → t.call ≠ cashUnderKey) ∧
    (∃ t, w.threads[1]? = some t ∧ t.call = cashUnderKey ∧
      ∃ p, .payment 201 p ∈ t.session.committed.flatten) ∧
    ∃ t, w.threads[2]? = some t ∧ t.call = cashUnderKey := by
  simp only [isRetried, Bool.and_eq_true, Option.any_eq_true, Bool.not_eq_true',
    List.any_eq_true] at h
  obtain ⟨⟨h₀, t₁, ht₁, hcall₁, x, hx, hpay⟩, t₂, ht₂, hcall₂⟩ := h
  refine ⟨fun t ht hcall => ?_, ⟨t₁, ht₁, isCashUnderKey_iff.mp hcall₁, ?_⟩,
    t₂, ht₂, isCashUnderKey_iff.mp hcall₂⟩
  · rw [ht, Option.any_some, isCashUnderKey_iff.mpr hcall] at h₀
    cases h₀
  · cases x with
    | payment id p =>
      obtain rfl : id = 201 := by simpa using hpay
      exact ⟨p, hx⟩
    | _ => cases hpay

theorem retries_answered_replayed : ∃ w₁ w₂,
    Retries cornerCafe (.staff 7) 100 ⟨.cash, some 10000⟩ "k" 201 w₁ w₂ ∧
    ∃ t a view replayed, w₂.threads[2]? = some t ∧ t.Answered a ∧
      a = .ok (.payment ⟨.payment view, replayed⟩) ∧ view.id = 201 := by
  obtain ⟨w₁, hw₁, hunpaid, hrest⟩ := Reachable.exists_of_runIf cornerCafe takeOrder
    (fun w => isUnpaid w ∧ (w.runIf (system cornerCafe) (World.passes (readsInTime 100 "k"))
      (.start cashUnderKey :: steps 1 12 (supply 201 "") ++
        .start cashUnderKey :: steps 2 1 (supply 202 ""))).any fun w' => isRetried w' &&
          (w'.threads[2]?).any fun t => t.returned &&
            !decide (t.Answered (.error unreachable))) (by decide)
  simp only [Option.any_eq_true, Bool.and_eq_true, Bool.not_eq_true', decide_eq_false_iff_not]
    at hrest
  obtain ⟨w₂, hw₂, hretried, t, ht, hdone, hup⟩ := hrest
  obtain ⟨hlen, hwaits⟩ := waitsForKey_of_isUnpaid hunpaid
  obtain ⟨h₀, ⟨t₁, ht₁, hcall₁, hpay⟩, t₂, ht₂, hcall₂⟩ := exists_of_isRetried hretried
  obtain rfl := Option.some.inj (ht.symm.trans ht₂)
  obtain ⟨a, ha⟩ := Thread.returned_iff.mp hdone
  have hretries : Retries cornerCafe (.staff 7) 100 ⟨.cash, some 10000⟩ "k" 201 w₁ w₂ := by
    refine ⟨hw₁, hwaits, fun i u hu hcall => ?_,
      Runs.of_runIf (fun _ _ => World.allows_of_passes) .refl hw₂,
      t₁, List.mem_of_getElem? ht₁, hcall₁, hpay⟩
    rw [hlen]
    cases i with
    | zero => exact absurd hcall (h₀ u hu)
    | succ i => omega
  obtain ⟨view, replayed, heq, hid⟩ := retries_answered hretries t (List.mem_of_getElem? ht)
    hcall₂ a ha (fun h => hup (h ▸ ha))
  exact ⟨w₁, w₂, hretries, t, a, view, replayed, ht, ha, heq, hid⟩

/-- The retry looks for a stored response before the original has committed, and reads the
order after: it is refused because the order is `PAID`. -/
theorem retry_refused : ∃ w₁ w₂, Reachable cornerCafe w₁ ∧ WaitsForKey 100 "k" w₁.shared.db ∧
    Runs (system cornerCafe) .all w₁ w₂ ∧ w₁.threads.length = 1 ∧ w₂.threads.length = 3 ∧
    (∃ t p, w₂.threads[1]? = some t ∧ t.call = cashUnderKey ∧
      .payment 201 p ∈ t.session.committed.flatten) ∧
    ∃ t, w₂.threads[2]? = some t ∧ t.call = cashUnderKey ∧
      t.Answered (.error (.orderNotPayable .paid)) := by
  obtain ⟨w₁, hw₁, hunpaid, hrest⟩ := Reachable.exists_of_runIf cornerCafe takeOrder
    (fun w => isUnpaid w ∧ (w.runIf (system cornerCafe) (fun _ _ => true)
      (.start cashUnderKey :: .start cashUnderKey :: steps 2 1 (supply 202 "") ++
        steps 1 12 (supply 201 "") ++ steps 2 1 (supply 202 ""))).any fun w' => isRetried w' &&
          decide (w'.threads.length = 3) && (w'.threads[2]?).any fun t =>
            decide (t.Answered (.error (.orderNotPayable .paid)))) (by decide)
  simp only [Option.any_eq_true, Bool.and_eq_true, decide_eq_true_eq] at hrest
  obtain ⟨w₂, hw₂, ⟨hretried, hthree⟩, t, ht, ha⟩ := hrest
  obtain ⟨hlen, hwaits⟩ := waitsForKey_of_isUnpaid hunpaid
  obtain ⟨-, ⟨t₁, ht₁, hcall₁, p, hp⟩, t₂, ht₂, hcall₂⟩ := exists_of_isRetried hretried
  obtain rfl := Option.some.inj (ht.symm.trans ht₂)
  exact ⟨w₁, w₂, hw₁, hwaits, Runs.of_runIf (fun w a _ => Runs.allows_all w a) .refl hw₂, hlen,
    hthree, ⟨t₁, p, ht₁, hcall₁, hp⟩, t, ht, hcall₂, ha⟩

end CafePos
