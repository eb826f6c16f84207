import CafePos.Soundness

/-!
# What a commit does to the payments

A log writes at most one payment: it inserts one that the unique indexes allow, or it gives
another status to one that has not succeeded. `PaymentStep` says so with what is known of the
state, and everything later modules know about payments over whole runs comes from it.
-/

namespace CafePos

open Interleaving

variable {cfg : Config}

/-! ## The payment rows of a log -/

/-- The payment rows a log writes. -/
def paymentWrites (ws : List Write) : List (Id × Payment) :=
  ws.filterMap fun w => match w with
    | .payment id p => some (id, p)
    | _ => none

@[simp] theorem paymentWrites_nil : paymentWrites [] = [] := rfl

@[simp] theorem paymentWrites_cons_payment (id : Id) (p : Payment) (ws : List Write) :
    paymentWrites (.payment id p :: ws) = (id, p) :: paymentWrites ws := rfl

@[simp] theorem paymentWrites_append (ws ws' : List Write) :
    paymentWrites (ws ++ ws') = paymentWrites ws ++ paymentWrites ws' := List.filterMap_append ..

theorem paymentWrites_eq_nil {ws : List Write} (h : ∀ w ∈ ws, ∀ id p, w ≠ .payment id p) :
    paymentWrites ws = [] := by
  refine List.filterMap_eq_nil_iff.mpr fun w hw => ?_
  cases w with
  | payment id p => exact absurd rfl (h _ hw id p)
  | _ => rfl

@[simp] theorem paymentWrites_moveWrites (r : TransitionRequest) (row : Order) :
    paymentWrites (moveWrites r row) = [] := rfl

@[simp] theorem paymentWrites_stampWrites (id : Id) (e : PaymentEvent) (paymentId : Option Id)
    (now : Instant) : paymentWrites (stampWrites id e paymentId now) = [] :=
  paymentWrites_eq_nil (forall_stampWrites fun _ _ _ => nofun)

@[simp] theorem paymentWrites_underKey (reservation : Option (String × String)) (expiry : Instant)
    (body : ResponseBody) (ws : List Write) :
    paymentWrites (underKey reservation expiry body ws) = paymentWrites ws := by
  match reservation with
  | none => rfl
  | some (k, hash) =>
    have hkey : ∀ row, paymentWrites [.key k row] = [] := fun _ => rfl
    change paymentWrites (ws ++ [.key k ⟨hash, some 201, some body, expiry⟩]) = _
    rw [paymentWrites_append, hkey, List.append_nil]

theorem mem_paymentWrites {ws : List Write} {id : Id} {p : Payment} :
    (id, p) ∈ paymentWrites ws ↔ .payment id p ∈ ws := by
  rw [paymentWrites, List.mem_filterMap]
  constructor
  · rintro ⟨w, hw, hq⟩
    cases w with
    | payment id' p' =>
      obtain ⟨rfl, rfl⟩ := Prod.mk.inj (Option.some.inj hq)
      exact hw
    | _ => cases hq
  · exact fun h => ⟨_, h, rfl⟩

/-- The payments after a log. -/
theorem payments_applyAll (ws : List Write) (db : Db) : (store.applyAll ws db).payments =
    (paymentWrites ws).foldl (fun t q => t.put q.1 q.2) db.payments := by
  induction ws generalizing db with
  | nil => rfl
  | cons w ws ih =>
    rw [Store.applyAll_cons, ih]
    cases w <;> rfl

/-! ## What a log can do -/

/-- What a log does to the payments of the state it is committed in. -/
inductive PaymentStep (s : Shared) (ws : List Write) : Prop
  /-- nothing -/
  | stays : paymentWrites ws = [] → PaymentStep s ws
  /-- a new payment: through the gateway, for an intent opened for it, or in cash -/
  | inserts {id : Id} {p : Payment} : paymentWrites ws = [(id, p)] →
      s.db.payments.get id = none → Statement.paymentConflicts s.db p = false →
      (∀ i, p.providerIntentId = some i → p.status = .pending ∧ s.gateway.OpenedFor i p) →
      (p.providerIntentId = none → p.status = .succeeded) → PaymentStep s ws
  /-- another status for a payment that has not succeeded -/
  | settles {id : Id} {p : Payment} {status : PaymentStatus} {method : Option PaymentMethod} :
      paymentWrites ws = [(id, { p with status, method })] → s.db.payments.get id = some p →
      p.status ≠ .succeeded → status.isLive = false → PaymentStep s ws

/-- The log of a payment's update. -/
theorem PaymentStep.of_settleWrites {s : Shared} {ws : List Write} {id : Id} {p : Payment}
    {status : PaymentStatus} {method : Option PaymentMethod} {guarded : Bool}
    (hws : paymentWrites ws = paymentWrites (settleWrites id p status method guarded))
    (hp : s.db.payments.get id = some p) (hold : guarded ∨ p.status ≠ .succeeded)
    (hlive : status.isLive = false) : PaymentStep s ws := by
  rw [settleWrites] at hws
  split at hws
  · exact .stays hws
  · rename_i hguard
    refine .settles hws hp (fun hsucc => ?_) hlive
    rcases hold with hg | hne
    · exact hguard (by simp [hg, hsucc])
    · exact hne hsucc

/-- Every log does one of these. -/
theorem Commits.paymentStep {P : PosPermit} {c : Call} {s : Shared} {ws : List Write}
    (h : Commits cfg P c s ws) (hs : Settled s.db) : PaymentStep s ws := by
  cases h with
  | create =>
    refine .stays ?_
    rw [paymentWrites_underKey]
    exact paymentWrites_eq_nil (forall_createWrites (fun _ _ => nofun) (fun _ _ => nofun)
      (fun _ _ _ => nofun) (fun _ _ => nofun))
  | checkout => exact .stays rfl
  | cash hm ht hle hkey hrow hpending hp hfree hconf hstore =>
    subst hp
    refine .inserts (paymentWrites_underKey ..) hfree hconf (fun i hi => ?_) (fun _ => rfl)
    cases hi
  | openPayment hm hkey hrow hmine hp hopened hfree hconf hstore =>
    subst hp
    refine .inserts (paymentWrites_underKey ..) hfree hconf (fun i hi => ?_) (fun h => ?_)
    · obtain rfl := Option.some.inj hi
      exact ⟨rfl, hopened⟩
    · cases h
  | record => exact .stays rfl
  | skip => exact .stays (paymentWrites_stampWrites ..)
  | markPayment he hno hp hstatus =>
    refine .of_settleWrites (by
      rw [paymentWrites_append, paymentWrites_stampWrites, List.append_nil]) hp (Or.inl rfl) ?_
    rcases hstatus with rfl | rfl <;> rfl
  | markPaid he hp hcap hrow hpending =>
    refine .of_settleWrites (by
      rw [paymentWrites_append, paymentWrites_append, paymentWrites_moveWrites,
        paymentWrites_stampWrites, List.append_nil, List.nil_append]) hp (Or.inr ?_) rfl
    refine hs.not_succeeded hp hrow ?_
    rw [hpending]
    exact Bool.false_ne_true
  | @close _ _ r guarded row live hcl hrow hsrc hlive =>
    cases live with
    | none => exact .stays rfl
    | some q =>
      obtain ⟨hp, hpo, -⟩ := hlive q rfl
      refine .of_settleWrites (by
        rw [paymentWrites_append, paymentWrites_moveWrites, List.nil_append, liveWrites]) hp
        (Or.inr ?_) rfl
      refine hs.not_succeeded hp (hpo ▸ hrow) ?_
      rw [hsrc]
      exact hcl.unsettled.1
  | staff => exact .stays rfl
  | refundPart => exact .stays rfl
  | refundAll => exact .stays rfl

/-- A payment after a log: what it was, and then the log does not write it, or what the log
wrote. -/
theorem PaymentStep.get {s : Shared} {ws : List Write} (h : PaymentStep s ws) {id : Id}
    {p : Payment} (hp : (store.applyAll ws s.db).payments.get id = some p) :
    (s.db.payments.get id = some p ∧ ∀ p', .payment id p' ∉ ws) ∨ .payment id p ∈ ws := by
  have hone : ∀ {id' : Id} {p' : Payment}, paymentWrites ws = [(id', p')] →
      (s.db.payments.get id = some p ∧ ∀ p', .payment id p' ∉ ws) ∨ .payment id p ∈ ws := by
    intro id' p' hws
    rw [payments_applyAll, hws, List.foldl_cons, List.foldl_nil, Table.get_put] at hp
    split at hp
    · rename_i hid
      obtain rfl := Option.some.inj hp
      subst hid
      exact Or.inr (mem_paymentWrites.mp (by rw [hws]; exact List.mem_singleton.mpr rfl))
    · rename_i hid
      refine Or.inl ⟨hp, fun q hq => hid ?_⟩
      rw [← mem_paymentWrites, hws, List.mem_singleton] at hq
      exact (Prod.mk.inj hq).1
  cases h with
  | stays hws =>
    rw [payments_applyAll, hws] at hp
    refine Or.inl ⟨hp, fun q hq => ?_⟩
    rw [← mem_paymentWrites, hws] at hq
    cases hq
  | inserts hws => exact hone hws
  | settles hws => exact hone hws

/-- What a log writes is what is found afterwards, since it writes no more than one. -/
theorem PaymentStep.get_of_mem {s : Shared} {ws : List Write} (h : PaymentStep s ws) {id : Id}
    {p : Payment} (hp : .payment id p ∈ ws) :
    (store.applyAll ws s.db).payments.get id = some p := by
  have hone : ∀ {id' : Id} {p' : Payment}, paymentWrites ws = [(id', p')] →
      (store.applyAll ws s.db).payments.get id = some p := by
    intro id' p' hws
    rw [← mem_paymentWrites, hws, List.mem_singleton] at hp
    obtain ⟨rfl, rfl⟩ := Prod.mk.inj hp
    rw [payments_applyAll, hws]
    exact Table.get_put_self ..
  cases h with
  | stays hws =>
    rw [← mem_paymentWrites, hws] at hp
    cases hp
  | inserts hws => exact hone hws
  | settles hws => exact hone hws

/-! ## Every gateway payment has its intent -/

/-- The intent of a payment was opened for it. -/
def IntentsOpened (s : Shared) : Prop :=
  ∀ id p i, s.db.payments.get id = some p → p.providerIntentId = some i →
    s.gateway.OpenedFor i p

theorem IntentsOpened.commit {P : PosPermit} {c : Call} {s : Shared} {ws : List Write}
    (h : IntentsOpened s) (hs : Settled s.db) (hc : Commits cfg P c s ws) :
    IntentsOpened (s.commit ws) := by
  intro id p i hp hi
  have hstep := hc.paymentStep hs
  rcases hstep.get hp with ⟨hold, -⟩ | hnew
  · exact h id p i hold hi
  · rw [← mem_paymentWrites] at hnew
    cases hstep with
    | stays hws =>
      rw [hws] at hnew
      cases hnew
    | inserts hws hfree hconf hintent hcash =>
      rw [hws, List.mem_singleton] at hnew
      obtain ⟨rfl, rfl⟩ := Prod.mk.inj hnew
      exact (hintent i hi).2
    | settles hws hq hne hlive =>
      rw [hws, List.mem_singleton] at hnew
      obtain ⟨rfl, rfl⟩ := Prod.mk.inj hnew
      have hopened := h _ _ i hq hi
      exact hopened

/-- The gateway forgets no intent. -/
theorem IntentsOpened.gateway {s : Shared} {g : Gateway} (h : IntentsOpened s)
    (hg : s.gateway.Grows g) : IntentsOpened ⟨s.db, g⟩ :=
  fun id p i hp hi => (h id p i hp hi).grows hg

theorem Reachable.intentsOpened {w : PosWorld} (h : Reachable cfg w) : IntentsOpened w.shared := by
  refine h.invariant (J := IntentsOpened) (fun _ _ _ hp => by cases hp)
    (fun _ _ _ hs hJ hc => hJ.commit hs hc) (fun _ _ hJ hg => hJ.gateway hg.grows) ?_
  intro e s s' hJ hs
  have hdb := happen_db hs
  have hgrow := (happen_grows hs).gateway
  obtain ⟨db, g⟩ := s'
  subst hdb
  exact hJ.gateway hgrow

end CafePos
