import CafePos.ExpirySweep
import CafePos.InboxSweep
import CafePos.LivePayments

/-!
# An expiry sweep nobody disturbs

`expireOverdue` asks the gateway first: an order whose payment the gateway has captured already is
left to the webhook. This module runs a whole sweep while nobody else calls and Stripe can be
reached. `Shared.releases` says for which orders the gateway lets go.

* `expireOne_ends` — one order: it expires, its live payment and the intent with it, if the gateway
  lets go, and nothing changes if not;
* `expireLoop_ends` — by induction on the batch, since what is done for one order changes nothing
  that is read of another;
* `sweep_expires_released` — the sweep expires exactly those, and counts them; if the batch was not
  full, what is overdue after it is what the gateway holds on to.
-/

namespace CafePos

open Interleaving Door

variable {φ : Input → Prop}

/-! ## The sweep -/

/-- The loop of `expireOverdue` over the rows its query returned. -/
def expireLoop (expired : ℕ) : List Id → Door ℕ
  | [] => pure expired
  | id :: overdue => do
    let done ← expireOne id
    expireLoop (if done then expired + 1 else expired) overdue

/-- `expireOverdue`, where `overdue` is what its limited query returned. The `catch` around both is
for the query: `expireOne` swallows what it throws. -/
def expireOverdue (overdue : List Id) : Door ℕ := expireLoop 0 overdue

/-- The live payment `expireOne` reads. -/
def Db.livePayment (db : Db) (orderId : Id) : Option (Id × Payment) :=
  (db.livePayments orderId).head?

/-- The intent of the live payment, if it has one, is known to the gateway and has not succeeded. -/
def Gateway.lets (g : Gateway) (live : Option (Id × Payment)) : Bool :=
  (live.bind fun q => q.2.providerIntentId).all fun i =>
    (g.intents.get i).any fun it => it.status != .succeeded

/-- The gateway lets go of the order. -/
def Shared.releases (s : Shared) (orderId : Id) : Bool :=
  s.gateway.lets (s.db.livePayment orderId)

/-! ## Asking the gateway -/

/-- The gateway after a sweep has asked it to cancel intents: the same intents have succeeded. -/
structure Gateway.Asked (g g' : Gateway) : Prop where
  grows : g.Grows g'
  succeeded : ∀ i, ((g'.intents.get i).any fun it => it.status != .succeeded) =
    (g.intents.get i).any fun it => it.status != .succeeded

theorem Gateway.Asked.refl (g : Gateway) : g.Asked g := ⟨.refl g, fun _ => rfl⟩

theorem Gateway.Asked.trans {g g' g'' : Gateway} (h₁ : g.Asked g') (h₂ : g'.Asked g'') :
    g.Asked g'' :=
  ⟨h₁.grows.trans h₂.grows, fun i => (h₂.succeeded i).trans (h₁.succeeded i)⟩

/-- Who is let go of, is so still. -/
theorem Gateway.Asked.lets {g g' : Gateway} (h : g.Asked g') (live : Option (Id × Payment)) :
    g'.lets live = g.lets live := by
  rw [Gateway.lets, Gateway.lets]
  cases live.bind fun q => q.2.providerIntentId with
  | none => rfl
  | some i => exact h.succeeded i

/-- Cancelling an intent that can be confirmed. -/
theorem Gateway.Asked.cancel {g : Gateway} {i : String} {it : Intent}
    (hi : g.intents.get i = some it) (hst : it.status = .confirmable) {inp : Input}
    (hinp : inp.reachable = true) :
    stripeCancel inp i g = (.ok (), (g.setStatus i it .canceled).raise inp.stripeId
      "payment_intent.canceled" i it) ∧ g.Asked (stripeCancel inp i g).2 ∧
      (stripeCancel inp i g).2.Cancelled i := by
  have hcancel : stripeCancel inp i g = (.ok (), (g.setStatus i it .canceled).raise inp.stripeId
      "payment_intent.canceled" i it) := by
    simp [stripeCancel, hinp, hi, hst]
  refine ⟨hcancel, ⟨.stripeCancel inp i g, fun i' => ?_⟩, ?_⟩
  · rw [hcancel]
    simp only [Gateway.raise, Gateway.setStatus, Table.get_put]
    split
    · rename_i heq
      rw [heq, hi, Option.any_some, Option.any_some, hst]
      rfl
    · rfl
  · rw [hcancel]
    exact ⟨_, Table.get_put_self .., rfl⟩

namespace Ends

variable {E : Err → Sess → Shared → Prop} {l : Sess} {s : Shared}

/-- `cancelOverdueIntent`, with Stripe in reach: the intent is dead, or nothing has changed. -/
theorem cancelOverdueIntent (hφ : ∀ inp, φ inp → inp.reachable = true)
    {live : Option (Id × Payment)} {Q : CancelIntentOutcome → Sess → Shared → Prop}
    (hlets : s.gateway.lets live → ∀ g, s.gateway.Asked g →
      (∀ i, (live.bind fun q => q.2.providerIntentId) = some i → g.Cancelled i) →
      Q .cancelled l ⟨s.db, g⟩)
    (hholds : ¬ s.gateway.lets live → Q .alreadySucceeded l s ∧ E .stripe l s) :
    Ends φ (CafePos.cancelOverdueIntent live) Q E l s := by
  rw [CafePos.cancelOverdueIntent]
  rw [Gateway.lets] at hlets hholds
  cases hintent : live.bind fun q => q.2.providerIntentId with
  | none =>
    rw [hintent] at hlets
    exact pure (hlets rfl s.gateway (.refl _) fun i hi => by cases hi)
  | some i =>
    rw [hintent] at hlets hholds
    simp only [Option.all_some] at hlets hholds
    refine bind (perform fun inp hinp => ⟨_, _, _, rfl, ?_⟩)
    have hreach := hφ inp hinp
    cases hi : s.gateway.intents.get i with
    | none =>
      -- an intent the gateway does not know: it cannot be read either
      obtain ⟨-, herr⟩ := hholds (by simp [hi])
      have hcancel : stripeCancel inp i s.gateway = (.error .invalidRequest, s.gateway) := by
        simp [stripeCancel, hreach, hi]
      rw [hcancel]
      refine bind (stripeRetrieve fun inp hinp => ?_)
      have hretrieve : CafePos.stripeRetrieve inp i s.gateway = .error .invalidRequest := by
        simp [CafePos.stripeRetrieve, hφ inp hinp, hi]
      rw [hretrieve]
      exact throw herr
    | some it =>
      rw [hi, Option.any_some] at hlets hholds
      cases hst : it.status with
      | confirmable =>
        obtain ⟨hcancel, hasked, hdead⟩ := Gateway.Asked.cancel hi hst hreach
        have hq := hlets (by simp [hst]) _ hasked fun i' hi' => by
          obtain rfl := Option.some.inj hi'
          exact hdead
        rw [hcancel] at hq ⊢
        exact pure hq
      | succeeded =>
        obtain ⟨hq, -⟩ := hholds (by simp [hst])
        have hcancel : stripeCancel inp i s.gateway = (.error .invalidRequest, s.gateway) := by
          simp [stripeCancel, hreach, hi, hst]
        rw [hcancel]
        refine bind (stripeRetrieve fun inp hinp => ?_)
        have hretrieve : CafePos.stripeRetrieve inp i s.gateway =
            .ok ⟨.succeeded, ⟨i⟩, inp.chargeType⟩ := by
          simp [CafePos.stripeRetrieve, hφ inp hinp, hi, hst]
        rw [hretrieve]
        exact pure hq
      | canceled =>
        have hq := hlets (by simp [hst]) s.gateway (.refl _) fun i' hi' => by
          obtain rfl := Option.some.inj hi'
          exact ⟨it, hi, hst⟩
        have hcancel : stripeCancel inp i s.gateway = (.error .invalidRequest, s.gateway) := by
          simp [stripeCancel, hreach, hi, hst]
        rw [hcancel]
        refine bind (stripeRetrieve fun inp hinp => ?_)
        have hretrieve : CafePos.stripeRetrieve inp i s.gateway =
            .ok ⟨.canceled, ⟨i⟩, inp.chargeType⟩ := by
          simp [CafePos.stripeRetrieve, hφ inp hinp, hi, hst]
        rw [hretrieve]
        exact pure hq

end Ends

/-! ## What a sweep leaves behind -/

/-- The orders of a batch that the gateway lets go of. -/
def Shared.reclaimed (s : Shared) (batch : List Id) : List Id := batch.filter s.releases

/-- What `expireOne` asks of `transitionOrder`. -/
def expiry (orderId : Id) : TransitionRequest :=
  { orderId, source := .pendingPayment, target := .expired, actor := systemActor }

/-- An order row, expired. -/
def Order.expire (o : Order) : Order := Statement.moved o .pendingPayment .expired

/-- A payment row, cancelled. -/
def Payment.cancel (p : Payment) : Payment := { p with status := .cancelled }

/-- The payment is the live payment of one of the orders. -/
def Db.isLiveOf (db : Db) (orders : List Id) (paymentId : Id) : Bool :=
  orders.any fun id => (db.livePayment id).any fun q => q.1 == paymentId

/-- What a sweep over `batch`, begun in state `s`, leaves behind: the orders the gateway lets go of
have expired, each with its history row, their live payments are cancelled and so are the intents
of these, and every other row is as it was. -/
structure Reclaims (s : Shared) (batch : List Id) (s' : Shared) : Prop where
  orders : ∀ id, s'.db.orders.get id =
    (s.db.orders.get id).map fun o => if id ∈ s.reclaimed batch then o.expire else o
  payments : ∀ id, s'.db.payments.get id =
    (s.db.payments.get id).map fun p =>
      if s.db.isLiveOf (s.reclaimed batch) id then p.cancel else p
  history : s'.db.orderStatusHistory =
    s.db.orderStatusHistory ++ (s.reclaimed batch).map fun id => (expiry id).history
  others : s'.db = { s.db with
    orders := s'.db.orders
    payments := s'.db.payments
    orderStatusHistory := s'.db.orderStatusHistory }
  live : ∀ id ∉ batch, s'.db.livePayments id = s.db.livePayments id
  dead : ∀ id ∈ s.reclaimed batch, ∀ i,
    ((s.db.livePayment id).bind fun q => q.2.providerIntentId) = some i → s'.gateway.Cancelled i
  asked : s.gateway.Asked s'.gateway

/-- Nothing was released, and nothing has changed. -/
theorem Reclaims.refl {s : Shared} {batch : List Id} (h : s.reclaimed batch = []) :
    Reclaims s batch s where
  orders id := by simp [h]
  payments id := by simp [h, Db.isLiveOf]
  history := by simp [h]
  others := rfl
  live _ _ := rfl
  dead id hid := by simp [h] at hid
  asked := .refl _

/-- The sweep of one batch leaves what is done for the orders of another to be done. -/
theorem Reclaims.releases {s s' : Shared} {batch : List Id} (h : Reclaims s batch s') {id : Id}
    (hid : id ∉ batch) : s'.releases id = s.releases id := by
  rw [Shared.releases, Shared.releases, h.asked.lets, Db.livePayment, Db.livePayment, h.live id hid]

theorem Reclaims.reclaimed {s s' : Shared} {batch rest : List Id} (h : Reclaims s batch s')
    (hrest : ∀ id ∈ rest, id ∉ batch) : s'.reclaimed rest = s.reclaimed rest :=
  List.filter_congr fun id hid => h.releases (hrest id hid)

/-- One batch after another. -/
theorem Reclaims.append {s s₁ s₂ : Shared} {batch rest : List Id} (h₁ : Reclaims s batch s₁)
    (h₂ : Reclaims s₁ rest s₂) (hrest : ∀ id ∈ rest, id ∉ batch) :
    Reclaims s (batch ++ rest) s₂ := by
  have hreclaimed : s.reclaimed (batch ++ rest) = s.reclaimed batch ++ s.reclaimed rest :=
    List.filter_append ..
  have hsame : s₁.reclaimed rest = s.reclaimed rest := h₁.reclaimed hrest
  have hlive : ∀ id ∈ s.reclaimed rest, s₁.db.livePayment id = s.db.livePayment id := by
    intro id hid
    rw [Db.livePayment, Db.livePayment, h₁.live id (hrest id (List.mem_of_mem_filter hid))]
  refine ⟨fun id => ?_, fun id => ?_, ?_, ?_, fun id hid => ?_, fun id hid i hi => ?_, ?_⟩
  · rw [h₂.orders, h₁.orders, hreclaimed, hsame, Option.map_map]
    congr 1
    funext o
    by_cases hb : id ∈ s.reclaimed batch
    · have hnot : id ∉ s.reclaimed rest := fun hr =>
        hrest id (List.mem_of_mem_filter hr) (List.mem_of_mem_filter hb)
      simp [hb, hnot]
    · simp [hb]
  · have hof : s₁.db.isLiveOf (s.reclaimed rest) id = s.db.isLiveOf (s.reclaimed rest) id := by
      rw [Bool.eq_iff_iff, Db.isLiveOf, Db.isLiveOf, List.any_eq_true, List.any_eq_true]
      exact exists_congr fun x => and_congr_right fun hx => by rw [hlive x hx]
    have happend : s.db.isLiveOf (s.reclaimed batch ++ s.reclaimed rest) id =
        (s.db.isLiveOf (s.reclaimed batch) id || s.db.isLiveOf (s.reclaimed rest) id) :=
      List.any_append
    rw [h₂.payments, h₁.payments, hreclaimed, hsame, hof, happend, Option.map_map]
    congr 1
    funext p
    -- a payment that both batches cancel is cancelled
    cases s.db.isLiveOf (s.reclaimed batch) id <;> cases s.db.isLiveOf (s.reclaimed rest) id <;> rfl
  · rw [h₂.history, h₁.history, hreclaimed, hsame, List.map_append, List.append_assoc]
  · rw [h₂.others, h₁.others]
  · rw [List.mem_append, not_or] at hid
    exact (h₂.live id hid.2).trans (h₁.live id hid.1)
  · rw [hreclaimed, List.mem_append] at hid
    rcases hid with hb | hr
    · exact (h₁.dead id hb i hi).grows h₂.asked.grows
    · exact h₂.dead id (hsame ▸ hr) i ((hlive id hr).symm ▸ hi)
  · exact h₁.asked.trans h₂.asked

/-! ## One order -/

namespace Ends

variable {E : Err → Sess → Shared → Prop} {l : Sess} {s : Shared}

/-- `settleLive`, as a sweep calls it, on a payment the transaction sees. -/
theorem settleLive {live : Option (Id × Payment)} {Q : Unit → Sess → Shared → Prop}
    (hl : l.active = true)
    (hlive : ∀ q, live = some q → (l.view store s.db).payments.get q.1 = some q.2)
    (h : ∀ l', Adds l l' (liveWrites live false) → Q () l' s) :
    Ends φ (CafePos.settleLive live false) Q E l s := by
  cases live with
  | none => exact pure (h l (.refl hl))
  | some q =>
    refine bind (statement hl fun inp l' eff _ heff hadds => ⟨rfl, pure (h l' ?_)⟩)
    simp only [Statement.effect, hlive q rfl, Bool.false_and] at heff
    subst heff
    exact hadds

end Ends

/-- The order expires, and its live payment with it. -/
theorem Reclaims.expire {s : Shared} {id : Id} {row : Order} {g : Gateway}
    (hrow : s.db.orders.get id = some row) (hlets : s.releases id) (hasked : s.gateway.Asked g)
    (hdead : ∀ i, ((s.db.livePayment id).bind fun q => q.2.providerIntentId) = some i →
      g.Cancelled i) :
    Reclaims s [id]
      ⟨store.applyAll (moveWrites (expiry id) row ++ liveWrites (s.db.livePayment id) false) s.db,
        g⟩ := by
  have hreclaimed : s.reclaimed [id] = [id] := List.filter_eq_self.mpr fun x hx => by
    rw [List.mem_singleton.mp hx]
    exact hlets
  have horders : ∀ x, (s.db.orders.put id row.expire).get x =
      (s.db.orders.get x).map fun o => if x ∈ [id] then o.expire else o := by
    intro x
    rw [Table.get_put]
    by_cases hx : x = id
    · rw [hx, hrow]
      simp
    · simp [hx]
  have hof : ∀ x, s.db.isLiveOf [id] x = (s.db.livePayment id).any fun q => q.1 == x :=
    fun x => by rw [Db.isLiveOf, List.any_cons, List.any_nil, Bool.or_false]
  cases hq : s.db.livePayment id with
  | none =>
    refine ⟨fun x => ?_, fun x => ?_, ?_, rfl, fun _ _ => rfl, fun x hx => ?_, hasked⟩
    · rw [hreclaimed]
      exact horders x
    · simp only [hreclaimed, hof, hq, Option.any_none, Bool.false_eq_true, if_false, Option.map_id']
      rfl
    · rw [hreclaimed]
      rfl
    · rw [hreclaimed, List.mem_singleton] at hx
      rw [hx]
      exact hdead
  | some q =>
    obtain ⟨hp, hpo, hplive⟩ := livePayments_head hq
    refine ⟨fun x => ?_, fun x => ?_, ?_, rfl, fun x hx => ?_, fun x hx => ?_, hasked⟩
    · rw [hreclaimed]
      exact horders x
    · rw [hreclaimed, hof, hq, Option.any_some]
      change (s.db.payments.put q.1 q.2.cancel).get x = _
      rw [Table.get_put]
      by_cases hx : x = q.1
      · simp [hx, hp]
      · have hne : ¬ q.1 = x := fun h => hx h.symm
        simp [hx, hne]
    · rw [hreclaimed]
      rfl
    · -- the payment belongs to the order that expired
      have hne : q.2.orderId ≠ x := fun h => hx (List.mem_singleton.mpr (h.symm.trans hpo))
      refine Table.select_put_of_not _ (fun u hu => ?_) ?_
      · obtain rfl := Option.some.inj (hp.symm.trans hu)
        simp [hne]
      · simp [hne]
    · rw [hreclaimed, List.mem_singleton] at hx
      rw [hx]
      exact hdead

/-- One order, while nobody else calls. -/
theorem expireOne_ends (hφ : ∀ inp, φ inp → inp.reachable = true) {l : Sess} (hl : Between l)
    {s : Shared} {id : Id} (hid : s.db.waits id) :
    Ends φ (expireOne id)
      (fun done l' s' => Between l' ∧ done = s.releases id ∧ Reclaims s [id] s')
      (fun _ _ _ => False) l s := by
  obtain ⟨row, hrow, hpending⟩ := (Option.any_eq_true _ _).mp hid
  rw [beq_iff_eq] at hpending
  refine .tryCatch (.bind (.select (.bind (.cancelOverdueIntent hφ (fun hlets g hasked hdead => ?_)
    fun hholds => ?_))))
  · refine .bind (.transaction (.bind (.transitionOrder rfl hrow hpending fun l₁ hadds₁ =>
      .bind (.settleLive hadds₁.active (fun q hq => ?_) fun l₂ hadds₂ => .pure (.pure ?_)))))
    · have hlog : l₁.log = moveWrites (expiry id) row := hadds₁.log
      rw [Session.view, hlog]
      exact (livePayments_head hq).1
    · have hlog : l₂.log =
          moveWrites (expiry id) row ++ liveWrites (s.db.livePayment id) false := by
        rw [hadds₂.log, hadds₁.log]
        rfl
      refine ⟨⟨rfl, rfl⟩, hlets.symm, ?_⟩
      rw [hlog]
      exact .expire hrow hlets hasked hdead
  · have hnone : s.reclaimed [id] = [] := List.filter_eq_nil_iff.mpr fun x hx => by
      rw [List.mem_singleton.mp hx]
      exact hholds
    have hno : s.releases id = false := Bool.eq_false_iff.mpr hholds
    exact ⟨.pure ⟨hl, hno.symm, .refl hnone⟩, .pure ⟨hl, hno.symm, .refl hnone⟩⟩

/-! ## The sweep, alone -/

/-- By induction on the batch: what is done for the first order changes nothing that is read of
another. -/
theorem expireLoop_ends (hφ : ∀ inp, φ inp → inp.reachable = true) (batch : List Id) (expired : ℕ)
    (hnodup : batch.Nodup) {l : Sess} (hl : Between l) {s : Shared}
    (hbatch : ∀ id ∈ batch, s.db.waits id) :
    Ends φ (expireLoop expired batch)
      (fun n _ s' => n = expired + batch.countP s.releases ∧ Reclaims s batch s')
      (fun _ _ _ => False) l s := by
  induction batch generalizing expired l s with
  | nil => exact .pure ⟨rfl, .refl rfl⟩
  | cons id batch ih =>
    obtain ⟨hid, hnodup⟩ := List.nodup_cons.mp hnodup
    refine .bind (.mono (expireOne_ends hφ hl (hbatch id List.mem_cons_self)) ?_ fun _ _ _ h => h)
    rintro done l₁ s₁ ⟨hl₁, rfl, h₁⟩
    have hrest : ∀ x ∈ batch, x ∉ [id] := fun x hx h => hid (List.mem_singleton.mp h ▸ hx)
    have hwaits : ∀ x ∈ batch, s₁.db.waits x := by
      intro x hx
      have hne : x ∉ s.reclaimed [id] := fun h => hrest x hx (List.mem_of_mem_filter h)
      have hkept := h₁.orders x
      simp only [hne, if_false, Option.map_id'] at hkept
      rw [Db.waits, hkept]
      exact hbatch x (List.mem_cons_of_mem _ hx)
    refine .mono (ih _ hnodup hl₁ hwaits) ?_ fun _ _ _ h => h
    rintro n l₂ s₂ ⟨rfl, h₂⟩
    refine ⟨?_, h₁.append h₂ hrest⟩
    have hsame : batch.countP s₁.releases = batch.countP s.releases :=
      List.countP_congr fun x hx => by rw [h₁.releases (hrest x hx)]
    rw [hsame, List.countP_cons]
    cases s.releases id
    · rfl
    · simp only [if_true]
      omega

/-- Who is overdue after a sweep: who was, and was not let go of. -/
theorem Reclaims.mem_overdue {s s' : Shared} {batch : List Id} (h : Reclaims s batch s')
    {now : Instant} {id : Id} :
    id ∈ s'.db.overdue now ↔ id ∈ s.db.overdue now ∧ id ∉ s.reclaimed batch := by
  have hmem : ∀ db : Db, id ∈ db.overdue now ↔ (db.orders.get id).any (Order.overdue now) := by
    intro db
    simp [Db.overdue, Table.mem_select, Option.any_eq_true]
  rw [hmem, hmem, h.orders]
  by_cases hid : id ∈ s.reclaimed batch
  · cases s.db.orders.get id <;> simp [hid, Order.overdue, Order.expire, Statement.moved]
  · simp [hid]

/-- If there is room for them, the query returns all that are overdue. -/
theorem Db.AnswersOverdue.all {db : Db} {now : Instant} {batch : List Id}
    (h : db.AnswersOverdue now batch) (hroom : (db.overdue now).length ≤ maxExpiriesPerTick)
    {id : Id} (hid : id ∈ db.overdue now) : id ∈ batch := by
  obtain ⟨hnodup, hsub, hlength⟩ := h
  rw [min_eq_left hroom] at hlength
  have hperm : batch.Perm (db.overdue now) :=
    (List.subperm_of_subset hnodup hsub).perm_of_length_le hlength.ge
  exact hperm.mem_iff.mpr hid

/-- **A sweep expires what the gateway lets go of.** Whatever the query of the sweep returned and
whatever the outside supplies, as long as Stripe can be reached and nobody else calls: the sweep
returns the number of orders the gateway lets go of, has expired these and touched nothing else; if
there was room for all that were overdue, those that still are, are the ones it holds on to. -/
theorem sweep_expires_released {s : Shared} {now : Instant} {batch : List Id}
    (hbatch : s.db.AnswersOverdue now batch) (inp : ℕ → Input)
    (hinp : ∀ n, (inp n).reachable = true) :
    ∃ ops l' s', (expireOverdue batch).run.traced machine (fun _ => false) inp idle s =
        some (ops, .ok (batch.countP s.releases), l', s') ∧ Reclaims s batch s' ∧
      ((s.db.overdue now).length ≤ maxExpiriesPerTick →
        ∀ id, id ∈ s'.db.overdue now ↔ id ∈ s.db.overdue now ∧ ¬ s.releases id) := by
  have hwaits : ∀ id ∈ batch, s.db.waits id := by
    intro id hid
    obtain ⟨⟨id', o⟩, hmem, rfl⟩ := List.mem_map.mp (hbatch.2.1 id hid)
    obtain ⟨ho, hover⟩ := Table.mem_select.mp hmem
    simp only [Order.overdue, Bool.and_eq_true] at hover
    simp [Db.waits, ho, hover.1]
  have hends : Ends (fun inp => inp.reachable = true) (expireOverdue batch) _ _ idle s :=
    expireLoop_ends (fun _ h => h) batch 0 hbatch.1 ⟨rfl, rfl⟩ hwaits
  obtain ⟨ops, r, l', s', ht, ⟨n, rfl, rfl, hreclaims⟩ | ⟨_, -, hfalse⟩⟩ := hends.traced hinp
  · rw [Nat.zero_add] at ht
    refine ⟨ops, l', s', ht, hreclaims, fun hroom id => ?_⟩
    rw [hreclaims.mem_overdue, Shared.reclaimed, List.mem_filter]
    constructor
    · rintro ⟨hid, hnot⟩
      exact ⟨hid, fun h => hnot ⟨hbatch.all hroom hid, h⟩⟩
    · rintro ⟨hid, hnot⟩
      exact ⟨hid, fun h => hnot h.2⟩
  · exact hfalse.elim

/-- Orders 100 and 101 are taken; the customer of order 100 pays by card, and the webhook has not
come. -/
def paidAndForgotten : List PosAct :=
  takeOrder ++ payByCard 1 ++ .world (.confirm "pi" "ev1") ::
    .start (.createOrder (.staff 7) oneLatte none) :: steps 2 8 (supply 101 "")

theorem sweep_expires_released_forgotten : ∃ w, Reachable cornerCafe w ∧ ∃ ops l' s',
    (expireOverdue [100, 101]).run.traced machine (fun _ => false) (fun _ => supply 0 "") idle
      w.shared = some (ops, .ok 1, l', s') ∧ 100 ∈ s'.db.overdue 700000 ∧
      101 ∉ s'.db.overdue 700000 := by
  obtain ⟨w, hw, hbatch, hcount, hroom, hpaid, hholds, hlets⟩ :=
    Reachable.exists_of_runIf cornerCafe paidAndForgotten
      (fun w => w.shared.db.AnswersOverdue 700000 [100, 101] ∧
        [100, 101].countP w.shared.releases = 1 ∧
        (w.shared.db.overdue 700000).length ≤ maxExpiriesPerTick ∧
        100 ∈ w.shared.db.overdue 700000 ∧ ¬ w.shared.releases 100 ∧ w.shared.releases 101 = true)
      (by decide)
  obtain ⟨ops, l', s', ht, -, hafter⟩ :=
    sweep_expires_released hbatch (fun _ => supply 0 "") fun _ => rfl
  rw [hcount] at ht
  exact ⟨w, hw, ops, l', s', ht, (hafter hroom 100).mpr ⟨hpaid, hholds⟩,
    fun h => ((hafter hroom 101).mp h).2 hlets⟩

end CafePos
