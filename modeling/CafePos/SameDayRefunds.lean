import CafePos.Unhindered
import CafePos.PaymentSteps
import CafePos.ZReports
import Mathlib

/-!
# Same-day refunds

`CreateRefundService.refund` compares the day of the call with the day of the order, which is
stamped when the order is created and never moves. The day that took the money may be a later
one: a draft can be parked overnight, and an order created just before the boundary can be paid
just after it. Such a payment cannot be refunded on the day it was made, and can be refunded on
the day before.

* `refundAccepted_iff` — a refund of what is left, asked for while nobody else calls, is
  accepted exactly on the business day of the order;
* `same_day_refunds_iff` — so refunds are confined to the day that took the money exactly if
  that is the business day of the order.
-/

namespace CafePos

open Interleaving

variable {cfg : Config}

/-! ## Amounts -/

/-- A payment after a log: what it was, or what the log wrote. -/
theorem get_payment_applyAll {ws : List Write} {db : Db} {id : Id} {p : Payment}
    (h : (store.applyAll ws db).payments.get id = some p) :
    db.payments.get id = some p ∨ .payment id p ∈ ws := by
  induction ws generalizing db with
  | nil => exact Or.inl h
  | cons w ws ih =>
    rcases ih h with h | h
    · cases w with
      | payment id' p' =>
        simp only [store_apply, Write.apply, Table.get_put] at h
        split at h
        · rename_i hid
          obtain rfl := Option.some.inj h
          subst hid
          exact Or.inr (List.mem_cons_self ..)
        · exact Or.inl h
      | _ => exact Or.inl h
    · exact Or.inr (List.mem_cons_of_mem _ h)

/-- Every stored payment passed the checks of its table. -/
def AmountsFit (db : Db) : Prop := ∀ id p, db.payments.get id = some p → int4 p.amountMinor

/-- The write gives no payment an amount its table refuses. -/
def Write.amountFits : Write → Prop
  | .payment _ p => int4 p.amountMinor
  | _ => True

theorem Commits.amountFits {P : PosPermit} {c : Call} {s : Shared} {ws : List Write}
    (h : Commits cfg P c s ws) (hs : AmountsFit s.db) : ∀ w ∈ ws, w.amountFits := by
  have hmove : ∀ {r : TransitionRequest} {row : Order}, ∀ w ∈ moveWrites r row, w.amountFits :=
    forall_moveWrites (φ := Write.amountFits) trivial trivial
  have hstored : ∀ {p : Payment}, p.storable = true → int4 p.amountMinor := by
    intro p hp
    simp only [Payment.storable, Bool.and_eq_true] at hp
    exact hp.1.1
  -- a new status leaves the amount alone
  have hsettle : ∀ {id : Id} {p p' : Payment}, s.db.payments.get id = some p →
      p'.amountMinor = p.amountMinor → (Write.payment id p').amountFits := by
    intro id p p' hp hsame
    rw [Write.amountFits, hsame]
    exact hs id p hp
  cases h with
  | create =>
    refine forall_underKey (φ := Write.amountFits) (fun _ _ => trivial) ?_ _ _ _
    exact forall_createWrites trivial trivial (fun _ => trivial) trivial
  | checkout =>
    refine List.forall_mem_append.mpr ⟨hmove, ?_⟩
    simp [Write.amountFits]
  | cash hm ht hle hkey hrow hpending hp hfree hconf hstore =>
    refine forall_underKey (φ := Write.amountFits) (fun _ _ => trivial) ?_ _ _ _
    exact List.forall_mem_cons.mpr ⟨hstored hstore, hmove⟩
  | openPayment hm hkey hrow hmine hp hopened hfree hconf hstore =>
    refine forall_underKey (φ := Write.amountFits) (fun _ _ => trivial) ?_ _ _ _
    exact List.forall_mem_singleton.mpr (hstored hstore)
  | record => simp [Write.amountFits]
  | skip => exact forall_stampWrites fun _ => trivial
  | markPayment he hno hp hstatus =>
    refine List.forall_mem_append.mpr ⟨?_, forall_stampWrites fun _ => trivial⟩
    exact forall_settleWrites (φ := Write.amountFits) (hsettle hp rfl)
  | markPaid he hp hcap hrow hpending =>
    refine List.forall_mem_append.mpr ⟨hmove, List.forall_mem_append.mpr ⟨?_, ?_⟩⟩
    · exact forall_settleWrites (φ := Write.amountFits) (hsettle hp rfl)
    · exact forall_stampWrites fun _ => trivial
  | close hcl hrow hsrc hlive =>
    refine List.forall_mem_append.mpr ⟨hmove, ?_⟩
    exact forall_liveWrites (φ := Write.amountFits) fun q hq => hsettle (hlive q hq).1 rfl
  | staff => exact hmove
  | refundPart => simp [Write.amountFits]
  | refundAll => exact List.forall_mem_cons.mpr ⟨trivial, hmove⟩

theorem Reachable.amountsFit {w : PosWorld} (h : Reachable cfg w) : AmountsFit w.shared.db := by
  refine h.db_invariant (J := AmountsFit) (fun _ _ hp => by cases hp) ?_
  intro c s ws _ hJ hc id p hp
  rcases get_payment_applyAll hp with hp | hp
  · exact hJ id p hp
  · exact hc.amountFits hJ _ hp

/-- A refund gives something back. -/
def RefundsPositive (db : Db) : Prop := ∀ r ∈ db.refunds, 0 < r.amountMinor

theorem Reachable.refundsPositive {w : PosWorld} (h : Reachable cfg w) :
    RefundsPositive w.shared.db := by
  refine h.db_invariant (J := RefundsPositive) (fun _ hr => absurd hr List.not_mem_nil) ?_
  intro c s ws _ hJ hc
  have hadd : ∀ {r : Refund}, 0 < r.amountMinor → ∀ x ∈ s.db.refunds ++ [r],
      0 < x.amountMinor := by
    intro r hr x hx
    rcases List.mem_append.mp hx with hx | hx
    · exact hJ x hx
    · rw [List.mem_singleton.mp hx]
      exact hr
  by_cases hrefund : ∃ userId id input, c = .refund userId id input
  · obtain ⟨userId, id, input, rfl⟩ := hrefund
    cases hc with
    | refundPart hp hsucc hpos hlt => exact hadd hpos
    | refundAll hp hsucc hpos hall hrow => exact hadd hpos
    | close hcloses => cases hcloses
  · obtain ⟨hrefunds, -⟩ := sparesRefunds_applyAll
      (hc.sparesRefunds fun userId id input heq => hrefund ⟨userId, id, input, heq⟩) s.db
    rw [RefundsPositive, hrefunds]
    exact hJ

/-- Nothing is given back twice over: the sum of refunds is not negative. -/
theorem RefundsPositive.refunded_nonneg {db : Db} (h : RefundsPositive db) (id : Id) :
    0 ≤ db.refunded id := by
  refine List.sum_nonneg fun x hx => ?_
  obtain ⟨r, hr, rfl⟩ := List.mem_map.mp hx
  exact (h r (List.mem_filter.mp hr).1).le

/-! ## A refund nobody hinders -/

/-- What a refund is asked for: a payment that succeeded, its order, and an amount of what is
left. -/
structure Refundable (db : Db) (id : Id) (amount : ℤ) (p : Payment) (o : Order) : Prop where
  payment : db.payments.get id = some p
  succeeded : p.status = .succeeded
  order : db.orders.get p.orderId = some o
  positive : 1 ≤ amount
  left : amount ≤ p.amountMinor - db.refunded id

section refund

variable {s : Shared} {id userId : Id} {p : Payment} {o : Order} {r : Instant}

/-- On another day the refund is turned away, and nothing has changed. -/
theorem refund_otherDay {input : CreateRefundInput}
    (h : Refundable s.db id input.amountMinor p o)
    (hday : o.businessDay ≠ cfg.businessDayOf r) :
    Ends (fun inp => inp.now = r) (refund cfg userId id input) (fun _ _ _ => False)
      (fun _ _ s' => s' = s) idle s := by
  refine .bind (.select ?_)
  simp only [Query.answer, h.payment, h.succeeded]
  refine .bind (.select ?_)
  simp only [Query.answer, h.order]
  refine .bind (.now fun inp hinp => ?_)
  subst hinp
  rw [if_pos hday]
  exact .throw rfl

/-- On the day of the order it is given. -/
theorem refund_sameDay {input : CreateRefundInput}
    (h : Refundable s.db id input.amountMinor p o)
    (hint : int4 p.amountMinor) (hnonneg : 0 ≤ s.db.refunded id)
    (hday : o.businessDay = cfg.businessDayOf r) :
    Ends (fun inp => inp.now = r) (refund cfg userId id input)
      (fun view _ s' => view.amountMinor = input.amountMinor ∧
        s'.db.refunds.map Refund.amountMinor =
          s.db.refunds.map Refund.amountMinor ++ [input.amountMinor])
      (fun _ _ _ => False) idle s := by
  have hamount : int4 input.amountMinor := by
    have h₁ := h.positive
    have h₂ := h.left
    simp only [int4, decide_eq_true_eq] at hint ⊢
    omega
  have hpositive : ¬ input.amountMinor ≤ 0 := by
    have := h.positive
    omega
  have hfits : ¬ input.amountMinor > p.amountMinor - s.db.refunded id := Int.not_lt.mpr h.left
  refine .bind (.select ?_)
  simp only [Query.answer, h.payment, h.succeeded]
  refine .bind (.select ?_)
  simp only [Query.answer, h.order]
  refine .bind (.now fun inp hinp => ?_)
  subst hinp
  rw [if_neg (not_not.mpr hday)]
  refine .afterCommit (.bind (.statement rfl fun inp l₁ e _ he hadds₁ => ⟨rfl, ?_⟩))
  subst he
  have hlog₁ : l₁.log = [] := hadds₁.log
  refine .bind (.selectTx ?_)
  simp only [Query.answer, Session.view, hlog₁, Store.applyAll_nil]
  rw [if_neg hfits]
  refine .bind (.raising (.statement hadds₁.active fun inp l₂ e _ he hadds₂ => ⟨rfl, ?_⟩))
  simp only [Statement.effect, hamount, Bool.not_true, Bool.false_eq_true, if_false,
    if_neg hpositive] at he
  subst he
  have hlog₂ : l₂.log = [.refund ⟨inp.fresh, id, input.amountMinor, input.reason, .succeeded,
      userId⟩] := by rw [hadds₂.log, hlog₁]; rfl
  dsimp only
  split
  · -- the whole payment is given back, and the order moves
    have hrow : (l₂.view store s.db).orders.get p.orderId = some o := by
      rw [Session.view, hlog₂]
      exact h.order
    refine .bind (.transitionOrder hadds₂.active hrow rfl fun l₃ hadds₃ => .pure ?_)
    rintro l' -
    refine ⟨rfl, ?_⟩
    simp only [Shared.commit, hadds₃.log, hlog₂, moveWrites, List.singleton_append,
      Store.applyAll_cons, Store.applyAll_nil, store_apply, Write.apply, List.map_append,
      List.map_cons, List.map_nil]
  · refine .pure ?_
    rintro l' -
    refine ⟨rfl, ?_⟩
    simp only [Shared.commit, hlog₂, Store.applyAll_cons, Store.applyAll_nil, store_apply,
      Write.apply, List.map_append, List.map_cons, List.map_nil]

/-- The refund is accepted: asked for in state `s` while nobody else calls, with `inp n` what
the outside supplies to its `n`-th operation, it returns, and a refund of the amount is
stored. -/
def RefundAccepted (cfg : Config) (userId id : Id) (input : CreateRefundInput) (inp : ℕ → Input)
    (s : Shared) : Prop :=
  ∃ ops view l' s', (refund cfg userId id input).run.traced machine (fun _ => false) inp idle s =
      some (ops, .ok view, l', s') ∧
    s'.db.refunds.map Refund.amountMinor =
      s.db.refunds.map Refund.amountMinor ++ [input.amountMinor]

/-- A refund of what is left is accepted exactly on the business day of the order. -/
theorem refundAccepted_iff (input : CreateRefundInput)
    (h : Refundable s.db id input.amountMinor p o) (hint : int4 p.amountMinor)
    (hnonneg : 0 ≤ s.db.refunded id) {inp : ℕ → Input} (hinp : ∀ n, (inp n).now = r) :
    RefundAccepted cfg userId id input inp s ↔ o.businessDay = cfg.businessDayOf r := by
  constructor
  · rintro ⟨ops, view, l', s', ht, -⟩
    by_contra hday
    obtain ⟨ops', r', l'', s'', ht', hend⟩ := (refund_otherDay h hday).traced hinp
    obtain ⟨-, hr, -⟩ := Option.some.inj (ht.symm.trans ht') |> Prod.mk.inj
      |>.imp_right Prod.mk.inj
    rcases hend with ⟨a, -, hfalse⟩ | ⟨e, rfl, -⟩
    · exact hfalse
    · cases hr
  · intro hday
    obtain ⟨ops, r', l', s', ht, hend⟩ := (refund_sameDay h hint hnonneg hday).traced hinp
    rcases hend with ⟨view, rfl, -, hstored⟩ | ⟨e, -, hfalse⟩
    · exact ⟨ops, view, l', s', ht, hstored⟩
    · exact hfalse.elim

end refund

/-! ## The instant a payment succeeds -/

/-- The payment has succeeded. -/
def Db.succeeded (db : Db) (id : Id) : Bool :=
  (db.payments.get id).any fun p => p.status == .succeeded

/-- On the way to `w`, an operation performed at instant `t` made the payment `SUCCEEDED`. -/
def BecameSucceeded (cfg : Config) (w : PosWorld) (id : Id) (t : Instant) : Prop :=
  ∃ v v' i inp, Reachable cfg v ∧ v.act (system cfg) (.step i inp) = some v' ∧
    Runs (system cfg) .all v' w ∧ v.shared.db.succeeded id = false ∧
    v'.shared.db.succeeded id = true ∧ inp.now = t

/-- Every payment that has succeeded did so at some instant of the run. -/
theorem Reachable.becameSucceeded {w : PosWorld} (h : Reachable cfg w) {id : Id}
    (hs : w.shared.db.succeeded id = true) : ∃ t, BecameSucceeded cfg w id t := by
  induction h with
  | refl => cases hs
  | @tail v w a hv ha hact ih =>
    cases hbefore : v.shared.db.succeeded id with
    | true =>
      obtain ⟨t, v₁, v₂, i, inp, hv₁, hstep, hrun, h₁, h₂, hnow⟩ := ih hbefore
      exact ⟨t, v₁, v₂, i, inp, hv₁, hstep, hrun.tail (Runs.allows_all v a) hact, h₁, h₂, hnow⟩
    | false =>
      have hdb : w.shared.db ≠ v.shared.db := by
        intro hdb
        rw [hdb, hbefore] at hs
        cases hs
      cases a with
      | step i inp => exact ⟨inp.now, v, w, i, inp, hv, hact, .refl, hbefore, hs, rfl⟩
      | start c =>
        cases World.transition_of_act hact
        exact absurd rfl hdb
      | crash i =>
        cases World.transition_of_act hact
        exact absurd rfl hdb
      | world e =>
        cases World.transition_of_act hact with
        | world hs' => exact absurd (happen_db hs') hdb

/-- **Same-day refunds, exactly when the order is of that day.** In every reachable world, for
every payment that has succeeded and every amount of what is left of it: refunds asked for
while nobody else calls are accepted on the business day of the instant at which the payment
became `SUCCEEDED`, and on no other, if and only if that is the business day of the order. -/
theorem same_day_refunds_iff {w : PosWorld} (h : Reachable cfg w) {id : Id} {p : Payment}
    {o : Order} {amount : ℤ} (hr : Refundable w.shared.db id amount p o) :
    (∃ t, BecameSucceeded cfg w id t) ∧
    ∀ t, BecameSucceeded cfg w id t → ∀ userId reason,
      ((∀ r inp, (∀ n, (inp n).now = r) →
        (RefundAccepted cfg userId id ⟨amount, reason⟩ inp w.shared ↔
          cfg.businessDayOf r = cfg.businessDayOf t)) ↔
      o.businessDay = cfg.businessDayOf t) := by
  have haccepted : ∀ userId reason r inp, (∀ n, (inp n).now = r) →
      (RefundAccepted cfg userId id ⟨amount, reason⟩ inp w.shared ↔
        o.businessDay = cfg.businessDayOf r) := fun userId reason r inp hinp =>
    refundAccepted_iff ⟨amount, reason⟩ hr (h.amountsFit id p hr.payment)
      (h.refundsPositive.refunded_nonneg id) hinp
  refine ⟨h.becameSucceeded (by simp [Db.succeeded, hr.payment, hr.succeeded]), ?_⟩
  intro t _ userId reason
  constructor
  · intro hall
    have hnow := hall t (fun _ => { now := t }) fun _ => rfl
    exact (haccepted userId reason t _ fun _ => rfl).mp (hnow.mpr rfl)
  · intro hday r inp hinp
    rw [haccepted userId reason r inp hinp, hday]
    exact eq_comm

/-! ## Paid today, paid tomorrow -/

/-- A run whose next operation makes payment `id` succeed, evaluated. -/
theorem exists_becoming (cfg : Config) (acts : List PosAct) (i : ℕ) (inp : Input) (id : Id)
    (p : PosWorld → Prop) [DecidablePred p]
    (h : (opening.runIf (system cfg) (fun _ _ => true) acts).any (fun v =>
      !v.shared.db.succeeded id && (v.act (system cfg) (.step i inp)).any fun w =>
        w.shared.db.succeeded id && decide (p w)) = true) :
    ∃ w, Reachable cfg w ∧ BecameSucceeded cfg w id inp.now ∧ p w := by
  simp only [Option.any_eq_true, Bool.and_eq_true, Bool.not_eq_true', decide_eq_true_eq] at h
  obtain ⟨v, hv, hbefore, w, hw, hafter, hp⟩ := h
  have hreach : Reachable cfg v := Runs.of_runIf (fun w a _ => Runs.allows_all w a) .refl hv
  exact ⟨w, hreach.tail (Runs.allows_all v _) hw,
    ⟨v, w, i, inp, hreach, hw, .refl, hbefore, hafter, rfl⟩, hp⟩

/-- Payment 200, of 9000, has succeeded, nothing of it was given back, and its order is of the
first day. -/
def IsFirstDaySale (w : PosWorld) : Prop :=
  w.shared.db.refunded 200 = 0 ∧ (w.shared.db.payments.get 200).any fun p =>
    p.status == .succeeded && p.amountMinor == 9000 &&
      (w.shared.db.orders.get p.orderId).any fun o => o.businessDay == "2026-01-01"

instance (w : PosWorld) : Decidable (IsFirstDaySale w) := inferInstanceAs (Decidable (_ ∧ _))

theorem IsFirstDaySale.refundable {w : PosWorld} (h : IsFirstDaySale w) :
    ∃ p o, Refundable w.shared.db 200 9000 p o ∧ o.businessDay = "2026-01-01" := by
  obtain ⟨hzero, hany⟩ := h
  simp only [Option.any_eq_true, Bool.and_eq_true, beq_iff_eq] at hany
  obtain ⟨p, hp, ⟨hsucc, hamount⟩, o, ho, hday⟩ := hany
  exact ⟨p, o, ⟨hp, hsucc, ho, by decide, by rw [hzero, hamount]; decide⟩, hday⟩

/-- What the outside supplies on the second day. -/
def nextDay (fresh : Id) : Input := { supply fresh "" with now := 1500 }

/-- Staff member 7 takes order 100 and, on the day of `inp`, all but commits its payment in
cash (call `i`). -/
def payingCash (i : ℕ) (inp : Input) : List PosAct :=
  .start (.createPayment (.staff 7) 100 ⟨.cash, some 10000⟩ none) :: steps i 6 inp

theorem same_day_refunds_iff_today : ∃ w, Reachable nightCafe w ∧
    BecameSucceeded nightCafe w 200 5 ∧
    RefundAccepted nightCafe 7 200 ⟨9000, "cold"⟩ (fun _ => supply 0 "") w.shared ∧
    ¬ RefundAccepted nightCafe 7 200 ⟨9000, "cold"⟩ (fun _ => nextDay 0) w.shared := by
  obtain ⟨w, hw, hbecame, hsale⟩ := exists_becoming nightCafe
    (takeOrder ++ payingCash 1 (supply 200 "")) 1 (supply 200 "") 200 IsFirstDaySale (by decide)
  obtain ⟨p, o, hr, hday⟩ := hsale.refundable
  have hall := ((same_day_refunds_iff hw hr).2 5 hbecame 7 "cold").mpr hday
  refine ⟨w, hw, hbecame, (hall 5 _ fun _ => rfl).mpr rfl, fun hlate => ?_⟩
  exact absurd ((hall 1500 _ fun _ => rfl).mp hlate) (by decide)

/-- An order parked on the first day and checked out on the second (calls 0 and 1). -/
def parkOvernight : List PosAct :=
  .start (.createOrder (.staff 7) { oneLatte with draft := true } none) ::
    steps 0 7 (supply 100 "") ++ .start (.checkout (.staff 7) 100) :: steps 1 8 (nextDay 0)

/-- An order parked overnight and paid for on the second day cannot be refunded that day. -/
theorem same_day_refund_refused : ¬ ∀ (w : PosWorld) (id : Id) (amount : ℤ) (p : Payment)
    (o : Order) (t r : Instant) (userId : Id) (reason : String) (inp : ℕ → Input),
    Reachable nightCafe w → Refundable w.shared.db id amount p o →
    BecameSucceeded nightCafe w id t → (∀ n, (inp n).now = r) →
    (RefundAccepted nightCafe userId id ⟨amount, reason⟩ inp w.shared ↔
      nightCafe.businessDayOf r = nightCafe.businessDayOf t) := by
  intro hclaim
  obtain ⟨w, hw, hbecame, hsale⟩ := exists_becoming nightCafe
    (parkOvernight ++ payingCash 2 (nextDay 200)) 2 (nextDay 200) 200 IsFirstDaySale (by decide)
  obtain ⟨p, o, hr, hday⟩ := hsale.refundable
  have haccepted := (hclaim w 200 9000 p o 1500 1500 7 "cold" (fun _ => nextDay 0) hw hr hbecame
    fun _ => rfl).mpr rfl
  have hsame := (refundAccepted_iff ⟨9000, "cold"⟩ hr (hw.amountsFit 200 p hr.payment)
    (hw.refundsPositive.refunded_nonneg 200) (r := 1500) fun _ => rfl).mp haccepted
  rw [hday] at hsame
  exact absurd hsame (by decide)

end CafePos
