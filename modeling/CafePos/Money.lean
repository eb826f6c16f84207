import CafePos.Soundness

/-!
# Money: one order, one payment

What the money tables satisfy in every reachable world, whatever the interleaving:

* an order is in a paid status exactly when one payment of it succeeded, and that payment
  is for the order's total, which is the sum of its lines;
* the refunds of a payment never exceed it, an order is `REFUNDED` exactly when they add up
  to it, and a refund that fails has changed nothing.
-/

namespace CafePos

open Interleaving

variable {cfg : Config}

/-! ## Payments -/

/-- Payment `pid` is a `SUCCEEDED` payment of the order. -/
def Db.PaidBy (db : Db) (orderId pid : Id) : Prop :=
  ∃ p, db.payments.get pid = some p ∧ p.orderId = orderId ∧ p.status = .succeeded

/-- The statuses of an order that was paid for. -/
def paidStatuses : List OrderStatus := [.paid, .inPreparation, .ready, .completed, .refunded]

theorem mem_paidStatuses {status : OrderStatus} : status ∈ paidStatuses ↔ status.isSettled := by
  cases status <;> decide

/-- An order is in a paid status if and only if exactly one payment of it succeeded; no order
has two; and the one it has is for its total, the sum of its lines, in its currency. -/
theorem order_paid_iff_one_succeeded {w : PosWorld} (h : Reachable cfg w) :
    (∀ id o, w.shared.db.orders.get id = some o →
      (o.status ∈ paidStatuses ↔ ∃! pid, w.shared.db.PaidBy id pid)) ∧
    (∀ id pid pid', w.shared.db.PaidBy id pid → w.shared.db.PaidBy id pid' → pid = pid') ∧
    (∀ id pid p, w.shared.db.payments.get pid = some p → p.orderId = id →
      p.status = .succeeded → ∃ o, w.shared.db.orders.get id = some o ∧
        p.amountMinor = o.totalMinor ∧ o.totalMinor = w.shared.db.lineTotal id ∧
        p.currency = o.currency) := by
  have hs : Settled w.shared.db := h.sound.inv.1
  have honce : ∀ id pid pid', w.shared.db.PaidBy id pid → w.shared.db.PaidBy id pid' →
      pid = pid' := by
    rintro id pid pid' ⟨p, hp, ho, hsucc⟩ ⟨p', hp', ho', hsucc'⟩
    exact hs.once hp hp' (ho.trans ho'.symm) hsucc hsucc'
  refine ⟨fun id o ho => ?_, honce, ?_⟩
  · rw [mem_paidStatuses]
    constructor
    · intro hsettled
      obtain ⟨pid, p, hp, hpo, hsucc⟩ := hs.paid ho hsettled
      exact ⟨pid, ⟨p, hp, hpo, hsucc⟩, fun pid' hpid' => honce id pid' pid hpid' ⟨p, hp, hpo, hsucc⟩⟩
    · rintro ⟨pid, ⟨p, hp, hpo, hsucc⟩, -⟩
      obtain ⟨o', ho', hfits⟩ := hs.payment hp
      rw [hpo, ho] at ho'
      obtain rfl := Option.some.inj ho'
      exact hfits.settled hsucc
  · rintro id pid p hp rfl _
    obtain ⟨o, ho, hfits⟩ := hs.payment hp
    exact ⟨o, ho, hfits.amount, hs.total ho, hfits.currency⟩

/-- The customer pays for order 100 in cash; the payment gets the given id. -/
def payCash (i : ℕ) (paymentId : Id) : List PosAct :=
  .start (.createPayment (.staff 7) 100 ⟨.cash, some 10000⟩ none) ::
    steps i 8 (supply paymentId "")

theorem order_paid_iff_one_succeeded_paid : ∃ w, Reachable cornerCafe w ∧
    (∃ o, w.shared.db.orders.get 100 = some o ∧ o.status = .paid) ∧
    ∃! pid, w.shared.db.PaidBy 100 pid := by
  obtain ⟨w, hw, hstatus⟩ := Reachable.exists_of_runIf cornerCafe (takeOrder ++ payCash 1 200)
    (fun w => (w.shared.db.orders.get 100).map Order.status = some .paid) (by decide)
  obtain ⟨o, ho, hpaid⟩ := Option.map_eq_some_iff.mp hstatus
  refine ⟨w, hw, ⟨o, ho, hpaid⟩, ((order_paid_iff_one_succeeded hw).1 100 o ho).mp ?_⟩
  rw [hpaid]
  decide

/-! ## Refunds -/

/-- What the refunds of every committed state satisfy. -/
structure Refunds (db : Db) : Prop where
  /-- a refund gives something back, of a payment that succeeded -/
  row : ∀ r ∈ db.refunds, ∃ p, db.payments.get r.paymentId = some p ∧ p.status = .succeeded
  /-- never more than was paid -/
  bound : ∀ {id p}, db.payments.get id = some p → db.refunded id ≤ p.amountMinor
  /-- an order is refunded when everything was given back, and only then -/
  whole : ∀ {id p o}, db.payments.get id = some p → p.status = .succeeded →
    db.orders.get p.orderId = some o → (o.status = .refunded ↔ db.refunded id = p.amountMinor)

namespace Refunds

variable {db db' : Db}

theorem empty : Refunds Db.empty where
  row r hr := absurd hr List.not_mem_nil
  bound h := by cases h
  whole h := by cases h

/-- What was not captured has not been given back. -/
theorem refunded_eq_zero (h : Refunds db) {id : Id}
    (hid : ∀ p, db.payments.get id = some p → p.status ≠ .succeeded) : db.refunded id = 0 := by
  have hnone : db.refundsOf id = [] := by
    rw [Db.refundsOf, List.filter_eq_nil_iff]
    intro r hr heq
    obtain ⟨p, hp, hsucc⟩ := h.row r hr
    rw [beq_iff_eq.mp heq] at hp
    exact hid p hp hsucc
  rw [Db.refunded, hnone]
  rfl

/-- A step that refunds nothing and makes no order `REFUNDED`. -/
theorem keep (h : Refunds db) (hs : Settled db) (hs' : Settled db') (hg : db.Grows db')
    (hrefunds : db'.refunds = db.refunds)
    (horders : ∀ id o', db'.orders.get id = some o' → o'.status = .refunded →
      ∃ o, db.orders.get id = some o ∧ o.status = .refunded) : Refunds db' := by
  have hsum : ∀ id, db'.refunded id = db.refunded id := by
    intro id
    simp only [Db.refunded, Db.refundsOf, hrefunds]
  refine ⟨?_, ?_, ?_⟩
  · intro r hr
    rw [hrefunds] at hr
    obtain ⟨p, hp, hsucc⟩ := h.row r hr
    obtain ⟨p', hp', hev⟩ := hg.payments _ p hp
    exact ⟨p', hp', hev.succeeded hsucc⟩
  · intro id p' hp'
    rw [hsum]
    by_cases hold : ∃ p, db.payments.get id = some p
    · obtain ⟨p, hp⟩ := hold
      rw [(hg.payments.rel hp hp').amountMinor]
      exact h.bound hp
    · obtain ⟨o, -, hfits⟩ := hs'.payment hp'
      rw [h.refunded_eq_zero fun p hp => absurd ⟨p, hp⟩ hold]
      exact Int.le_of_lt hfits.positive
  · intro id p' o' hp' hsucc' ho'
    rw [hsum]
    by_cases hold : ∃ p, db.payments.get id = some p ∧ p.status = .succeeded
    · obtain ⟨p, hp, hsucc⟩ := hold
      have hev := hg.payments.rel hp hp'
      obtain ⟨o, ho, -⟩ := hs.payment hp
      rw [hev.orderId] at ho'
      rw [hev.amountMinor, ← h.whole hp hsucc ho]
      constructor
      · intro href
        obtain ⟨o₁, ho₁, href₁⟩ := horders _ o' ho' href
        obtain rfl := Option.some.inj (ho.symm.trans ho₁)
        exact href₁
      · intro href
        have hleads := (hg.orders.rel ho ho').status
        rw [href] at hleads
        exact List.mem_singleton.mp hleads
    · -- captured just now: nothing was given back, and its order was not paid for before
      obtain ⟨o₁, ho₁, hfits⟩ := hs'.payment hp'
      rw [h.refunded_eq_zero fun p hp hsucc => hold ⟨p, hp, hsucc⟩]
      refine ⟨fun href => ?_, fun hzero => absurd hzero (Int.ne_of_lt hfits.positive)⟩
      obtain ⟨o, ho, hstatus⟩ := horders _ o' ho' href
      obtain ⟨pid, p, hp, hpo, hsucc⟩ := hs.paid ho (by rw [hstatus]; rfl)
      obtain ⟨p₁, hp₁, hev⟩ := hg.payments pid p hp
      have hpid : pid = id := hs'.once hp₁ hp' (hev.orderId.trans hpo) (hev.succeeded hsucc) hsucc'
      subst hpid
      exact absurd ⟨p, hp, hsucc⟩ hold

/-- A refund of what is left of a payment, or of a part of it. -/
theorem add (h : Refunds db) (hs : Settled db) {id : Id} {p : Payment} {r : Refund}
    (hp : db.payments.get id = some p) (hsucc : p.status = .succeeded) (hr : r.paymentId = id)
    (hle : db.refunded id + r.amountMinor ≤ p.amountMinor)
    (hrefunds : db'.refunds = db.refunds ++ [r]) (hpayments : db'.payments = db.payments)
    (hother : ∀ x, x ≠ p.orderId → db'.orders.get x = db.orders.get x)
    (hmine : ∀ o, db'.orders.get p.orderId = some o →
      (o.status = .refunded ↔ db.refunded id + r.amountMinor = p.amountMinor)) : Refunds db' := by
  have hsum : ∀ x, db'.refunded x = db.refunded x + if x = id then r.amountMinor else 0 := by
    intro x
    simp only [Db.refunded, Db.refundsOf, hrefunds, List.filter_append, List.map_append,
      List.sum_append]
    by_cases hx : x = id
    · simp [hx, hr]
    · have hne : ¬ id = x := fun h => hx h.symm
      simp [hx, hr, hne]
  refine ⟨?_, ?_, ?_⟩
  · intro r' hr'
    rw [hrefunds] at hr'
    rw [hpayments]
    rcases List.mem_append.mp hr' with hr' | hr'
    · exact h.row r' hr'
    · rw [List.mem_singleton.mp hr', hr]
      exact ⟨p, hp, hsucc⟩
  · intro x q hq
    rw [hpayments] at hq
    rw [hsum]
    split
    · rename_i hx
      subst hx
      obtain rfl := Option.some.inj (hp.symm.trans hq)
      exact hle
    · rw [Int.add_zero]
      exact h.bound hq
  · intro x q o hq hqs ho
    rw [hpayments] at hq
    rw [hsum]
    split
    · rename_i hx
      subst hx
      obtain rfl := Option.some.inj (hp.symm.trans hq)
      exact hmine o ho
    · rename_i hx
      have hne : q.orderId ≠ p.orderId := fun heq => hx (hs.once hq hp heq hqs hsucc)
      rw [hother _ hne] at ho
      rw [Int.add_zero]
      exact h.whole hq hqs ho

end Refunds

/-- The write refunds nothing and makes no order `REFUNDED`. -/
def Write.sparesRefunds : Write → Bool
  | .refund _ => false
  | .order _ row => row.status != .refunded
  | _ => true

/-- A log of such writes appends no refund, and an order that is `REFUNDED` after it was so
before. -/
theorem sparesRefunds_applyAll {ws : List Write} (hws : ∀ w ∈ ws, w.sparesRefunds) (db : Db) :
    (store.applyAll ws db).refunds = db.refunds ∧
    ∀ id o', (store.applyAll ws db).orders.get id = some o' → o'.status = .refunded →
      db.orders.get id = some o' := by
  induction ws generalizing db with
  | nil => exact ⟨rfl, fun _ _ h _ => h⟩
  | cons w ws ih =>
    have hw := hws w (List.mem_cons_self ..)
    obtain ⟨hrefunds, horders⟩ := ih (fun w' hw' => hws w' (List.mem_cons_of_mem _ hw'))
      (w.apply db)
    rw [Store.applyAll_cons, store_apply]
    refine ⟨hrefunds.trans ?_, fun id o' ho' href => ?_⟩
    · cases w <;> first | rfl | cases hw
    · have ho := horders id o' ho' href
      cases w with
      | order id' row =>
        simp only [Write.apply, Table.get_put] at ho
        split at ho
        · obtain rfl := Option.some.inj ho
          rw [Write.sparesRefunds, href] at hw
          cases hw
        · exact ho
      | _ => exact ho

/-- Every door but the refund's spares the refunds. -/
theorem Commits.sparesRefunds {P : PosPermit} {c : Call} {s : Shared} {ws : List Write}
    (h : Commits cfg P c s ws) (hc : ∀ userId id input, c ≠ .refund userId id input) :
    ∀ w ∈ ws, w.sparesRefunds := by
  have hmove : ∀ {r : TransitionRequest} {row : Order}, r.target ≠ .refunded →
      ∀ w ∈ moveWrites r row, w.sparesRefunds := fun ht =>
    forall_moveWrites (by simpa [Write.sparesRefunds, Statement.moved] using ht) rfl
  cases h with
  | create hfree hpriced hn hrow hnew =>
    refine forall_underKey (fun _ _ => rfl) ?_ _ _ _
    refine forall_createWrites (φ := fun w => w.sparesRefunds) rfl ?_ (fun _ => rfl) rfl
    simp only [hrow, Write.sparesRefunds, orderRow]
    split <;> rfl
  | checkout hrow hdraft hn =>
    refine List.forall_mem_append.mpr ⟨hmove (by simp), ?_⟩
    simp [Write.sparesRefunds, queued, Statement.moved]
  | cash =>
    refine forall_underKey (φ := fun w => w.sparesRefunds) (fun _ _ => rfl) ?_ _ _ _
    exact List.forall_mem_cons.mpr ⟨rfl, hmove (by simp)⟩
  | openPayment => exact forall_underKey (fun _ _ => rfl) (by simp [Write.sparesRefunds]) _ _ _
  | record => simp [Write.sparesRefunds]
  | skip => exact forall_stampWrites fun _ => rfl
  | markPayment =>
    exact List.forall_mem_append.mpr ⟨forall_settleWrites rfl, forall_stampWrites fun _ => rfl⟩
  | markPaid =>
    exact List.forall_mem_append.mpr ⟨hmove (by simp),
      List.forall_mem_append.mpr ⟨forall_settleWrites rfl, forall_stampWrites fun _ => rfl⟩⟩
  | close hcloses =>
    refine List.forall_mem_append.mpr ⟨hmove ?_, forall_liveWrites fun _ _ => rfl⟩
    cases hcloses <;> simp
  | staff hrow hstaff =>
    refine hmove ?_
    rcases target_of_isStaffTransition hstaff with rfl | rfl | rfl <;> simp
  | refundPart => exact absurd rfl (hc _ _ _)
  | refundAll => exact absurd rfl (hc _ _ _)

/-- No commit breaks the accounts of refunds. -/
theorem Commits.refunds {P : PosPermit} {c : Call} {s : Shared} {ws : List Write}
    (h : Commits cfg P c s ws) (hs : Settled s.db) (hr : Refunds s.db) :
    Refunds (store.applyAll ws s.db) := by
  by_cases hc : ∃ userId id input, c = .refund userId id input
  · obtain ⟨userId, id, input, rfl⟩ := hc
    cases h with
    | refundPart hp hsucc hpos hlt =>
      refine hr.add hs hp hsucc rfl (Int.le_of_lt hlt) rfl rfl (fun _ _ => rfl) fun o ho => ?_
      have ho : s.db.orders.get _ = some o := ho
      rw [hr.whole hp hsucc ho]
      dsimp only
      omega
    | refundAll hp hsucc hpos hall hrow =>
      refine hr.add hs hp hsucc rfl (Int.le_of_eq hall) rfl rfl
        (fun x hx => Table.get_put_ne _ _ hx) fun o ho => ⟨fun _ => hall, fun _ => ?_⟩
      obtain rfl := Option.some.inj ((Table.get_put_self ..).symm.trans ho)
      rfl
    | close hcloses => cases hcloses
  · obtain ⟨hrefunds, horders⟩ := sparesRefunds_applyAll
      (h.sparesRefunds fun userId id input heq => hc ⟨userId, id, input, heq⟩) s.db
    exact hr.keep hs (h.settled hs) (h.grows hs) hrefunds
      fun id o' ho' href => ⟨o', horders id o' ho' href, href⟩

theorem Reachable.refunds {w : PosWorld} (h : Reachable cfg w) : Refunds w.shared.db :=
  h.db_invariant Refunds.empty fun _ _ _ hs hr hc => hc.refunds hs hr

/-- The refunds of a payment never exceed it; an order is `REFUNDED` if and only if those of
its succeeded payment add up to the payment; and no operation of a refund that ends in an
error changes the database. -/
theorem refund_accounting {w : PosWorld} (h : Reachable cfg w) :
    (∀ pid p, w.shared.db.payments.get pid = some p →
      w.shared.db.refunded pid ≤ p.amountMinor) ∧
    (∀ id o, w.shared.db.orders.get id = some o →
      (o.status = .refunded ↔ ∃ pid p, w.shared.db.payments.get pid = some p ∧ p.orderId = id ∧
        p.status = .succeeded ∧ w.shared.db.refunded pid = p.amountMinor)) ∧
    (∀ i inp w₁ w₂ t userId pid input e, w.act (system cfg) (.step i inp) = some w₁ →
      Runs (system cfg) .all w₁ w₂ → w₂.threads[i]? = some t →
      t.call = .refund userId pid input → t.Answered (.error e) →
      w₁.shared.db = w.shared.db) := by
  have hr := h.refunds
  have hs : Settled w.shared.db := h.sound.inv.1
  refine ⟨fun pid p hp => hr.bound hp, fun id o ho => ⟨fun href => ?_, ?_⟩, ?_⟩
  · obtain ⟨pid, p, hp, hpo, hsucc⟩ := hs.paid ho (by rw [href]; rfl)
    refine ⟨pid, p, hp, hpo, hsucc, (hr.whole hp hsucc ?_).mp href⟩
    rw [hpo]
    exact ho
  · rintro ⟨pid, p, hp, rfl, hsucc, hsum⟩
    exact (hr.whole hp hsucc ho).mpr hsum
  · intro i inp w₁ w₂ t userId pid input e hstep hrun ht hcall hans
    have hreach : Reachable cfg w₂ := Runs.trans (h.tail (Runs.allows_all w _) hstep) hrun
    obtain ⟨s₀, -, -, hpost⟩ := hreach.sound.answered ht hans
    rw [hcall] at hpost
    have hidle : t.session = idle := hpost
    exact step_keeps_db hstep hrun ht (by rw [hidle]; rfl)

/-- A part of payment 200 is given back. -/
def refundSome (i : ℕ) : List PosAct :=
  .start (.refund 7 200 ⟨4000, "spilt"⟩) :: steps i 8 (supply 400 "")

theorem refund_accounting_part : ∃ w, Reachable cornerCafe w ∧
    (∃ p, w.shared.db.payments.get 200 = some p ∧ p.amountMinor = 9000) ∧
    w.shared.db.refunded 200 = 4000 ∧ w.shared.db.refunded 200 ≤ 9000 := by
  obtain ⟨w, hw, hamount, hsum⟩ := Reachable.exists_of_runIf cornerCafe
    (takeOrder ++ payCash 1 200 ++ refundSome 2)
    (fun w => (w.shared.db.payments.get 200).map Payment.amountMinor = some 9000 ∧
      w.shared.db.refunded 200 = 4000) (by decide)
  obtain ⟨p, hp, hpa⟩ := Option.map_eq_some_iff.mp hamount
  refine ⟨w, hw, ⟨p, hp, hpa⟩, hsum, ?_⟩
  rw [← hpa]
  exact (refund_accounting hw).1 200 p hp

end CafePos
