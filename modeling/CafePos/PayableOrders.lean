import CafePos.Unhindered
import CafePos.MoneyRange
import Mathlib

/-!
# Every order can be paid, but the free ones

Pricing clamps a line at zero rather than refusing it, so a basket may be worth nothing, and
its order is accepted and waits for payment. The table of payments refuses an amount of zero:
at the counter every tender for such an order ends in an error.

* `write_ends`, `takeCash_ends` — a cash payment under a fresh key, nobody else calling;
* `cash_settles_iff` — an order that waits, without a live payment, can be settled at the
  counter exactly if its total is positive; and a basket's total is positive exactly if one of
  its lines costs something.
-/

namespace CafePos

open Interleaving

variable {cfg : Config} {φ : Input → Prop} {s : Shared}

/-! ## Storing a payment -/

namespace Ends

variable {E : Err → Sess → Shared → Prop} {l : Sess} {orderId : Id} {row : Payment}

/-- `insertPayment`, of a row its table takes. -/
theorem insertPayment {Q : Id → Sess → Shared → Prop} (hl : l.active = true)
    (hlog : ∀ w ∈ l.log, ∀ id p, w ≠ .payment id p) (hstore : row.storable)
    (hconf : Statement.paymentConflicts s.db row = false)
    (hfresh : ∀ inp, φ inp → s.db.payments.get inp.fresh = none)
    (h : ∀ inp l', φ inp → Adds l l' [.payment inp.fresh row] → Q inp.fresh l' s) :
    Ends φ (CafePos.insertPayment orderId row) Q E l s := by
  have hview := view_payments hlog s.db
  simp only [Payment.storable, Bool.and_eq_true, decide_eq_true_eq] at hstore
  obtain ⟨⟨hamount, htender⟩, hpositive⟩ := hstore
  have hconf' : Statement.paymentConflicts (l.view store s.db) row = false := by
    rw [Statement.paymentConflicts, hview]
    exact hconf
  refine .tryCatch (.raising (.statement hl fun inp l' e hinp he hadds => ⟨?_, ?_⟩))
  · simp [Statement.idUnused, hview, hfresh inp hinp]
  · simp only [Statement.effect, hamount, htender, Bool.and_self, Bool.not_true,
      Bool.false_eq_true, if_false, if_neg (Int.not_le.mpr hpositive), hconf'] at he
    subst he
    exact h inp l' hinp hadds

/-- `insertPayment`, of nothing: the table refuses it, and it is no unique violation. -/
theorem insertPayment_nothing {Q : Id → Sess → Shared → Prop} (hl : l.active = true)
    (hlog : ∀ w ∈ l.log, ∀ id p, w ≠ .payment id p) (hnothing : row.amountMinor ≤ 0)
    (hfresh : ∀ inp, φ inp → s.db.payments.get inp.fresh = none)
    (h : ∀ state l', E (.sql state) l' s) :
    Ends φ (CafePos.insertPayment orderId row) Q E l s := by
  refine .tryCatch (.raising (.statement hl fun inp l' e hinp he _ => ⟨?_, ?_⟩))
  · simp [Statement.idUnused, view_payments hlog s.db, hfresh inp hinp]
  · simp only [Statement.effect, if_pos hnothing] at he
    split at he
    · subst he
      exact .throw (h _ l')
    · subst he
      exact .throw (h _ l')

end Ends

/-! ## Under a key -/

/-- The session holds an open transaction that has at most reserved its key. -/
structure Reserved (l : Sess) (reservation : Option (String × String)) (expiry : Instant) :
    Prop where
  active : l.active = true
  log : l.log = match reservation with
    | none => []
    | some (k, h) => [.key k ⟨h, none, none, expiry⟩]

/-- No payment is written in it yet. -/
theorem Reserved.no_payment {l : Sess} {reservation : Option (String × String)} {expiry : Instant}
    (h : Reserved l reservation expiry) : ∀ w ∈ l.log, ∀ id p, w ≠ .payment id p := by
  intro w hw id p
  rw [h.log] at hw
  rcases reservation with _ | ⟨k, hash⟩
  · cases hw
  · rw [List.mem_singleton.mp hw]
    simp

/-- What it sees of orders is what is there. -/
theorem Reserved.orders {l : Sess} {reservation : Option (String × String)} {expiry : Instant}
    (h : Reserved l reservation expiry) (db : Db) : (l.view store db).orders = db.orders := by
  refine view_orders (fun w hw id row => ?_) db
  rw [h.log] at hw
  rcases reservation with _ | ⟨k, hash⟩
  · cases hw
  · rw [List.mem_singleton.mp hw]
    simp

/-- `write`, under a free key or none: the work, and the key's answer, or nothing. -/
theorem write_ends {reservation : Option (String × String)}
    {work : Door (PaymentView × List DomainEvent)} {R : PaymentView → List Write → Prop}
    {F : Err → Prop} (hfree : KeyFree s.db reservation)
    (hwork : ∀ l expiry, Reserved l reservation expiry →
      Ends φ work (fun r l' s' => s' = s ∧ ∃ ws, Adds l l' ws ∧
          (∀ w ∈ ws, ∀ k row, w ≠ .key k row) ∧ R r.1 ws)
        (fun e _ s' => s' = s ∧ e ≠ .keyAlreadyReserved ∧ F e) l s) :
    Ends φ (write reservation work)
      (fun created _ s' => ∃ view ws expiry, created = ⟨.payment view, false⟩ ∧ R view ws ∧
        (∀ w ∈ ws, ∀ k row, w ≠ .key k row) ∧
        s' = s.commit (underKey reservation expiry
          (.payment { view with clientAction := none }) ws))
      (fun e _ s' => s' = s ∧ F e) idle s := by
  rcases reservation with _ | ⟨k, hash⟩
  · refine .bind (.afterCommit (.mono (hwork opened 0 ⟨rfl, rfl⟩) ?_ ?_))
    · rintro r l' s' ⟨rfl, ws, hadds, hkeys, hR⟩ l'' -
      have hlog : l'.log = ws := hadds.log
      exact .pure ⟨r.1, ws, 0, rfl, hR, hkeys, by rw [hlog]; rfl⟩
    · rintro e l' s' ⟨rfl, -, hF⟩
      exact ⟨rfl, hF⟩
  · have hkey : s.db.idempotencyKeys.get k = none := hfree (k, hash) rfl
    refine .tryCatch (.bind (.afterCommit (.bind (.bind (.now fun inp₀ _ => .pure ?_)))))
    refine .bind (.tryCatch (.raising (.statement rfl fun inp l₁ e _ he hadds₁ => ⟨rfl, ?_⟩)))
    have hview : (Session.view store idle.begin s.db).idempotencyKeys.get k = none := hkey
    simp only [Statement.effect, hview] at he
    subst he
    have hlog₁ : l₁.log =
        [.key k ⟨hash, none, none, inp₀.now + 24 * 60 * 60 * 1000⟩] := hadds₁.log
    refine .bind (.mono (hwork l₁ _ ⟨hadds₁.active, hlog₁⟩) ?_ ?_)
    · rintro r l₂ s' ⟨rfl, ws, hadds₂, hkeys, hR⟩
      have hlog₂ : l₂.log = .key k ⟨hash, none, none, inp₀.now + 24 * 60 * 60 * 1000⟩ :: ws := by
        rw [hadds₂.log, hlog₁]
        rfl
      refine .bind (.statement hadds₂.active fun inp l₃ e _ he hadds₃ => ⟨rfl, ?_⟩)
      simp only [Statement.effect, view_reserved hlog₂ hkeys] at he
      subst he
      refine .pure ?_
      rintro l' -
      refine .pure ⟨r.1, ws, inp₀.now + 24 * 60 * 60 * 1000, rfl, hR, hkeys, ?_⟩
      rw [hadds₃.log, hlog₂]
      rfl
    · rintro e l₂ s' ⟨rfl, hne, hF⟩
      have hno : isKeyAlreadyReserved e = false := by simpa [isKeyAlreadyReserved] using hne
      rw [hno]
      exact .throw ⟨rfl, hF⟩

/-! ## Cash -/

/-- An order that waits for its payment, and for which none is under way. -/
structure Payable (db : Db) (orderId : Id) (o : Order) : Prop where
  order : db.orders.get orderId = some o
  pending : o.status = .pendingPayment
  idle : db.livePayments orderId = []

/-- No call has been made under the key, or it has been forgotten altogether: the key has no
row, and no payment carries it. -/
def KeyUnused (db : Db) (key : Option String) : Prop :=
  ∀ k, key = some k → db.idempotencyKeys.get k = none ∧
    ∀ id p, db.payments.get id = some p → p.idempotencyKey ≠ some k

/-- A request to pay an order in cash, with a tender that covers it and fits its column. -/
structure CashRequest (input : CreatePaymentInput) (tendered : ℤ) (o : Order) : Prop where
  method : input.method = .cash
  tender : input.cashTenderedMinor = some tendered
  fits : int4 tendered
  covers : o.totalMinor ≤ tendered

section cash

variable {orderId userId : Id} {o : Order} {input : CreatePaymentInput} {tendered : ℤ}
  {key : Option String}

/-- A cash payment conflicts with no other, unless one carries its key. -/
theorem cashRow_conflicts (order : PayableOrder) (hkey : ∀ k, key = some k →
    ∀ id p, s.db.payments.get id = some p → p.idempotencyKey ≠ some k) :
    Statement.paymentConflicts s.db (cashRow order tendered key) = false := by
  rw [Statement.paymentConflicts, Bool.not_eq_false', List.isEmpty_iff, Table.select_eq_nil]
  intro id p hp
  have hk : (p.idempotencyKey.isSome && p.idempotencyKey == key) = false := by
    rw [Bool.eq_false_iff]
    intro hsame
    rw [Bool.and_eq_true, beq_iff_eq] at hsame
    obtain ⟨k, hpk⟩ := Option.isSome_iff_exists.mp hsame.1
    exact hkey k (hsame.2.symm.trans hpk) id p hp hpk
  cases hi : p.providerIntentId with
  | none => simp [cashRow, hk, PaymentStatus.isLive]
  | some i => simp [cashRow, hk, PaymentStatus.isLive]

/-- Up to the money: what a cash call on a payable order under an unused key does. -/
theorem createPayment_cash (h : Payable s.db orderId o) (hr : CashRequest input tendered o)
    (hkey : KeyUnused s.db key) {Q : PaymentCreated → Sess → Shared → Prop}
    {E : Err → Sess → Shared → Prop}
    (hcash : ∀ reservation, reservation.map Prod.fst = key → KeyFree s.db reservation →
      Ends φ (takeCash (.staff userId) ⟨orderId, o.totalMinor, o.currency⟩ input reservation) Q E
        idle s) :
    Ends φ (createPayment cfg (.staff userId) orderId input key) Q E idle s := by
  -- the order is read, and found payable
  have hload : ∀ reservation, reservation.map Prod.fst = key → KeyFree s.db reservation →
      Ends φ (pay (.staff userId) orderId input reservation) Q E idle s := by
    intro reservation hres hfree
    refine .bind (.bind (.select ?_))
    simp only [Query.answer, h.order, foreign, h.pending, Bool.false_eq_true, if_false]
    refine .bind (.select ?_)
    simp only [Query.answer, h.idle]
    refine .pure ?_
    rw [if_pos hr.method]
    exact hcash reservation hres hfree
  cases key with
  | none => exact hload none rfl fun _ h => by cases h
  | some k =>
    obtain ⟨hfree, -⟩ := hkey k rfl
    refine .bind (.bind (.select ?_))
    simp only [Query.answer, hfree]
    refine .pure (hload _ rfl fun r hr => ?_)
    obtain rfl := Option.some.inj hr
    exact hfree

/-- The log of a cash payment, as far as the money goes. -/
def CashLog (orderId userId : Id) (o : Order) (view : PaymentView) (ws : List Write) : Prop :=
  ∃ p, ws = .payment view.id p ::
      moveWrites ⟨orderId, .pendingPayment, .paid, ⟨.user, some userId⟩, none⟩ o ∧
    p.orderId = orderId ∧ p.status = .succeeded ∧ p.amountMinor = o.totalMinor

/-- The payment is taken, and the order is `PAID`. -/
theorem takeCash_ends (h : Payable s.db orderId o) (hr : CashRequest input tendered o)
    (hkey : KeyUnused s.db key) (hfresh : ∀ inp, φ inp → s.db.payments.get inp.fresh = none)
    (hpositive : 0 < o.totalMinor) :
    Ends φ (createPayment cfg (.staff userId) orderId input key)
      (fun created _ s' => ∃ view, created = ⟨.payment view, false⟩ ∧
        (∃ p, s'.db.payments.get view.id = some p ∧ p.orderId = orderId ∧
          p.status = .succeeded ∧ p.amountMinor = o.totalMinor) ∧
        ∃ o', s'.db.orders.get orderId = some o' ∧ o'.status = .paid)
      (fun _ _ _ => False) idle s := by
  have hstore : ∀ reservation : Option (String × String),
      (cashRow ⟨orderId, o.totalMinor, o.currency⟩ tendered
        (reservation.map Prod.fst)).storable := by
    intro reservation
    have hamount : int4 o.totalMinor := by
      have hle := hr.covers
      have hfits := hr.fits
      simp only [int4, decide_eq_true_eq] at hfits ⊢
      omega
    simp [Payment.storable, cashRow, hamount, hr.fits, hpositive]
  refine createPayment_cash h hr hkey fun reservation hres hfree => ?_
  subst hres
  simp only [takeCash, hr.tender, if_neg (Int.not_lt.mpr hr.covers)]
  refine .mono (write_ends (R := CashLog orderId userId o) (F := fun _ => False) hfree
    fun l expiry hl => ?_) ?_ fun _ _ _ h => h.2
  · refine .bind (.insertPayment hl.active hl.no_payment (hstore reservation)
      (cashRow_conflicts _ fun k hk => (hkey k hk).2) hfresh fun inp l₁ hinp hadds₁ => ?_)
    have hrow : (l₁.view store s.db).orders.get orderId = some o := by
      rw [Session.view, hadds₁.log, Store.applyAll_append]
      change (l.view store s.db).orders.get orderId = some o
      rw [hl.orders]
      exact h.order
    refine .bind (.transitionOrder hadds₁.active hrow h.pending fun l₂ hadds₂ => .pure ?_)
    refine ⟨rfl, _, hadds₁.trans hadds₂, ?_, ?_⟩
    · simp [moveWrites]
    · exact ⟨_, rfl, rfl, rfl, rfl⟩
  · rintro created l' s' ⟨view, ws, expiry, rfl, ⟨p, rfl, hp⟩, hkeys, rfl⟩
    refine ⟨view, rfl, ⟨p, ?_, hp⟩, Statement.moved o .pendingPayment .paid, ?_, rfl⟩
    · rw [Shared.commit, applyAll_underKey hkeys]
      exact Table.get_put_self ..
    · rw [Shared.commit, applyAll_underKey hkeys]
      exact Table.get_put_self ..

/-- An order worth nothing cannot be paid for: the call ends in an error, and changes
nothing. -/
theorem takeCash_nothing (h : Payable s.db orderId o) (hr : CashRequest input tendered o)
    (hkey : KeyUnused s.db key) (hfresh : ∀ inp, φ inp → s.db.payments.get inp.fresh = none)
    (hnothing : o.totalMinor ≤ 0) :
    Ends φ (createPayment cfg (.staff userId) orderId input key) (fun _ _ _ => False)
      (fun _ _ s' => s' = s) idle s := by
  refine createPayment_cash h hr hkey fun reservation hres hfree => ?_
  subst hres
  simp only [takeCash, hr.tender, if_neg (Int.not_lt.mpr hr.covers)]
  refine .mono (write_ends (R := fun _ _ => False) (F := fun _ => True) hfree
    fun l expiry hl => ?_) ?_ fun _ _ _ h => h.1
  · exact .bind (.insertPayment_nothing hl.active hl.no_payment hnothing hfresh
      fun state l' => ⟨rfl, by simp, trivial⟩)
  · rintro created l' s' ⟨view, ws, expiry, -, hfalse, -⟩
    exact hfalse

/-- The call settles the order: made in state `s` while nobody else calls, with `inp n` what
the outside supplies to its `n`-th operation, it returns a payment it has stored as `SUCCEEDED`
for the order's total, and the order is `PAID`. -/
def SettledInCash (cfg : Config) (userId orderId : Id) (input : CreatePaymentInput)
    (key : Option String) (o : Order) (inp : ℕ → Input) (s : Shared) : Prop :=
  ∃ ops view l' s', (createPayment cfg (.staff userId) orderId input key).run.traced machine
      (fun _ => false) inp idle s = some (ops, .ok ⟨.payment view, false⟩, l', s') ∧
    (∃ p, s'.db.payments.get view.id = some p ∧ p.orderId = orderId ∧ p.status = .succeeded ∧
      p.amountMinor = o.totalMinor) ∧
    ∃ o', s'.db.orders.get orderId = some o' ∧ o'.status = .paid

theorem settledInCash_iff (h : Payable s.db orderId o) (hr : CashRequest input tendered o)
    (hkey : KeyUnused s.db key) {inp : ℕ → Input}
    (hfresh : ∀ n, s.db.payments.get (inp n).fresh = none) :
    SettledInCash cfg userId orderId input key o inp s ↔ 0 < o.totalMinor := by
  constructor
  · rintro ⟨ops, view, l', s', ht, -⟩
    by_contra hnothing
    obtain ⟨ops', r, l'', s'', ht', hend⟩ := (takeCash_nothing h hr hkey (fun _ h => h)
      (Int.not_lt.mp hnothing)).traced hfresh
    obtain ⟨-, hres, -⟩ := Option.some.inj (ht.symm.trans ht') |> Prod.mk.inj
      |>.imp_right Prod.mk.inj
    rcases hend with ⟨a, -, hfalse⟩ | ⟨e, rfl, -⟩
    · exact hfalse
    · cases hres
  · intro hpositive
    obtain ⟨ops, r, l', s', ht, hend⟩ := (takeCash_ends h hr hkey (fun _ h => h)
      hpositive).traced hfresh
    rcases hend with ⟨a, rfl, view, rfl, hpaid⟩ | ⟨e, -, hfalse⟩
    · exact ⟨ops, view, l', s', ht, hpaid⟩
    · exact hfalse.elim

end cash

/-! ## Which baskets are worth something -/

/-- A sum of non-negative terms is positive exactly if one of them is. -/
theorem sum_pos_iff {xs : List ℤ} (h : ∀ x ∈ xs, 0 ≤ x) : 0 < xs.sum ↔ ∃ x ∈ xs, 0 < x := by
  constructor
  · intro hsum
    by_contra hnone
    have hzero : ∀ x ∈ xs, x = 0 := by
      intro x hx
      have hle : ¬ 0 < x := fun hpos => hnone ⟨x, hx, hpos⟩
      exact le_antisymm (not_lt.mp hle) (h x hx)
    rw [List.sum_eq_zero hzero] at hsum
    exact lt_irrefl 0 hsum
  · rintro ⟨x, hx, hpos⟩
    exact hpos.trans_le (List.single_le_sum h x hx)

/-- The line costs something: its item's price and the deltas of its options add up to more
than nothing. -/
def Costs (catalog : List CatalogItem) (line : RequestedItem) : Prop :=
  ∃ item, itemOf catalog line = some item ∧
    0 < item.basePriceMinor + (line.optionIds.dedup.map (deltaOf item)).sum

/-- A basket's total is positive exactly if one of its lines costs something. -/
theorem total_pos_iff {catalog : List CatalogItem} {requested : List RequestedItem} {bp : ℤ}
    {priced : PricedOrder} (hquantity : ∀ line ∈ requested, 1 ≤ line.quantity)
    (h : priceOrder requested catalog bp = .ok priced) :
    0 < priced.totalMinor ↔ ∃ line ∈ requested, Costs catalog line := by
  have htotal : priced.totalMinor = basketWorth catalog requested := by
    rw [priceOrder_total h, eq_pricedOrder h, ← subtotal_eq_worth]
    rfl
  -- what each line adds to the total
  have hline : ∀ line ∈ requested,
      0 ≤ ((itemOf catalog line).map fun item => tappedPrice item line * line.quantity).getD 0 ∧
      (0 < ((itemOf catalog line).map fun item => tappedPrice item line * line.quantity).getD 0 ↔
        Costs catalog line) := by
    intro line hmem
    have hq := hquantity line hmem
    rw [Costs]
    cases itemOf catalog line with
    | none => simp
    | some item =>
      have hnonneg : 0 ≤ tappedPrice item line := tappedPrice_nonneg
      refine ⟨mul_nonneg hnonneg (by omega), ?_⟩
      simp only [Option.map_some, Option.getD_some, Option.some.injEq, exists_eq_left']
      rw [mul_pos_iff_of_pos_right (by omega), tappedPrice, lt_max_iff]
      simp
  rw [htotal, basketWorth, sum_pos_iff]
  · simp only [List.mem_map, exists_exists_and_eq_and]
    exact exists_congr fun line => and_congr_right fun hmem => (hline line hmem).2
  · intro x hx
    obtain ⟨line, hmem, rfl⟩ := List.mem_map.mp hx
    exact (hline line hmem).1

/-- **Every order can be paid, but the free ones.** In every reachable world, an order that
waits for its payment and has none under way: a cash call of a staff member, with a tender that
covers the total and fits its column, under an unused key or none, made while nobody else
calls, settles the order if and only if its total is positive. And the order row that is
created for a basket has a positive total if and only if a line of the basket costs
something. -/
theorem cash_settles_iff (cfg : Config) :
    (∀ (w : PosWorld) (orderId userId : Id) (o : Order) (input : CreatePaymentInput)
      (tendered : ℤ) (key : Option String) (inp : ℕ → Input), Reachable cfg w →
      Payable w.shared.db orderId o → CashRequest input tendered o →
      KeyUnused w.shared.db key → (∀ n, w.shared.db.payments.get (inp n).fresh = none) →
      (SettledInCash cfg userId orderId input key o inp w.shared ↔ 0 < o.totalMinor)) ∧
    ∀ (principal : Principal) (channel : OrderChannel) (input : CreateOrderInput)
      (catalog : List CatalogItem) (priced : PricedOrder) (now : Instant)
      (orderNumber : Option String), (∀ item ∈ catalog, item.Admitted) →
      AdmittedBasket input.items →
      priceOrder input.items catalog cfg.vatBasisPoints = .ok priced →
      (0 < (orderRow cfg principal channel input priced now orderNumber).totalMinor ↔
        ∃ line ∈ input.items, Costs catalog line) :=
  ⟨fun _ _ _ _ _ _ _ _ _ hp hr hkey hfresh => settledInCash_iff hp hr hkey hfresh,
    fun _ _ _ _ _ _ _ _ hbasket hpriced =>
      total_pos_iff (fun line hline => (hbasket.quantity line hline).1) hpriced⟩

/-! ## A latte and a glass of water -/

/-- Order 100 waits for its payment of `total`, and none is under way. -/
def IsWaiting (total : ℤ) (w : PosWorld) : Prop :=
  w.shared.db.livePayments 100 = [] ∧ (w.shared.db.payments.select fun _ _ => true) = [] ∧
    (w.shared.db.orders.get 100).any fun o =>
      o.status == .pendingPayment && o.totalMinor == total

instance (total : ℤ) (w : PosWorld) : Decidable (IsWaiting total w) :=
  inferInstanceAs (Decidable (_ ∧ _))

theorem IsWaiting.payable {total : ℤ} {w : PosWorld} (h : IsWaiting total w) :
    (∀ id, w.shared.db.payments.get id = none) ∧
      ∃ o, Payable w.shared.db 100 o ∧ o.totalMinor = total := by
  obtain ⟨hidle, hempty, hany⟩ := h
  simp only [Option.any_eq_true, Bool.and_eq_true, beq_iff_eq] at hany
  obtain ⟨o, ho, hpending, htotal⟩ := hany
  refine ⟨fun id => ?_, o, ⟨ho, hpending, hidle⟩, htotal⟩
  cases hp : w.shared.db.payments.get id with
  | none => rfl
  | some p => exact absurd (Table.select_eq_nil.mp hempty id p hp) (by simp)

theorem cash_settles_latte : ∃ w o, Reachable cornerCafe w ∧ Payable w.shared.db 100 o ∧
    SettledInCash cornerCafe 7 100 ⟨.cash, some 10000⟩ none o (fun _ => supply 200 "")
      w.shared := by
  obtain ⟨w, hw, hwaiting⟩ := Reachable.exists_of_runIf cornerCafe takeOrder (IsWaiting 9000)
    (by decide)
  obtain ⟨hempty, o, hp, htotal⟩ := hwaiting.payable
  refine ⟨w, o, hw, hp, ((cash_settles_iff cornerCafe).1 w 100 7 o _ 10000 none _ hw hp
    ⟨rfl, rfl, rfl, by rw [htotal]; decide⟩ (fun _ h => by cases h) fun _ => hempty _).mpr ?_⟩
  rw [htotal]
  decide

/-- The supplies of a day on which item 1 is a glass of water, for nothing. -/
def freeWater : Input := { supply 100 "" with menu := [⟨1, "Water", 0, true, true, []⟩] }

/-- A glass of water is ordered; the order gets id 100. -/
def takeFreeOrder : List PosAct :=
  .start (.createOrder (.staff 7) oneLatte none) :: steps 0 8 freeWater

/-- The order of a glass of water is accepted, and no tender settles it. -/
theorem free_order_unpayable : ¬ ∀ (w : PosWorld) (orderId userId : Id) (o : Order)
    (input : CreatePaymentInput) (tendered : ℤ) (key : Option String) (inp : ℕ → Input),
    Reachable cornerCafe w → Payable w.shared.db orderId o → CashRequest input tendered o →
    KeyUnused w.shared.db key → (∀ n, w.shared.db.payments.get (inp n).fresh = none) →
    SettledInCash cornerCafe userId orderId input key o inp w.shared := by
  intro hclaim
  obtain ⟨w, hw, hwaiting⟩ := Reachable.exists_of_runIf cornerCafe takeFreeOrder (IsWaiting 0)
    (by decide)
  obtain ⟨hempty, o, hp, htotal⟩ := hwaiting.payable
  have hr : CashRequest ⟨.cash, some 100⟩ 100 o := ⟨rfl, rfl, rfl, by rw [htotal]; decide⟩
  have hsettled := hclaim w 100 7 o _ 100 none (fun _ => supply 200 "") hw hp hr
    (fun _ h => by cases h) fun _ => hempty _
  have hpositive := (settledInCash_iff hp hr (fun _ h => by cases h) fun _ => hempty _).mp
    hsettled
  rw [htotal] at hpositive
  exact absurd hpositive (by decide)

end CafePos
