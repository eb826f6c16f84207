import CafePos.Books
import CafePos.History

/-!
# The café keeps the books of a till

The tables say more than a till needs to know: who took an order, which payment paid for it, who
is preparing it. `Db.books` forgets all of that: of an order's status only whether it is waiting,
sold, dropped or returned, of its payments and refunds only their sums. What is left moves as the
books of `Books` do: a commit posts one entry or none (`Commits.posts`), so every run of the system,
whatever its interleaving, is a journal (`runs_keep_books`), and the money of every order is what
that journal says.
-/

namespace CafePos

open Interleaving Books

variable {cfg : Config}

/-! ## What the tables show of an order -/

/-- Where an order stands with the till. -/
def OrderStatus.stage : OrderStatus → Stage
  | draft => .waiting
  | pendingPayment => .waiting
  | paid => .sold
  | inPreparation => .sold
  | ready => .sold
  | completed => .sold
  | cancelled => .dropped
  | expired => .dropped
  | refunded => .returned

/-- The payments that paid for an order. -/
def Db.paymentsFor (db : Db) (orderId : Id) : List (Id × Payment) :=
  db.payments.select fun _ p => p.orderId == orderId && p.status == .succeeded

/-- What was taken for an order. -/
def Db.takenFor (db : Db) (orderId : Id) : ℤ :=
  ((db.paymentsFor orderId).map fun q => q.2.amountMinor).sum

/-- What was given back of it. -/
def Db.givenBackFor (db : Db) (orderId : Id) : ℤ :=
  ((db.paymentsFor orderId).map fun q => db.refunded q.1).sum

/-- The tab of an order. -/
def Db.tab (db : Db) (orderId : Id) (o : Order) : Tab ℤ :=
  ⟨o.status.stage, o.totalMinor, db.takenFor orderId, db.givenBackFor orderId⟩

/-- The books of the café. -/
def Db.books (db : Db) : Tabs Id ℤ := fun orderId => (db.orders.get orderId).map (db.tab orderId)

/-! ## What was taken -/

/-- A list without repetition that holds one thing and nothing else. -/
theorem eq_singleton_of_nodup {α : Type} {l : List α} {a : α} (hl : l.Nodup) (ha : a ∈ l)
    (hone : ∀ b ∈ l, b = a) : l = [a] := by
  have hrep : l = List.replicate l.length a := List.eq_replicate_of_mem hone
  have hle : l.length ≤ 1 := by
    rw [hrep] at hl
    exact List.nodup_replicate.mp hl
  have hpos : 0 < l.length := List.length_pos_of_mem ha
  rw [hrep, Nat.le_antisymm hle hpos]
  rfl

namespace Settled

variable {db : Db}

theorem mem_paymentsFor {orderId pid : Id} {p : Payment} : (pid, p) ∈ db.paymentsFor orderId ↔
    db.payments.get pid = some p ∧ p.orderId = orderId ∧ p.status = .succeeded := by
  simp [Db.paymentsFor, Table.mem_select]

/-- The payment that paid for an order is the only one. -/
theorem paymentsFor_eq (h : Settled db) {pid : Id} {p : Payment}
    (hp : db.payments.get pid = some p) (hsucc : p.status = .succeeded) :
    db.paymentsFor p.orderId = [(pid, p)] := by
  refine eq_singleton_of_nodup (List.Nodup.of_map _ (db.payments.nodup_select _))
    (mem_paymentsFor.mpr ⟨hp, rfl, hsucc⟩) ?_
  rintro ⟨pid', p'⟩ hmem
  obtain ⟨hp', hid, hsucc'⟩ := mem_paymentsFor.mp hmem
  obtain rfl := h.once hp' hp hid hsucc' hsucc
  rw [Option.some.inj (hp'.symm.trans hp)]

/-- Nothing paid for an order that is not settled. -/
theorem paymentsFor_eq_nil (h : Settled db) {orderId : Id}
    (hnot : ∀ o, db.orders.get orderId = some o → ¬ o.status.isSettled) :
    db.paymentsFor orderId = [] := by
  rw [List.eq_nil_iff_forall_not_mem]
  rintro ⟨pid, p⟩ hmem
  obtain ⟨hp, rfl, hsucc⟩ := mem_paymentsFor.mp hmem
  obtain ⟨o, ho, hfits⟩ := h.payment hp
  exact hnot o ho (hfits.settled hsucc)

/-- What was taken for an order: its total once it is settled, and nothing before. -/
theorem takenFor_eq (h : Settled db) {orderId : Id} {o : Order}
    (ho : db.orders.get orderId = some o) :
    db.takenFor orderId = if o.status.isSettled then o.totalMinor else 0 := by
  split
  · rename_i hsettled
    obtain ⟨pid, p, hp, rfl, hsucc⟩ := h.paid ho hsettled
    obtain ⟨o', ho', hfits⟩ := h.payment hp
    obtain rfl := Option.some.inj (ho.symm.trans ho')
    rw [Db.takenFor, h.paymentsFor_eq hp hsucc]
    simpa using hfits.amount
  · rename_i hnot
    rw [Db.takenFor, h.paymentsFor_eq_nil fun o' ho' => by
      obtain rfl := Option.some.inj (ho.symm.trans ho')
      exact hnot]
    rfl

/-- What was given back of an order is what was of the payment that paid for it. -/
theorem givenBackFor_eq (h : Settled db) {pid : Id} {p : Payment}
    (hp : db.payments.get pid = some p) (hsucc : p.status = .succeeded) :
    db.givenBackFor p.orderId = db.refunded pid := by
  rw [Db.givenBackFor, h.paymentsFor_eq hp hsucc]
  simp

end Settled

/-- What is given back does not change while nothing is refunded. -/
theorem Db.Grows.givenBackFor {db db' : Db} (hg : db.Grows db') (hs : Settled db)
    (hs' : Settled db') (hr : Refunds db) (hrefunds : db'.refunds = db.refunds) (orderId : Id) :
    db'.givenBackFor orderId = db.givenBackFor orderId := by
  have hsum : ∀ pid, db'.refunded pid = db.refunded pid := by
    intro pid
    simp only [Db.refunded, Db.refundsOf, hrefunds]
  by_cases hnew : ∃ q, q ∈ db'.paymentsFor orderId
  · obtain ⟨⟨pid, p'⟩, hmem⟩ := hnew
    obtain ⟨hp', rfl, hsucc'⟩ := Settled.mem_paymentsFor.mp hmem
    rw [hs'.givenBackFor_eq hp' hsucc', hsum]
    by_cases hold : ∃ q, q ∈ db.paymentsFor p'.orderId
    · -- paid for before: by the same payment, which has succeeded since
      obtain ⟨⟨pid₀, p₀⟩, hmem₀⟩ := hold
      obtain ⟨hp₀, hid, hsucc₀⟩ := Settled.mem_paymentsFor.mp hmem₀
      obtain ⟨p₁, hp₁, hev⟩ := hg.payments _ _ hp₀
      obtain rfl := hs'.once hp₁ hp' (hev.orderId.trans hid) (hev.succeeded hsucc₀) hsucc'
      rw [← hid, hs.givenBackFor_eq hp₀ hsucc₀]
    · -- paid for just now: nothing of it was given back
      have hnil : db.paymentsFor p'.orderId = [] :=
        List.eq_nil_iff_forall_not_mem.mpr fun q hq => hold ⟨q, hq⟩
      have hzero : db.givenBackFor p'.orderId = 0 := by
        rw [Db.givenBackFor, hnil]
        rfl
      rw [hzero]
      refine hr.refunded_eq_zero fun p hp hsucc => hold ⟨(pid, p), ?_⟩
      obtain ⟨p₁, hp₁, hev⟩ := hg.payments _ _ hp
      obtain rfl := Option.some.inj (hp₁.symm.trans hp')
      exact Settled.mem_paymentsFor.mpr ⟨hp, hev.orderId.symm, hsucc⟩
  · -- not paid for, and not before
    have hnil' : db'.paymentsFor orderId = [] :=
      List.eq_nil_iff_forall_not_mem.mpr fun q hq => hnew ⟨q, hq⟩
    have hnil : db.paymentsFor orderId = [] := by
      rw [List.eq_nil_iff_forall_not_mem]
      rintro ⟨pid, p⟩ hmem
      obtain ⟨hp, rfl, hsucc⟩ := Settled.mem_paymentsFor.mp hmem
      obtain ⟨p', hp', hev⟩ := hg.payments _ _ hp
      exact hnew ⟨(pid, p'), Settled.mem_paymentsFor.mpr
        ⟨hp', hev.orderId, hev.succeeded hsucc⟩⟩
    rw [Db.givenBackFor, hnil', Db.givenBackFor, hnil]
    rfl

/-- What is given back of a payment is given back of the order it paid for. -/
theorem Settled.givenBackFor_add {db db' : Db} (h : Settled db) {pid : Id} {p : Payment}
    {r : Refund} (hp : db.payments.get pid = some p) (hsucc : p.status = .succeeded)
    (hr : r.paymentId = pid) (hrefunds : db'.refunds = db.refunds ++ [r])
    (hpayments : db'.payments = db.payments) (orderId : Id) :
    db'.givenBackFor orderId =
      db.givenBackFor orderId + if orderId = p.orderId then r.amountMinor else 0 := by
  have hsum : ∀ x, db'.refunded x = db.refunded x + if x = pid then r.amountMinor else 0 := by
    intro x
    simp only [Db.refunded, Db.refundsOf, hrefunds, List.filter_append, List.map_append,
      List.sum_append]
    by_cases hx : x = pid
    · simp [hx, hr]
    · simp [hx, hr, Ne.symm hx]
  have hfor : db'.paymentsFor orderId = db.paymentsFor orderId := by
    rw [Db.paymentsFor, hpayments, Db.paymentsFor]
  by_cases horder : orderId = p.orderId
  · subst horder
    simp [Db.givenBackFor, hfor, h.paymentsFor_eq hp hsucc, hsum]
  · rw [if_neg horder, add_zero, Db.givenBackFor, hfor, Db.givenBackFor]
    refine congrArg List.sum (List.map_congr_left fun q hq => ?_)
    obtain ⟨hget, rfl, -⟩ := Settled.mem_paymentsFor.mp hq
    have hne : q.1 ≠ pid := by
      rintro rfl
      exact horder (congrArg Payment.orderId (Option.some.inj (hget.symm.trans hp)))
    rw [hsum, if_neg hne, add_zero]

/-! ## What a commit posts -/

/-- A settled order that is not refunded is sold. -/
theorem OrderStatus.stage_eq_sold {status : OrderStatus} :
    status.isSettled → status ≠ .refunded → status.stage = .sold := by
  cases status <;> decide

/-- What a legal move is to the till: nothing, a sale, or the end of an order nobody paid for. -/
theorem OrderStatus.stage_move {source target : OrderStatus} :
    isLegalTransition source target → target ≠ .refunded →
      (target.stage = source.stage ∧ target.isSettled = source.isSettled) ∨
      (source.stage = .waiting ∧ target.stage = .sold ∧ target.isSettled) ∨
      (source.stage = .waiting ∧ target.stage = .dropped ∧ source.isSettled = false ∧
        target.isSettled = false) := by
  cases source <;> cases target <;> decide

section posts

variable {db db' : Db}

/-- Where one tab changed, as an entry changes it, that entry was posted. -/
theorem post_books {id : Id} {change : Change ℤ} {t : Tab ℤ}
    (hother : ∀ x, x ≠ id → db'.books x = db.books x) (ht : db'.books id = some t)
    (hon : change.on (db.books id) = some t) : post db.books ⟨id, change⟩ = some db'.books := by
  rw [post, hon, Option.map_some]
  refine congrArg some (funext fun x => ?_)
  by_cases hx : x = id
  · subst hx
    rw [Function.update_self, ht]
  · rw [Function.update_of_ne hx, hother x hx]

/-- The tab of an order of which the order's row, what was taken and what was given back are the
same. -/
theorem books_congr {id : Id} (horder : db'.orders.get id = db.orders.get id)
    (htaken : db'.takenFor id = db.takenFor id)
    (hgiven : db'.givenBackFor id = db.givenBackFor id) : db'.books id = db.books id := by
  have htab : db'.tab id = db.tab id := funext fun o => by
    rw [Db.tab, Db.tab, htaken, hgiven]
  rw [Db.books, Db.books, horder, htab]

/-- An order whose row is the same has paid the same. -/
theorem Settled.takenFor_congr (h : Settled db) (h' : Settled db') {id : Id}
    (horder : db'.orders.get id = db.orders.get id) : db'.takenFor id = db.takenFor id := by
  cases ho : db.orders.get id with
  | none =>
    have hnone : ∀ {d : Db}, Settled d → d.orders.get id = none → d.takenFor id = 0 := by
      intro d hd hd'
      rw [Db.takenFor, hd.paymentsFor_eq_nil fun o ho => by rw [hd'] at ho; cases ho]
      rfl
    rw [hnone h ho, hnone h' (horder.trans ho)]
  | some o => rw [h.takenFor_eq ho, h'.takenFor_eq (horder.trans ho)]

/-- A commit that refunds nothing: what it does to the orders is what it posts. -/
theorem OrderStep.posts (hstep : OrderStep db db') (hs : Settled db) (hs' : Settled db')
    (hr : Refunds db) (hg : db.Grows db') (hrefunds : db'.refunds = db.refunds)
    (hspare : ∀ id o', db'.orders.get id = some o' → o'.status = .refunded →
      db.orders.get id = some o') :
    ∃ journal, journal.length ≤ 1 ∧ postAll db.books journal = some db'.books := by
  have hgiven := hg.givenBackFor hs hs' hr hrefunds
  have hsame : ∀ id, db'.orders.get id = db.orders.get id → db'.books id = db.books id :=
    fun id horder => books_congr horder (hs.takenFor_congr hs' horder) (hgiven id)
  cases hstep with
  | stays horders hhistory =>
    refine ⟨[], Nat.zero_le 1, ?_⟩
    rw [postAll_nil, funext fun id => hsame id (by rw [horders])]
  | @opens id row principal hfree hstatus horders hhistory =>
    have hrow : db'.orders.get id = some row := by rw [horders, Table.get_put_self]
    have hnot : row.status.isSettled = false := by
      rcases hstatus with h | h <;> rw [h] <;> rfl
    have hstage : row.status.stage = .waiting := by
      rcases hstatus with h | h <;> rw [h] <;> rfl
    have hnil : db'.paymentsFor id = [] := hs'.paymentsFor_eq_nil fun o ho => by
      obtain rfl := Option.some.inj (hrow.symm.trans ho)
      simp [hnot]
    refine ⟨[⟨id, .opens row.totalMinor⟩], le_rfl, ?_⟩
    rw [postAll_singleton]
    refine post_books (t := ⟨.waiting, row.totalMinor, 0, 0⟩)
      (fun x hx => hsame x (by rw [horders, Table.get_put_ne _ _ hx])) ?_ ?_
    · rw [Db.books, hrow, Option.map_some, Db.tab, hstage, Db.takenFor, Db.givenBackFor, hnil]
      rfl
    · rw [Db.books, hfree]
      rfl
  | @moves r row row' hrow hsrc htgt hlegal horders hhistory =>
    have hrow' : db'.orders.get r.orderId = some row' := by rw [horders, Table.get_put_self]
    have hother : ∀ x, x ≠ r.orderId → db'.books x = db.books x := fun x hx =>
      hsame x (by rw [horders, Table.get_put_ne _ _ hx])
    have htotal : row'.totalMinor = row.totalMinor := (hg.orders.rel hrow hrow').totalMinor
    have hnot : r.target ≠ .refunded := by
      intro href
      have hsame := hspare _ _ hrow' (htgt.trans href)
      obtain rfl := Option.some.inj (hrow.symm.trans hsame)
      rw [← hsrc, htgt, href] at hlegal
      exact absurd hlegal (by decide)
    have hold : db.books r.orderId = some ⟨r.source.stage, row.totalMinor,
        if r.source.isSettled then row.totalMinor else 0, db.givenBackFor r.orderId⟩ := by
      rw [Db.books, hrow, Option.map_some, Db.tab, hs.takenFor_eq hrow, hsrc]
    have hnew : db'.books r.orderId = some ⟨r.target.stage, row.totalMinor,
        if r.target.isSettled then row.totalMinor else 0, db.givenBackFor r.orderId⟩ := by
      rw [Db.books, hrow', Option.map_some, Db.tab, hs'.takenFor_eq hrow', htgt, htotal, hgiven]
    rcases OrderStatus.stage_move hlegal hnot with ⟨hstage, hsettled⟩ | ⟨hwaits, hsold, hsettled⟩ |
      ⟨hwaits, hdropped, hopen, hclosed⟩
    · -- the till does not see it
      refine ⟨[], Nat.zero_le 1, congrArg some (funext fun x => ?_)⟩
      by_cases hx : x = r.orderId
      · rw [hx, hold, hnew, hstage, hsettled]
      · exact (hother x hx).symm
    · -- a sale: a payment of the whole total succeeded with it
      have hpos : 0 < row.totalMinor := by
        obtain ⟨pid, p, hp, hid, -⟩ := hs'.paid hrow' (htgt ▸ hsettled)
        obtain ⟨o, ho, hfits⟩ := hs'.payment hp
        rw [hid, hrow'] at ho
        obtain rfl := Option.some.inj ho
        rw [← htotal, ← hfits.amount]
        exact hfits.positive
      refine ⟨[⟨r.orderId, .sells row.totalMinor⟩], le_rfl, ?_⟩
      rw [postAll_singleton]
      refine post_books hother hnew ?_
      rw [hold, hsold, hsettled, if_pos rfl]
      exact if_pos ⟨hwaits, rfl, hpos⟩
    · refine ⟨[⟨r.orderId, .drops⟩], le_rfl, ?_⟩
      rw [postAll_singleton]
      refine post_books hother hnew ?_
      rw [hold, hdropped, hopen, hclosed]
      exact if_pos hwaits

/-- A refund posts what it gives back. -/
theorem refund_posts (hs : Settled db) (hr : Refunds db) {pid : Id} {p : Payment} {r : Refund}
    {row' : Order} (hp : db.payments.get pid = some p)
    (hsucc : p.status = .succeeded) (hrp : r.paymentId = pid) (hpos : 0 < r.amountMinor)
    (hle : db.refunded pid + r.amountMinor ≤ p.amountMinor)
    (hrefunds : db'.refunds = db.refunds ++ [r]) (hpayments : db'.payments = db.payments)
    (hother : ∀ x, x ≠ p.orderId → db'.orders.get x = db.orders.get x)
    (hrow' : db'.orders.get p.orderId = some row')
    (hstage : ∀ row, db.orders.get p.orderId = some row → row.status.stage = .sold →
      row'.totalMinor = row.totalMinor ∧ row'.status.stage =
        if db.refunded pid + r.amountMinor = p.amountMinor then .returned else .sold)
    (hleft : db.refunded pid ≠ p.amountMinor) :
    post db.books ⟨p.orderId, .givesBack r.amountMinor⟩ = some db'.books := by
  obtain ⟨row, hrow, hfits⟩ := hs.payment hp
  have hsold : row.status.stage = .sold := OrderStatus.stage_eq_sold (hfits.settled hsucc)
    fun href => hleft ((hr.whole hp hsucc hrow).mp href)
  obtain ⟨htotal, hstage'⟩ := hstage row hrow hsold
  have hgiven := hs.givenBackFor_add hp hsucc hrp hrefunds hpayments
  have htaken : ∀ x, db'.takenFor x = db.takenFor x := by
    intro x
    rw [Db.takenFor, Db.paymentsFor, hpayments, Db.takenFor, Db.paymentsFor]
  have hpaid : db.takenFor p.orderId = p.amountMinor := by
    rw [Db.takenFor, hs.paymentsFor_eq hp hsucc]
    simp
  refine post_books (t := ⟨row'.status.stage, row.totalMinor, p.amountMinor,
    db.refunded pid + r.amountMinor⟩) (fun x hx => ?_) ?_ ?_
  · refine books_congr (hother x hx) (htaken x) ?_
    rw [hgiven, if_neg hx, add_zero]
  · rw [Db.books, hrow', Option.map_some, Db.tab, htotal, htaken, hpaid, hgiven, if_pos rfl,
      hs.givenBackFor_eq hp hsucc]
  · rw [Db.books, hrow, Option.map_some, Db.tab, hsold, hpaid, hs.givenBackFor_eq hp hsucc, hstage']
    exact if_pos ⟨rfl, hpos, hle⟩

end posts

/-- Every commit posts one entry or none. -/
theorem Commits.posts {P : PosPermit} {c : Call} {s : Shared} {ws : List Write}
    (h : Commits cfg P c s ws) (hs : Settled s.db) (hr : Refunds s.db) :
    ∃ journal, journal.length ≤ 1 ∧
      postAll s.db.books journal = some (store.applyAll ws s.db).books := by
  by_cases hc : ∃ userId id input, c = .refund userId id input
  · obtain ⟨userId, id, input, rfl⟩ := hc
    cases h with
    | @refundPart _ _ _ refundId p _ hp hsucc hpos hlt =>
      obtain ⟨row, hrow, hfits⟩ := hs.payment hp
      refine ⟨[⟨p.orderId, .givesBack input.amountMinor⟩], le_rfl, ?_⟩
      rw [postAll_singleton]
      refine refund_posts (r := ⟨refundId, id, _, input.reason, .succeeded, userId⟩) hs hr hp hsucc
        rfl hpos hlt.le rfl rfl (fun _ _ => rfl) hrow (fun row₁ hrow₁ hsold => ?_) (by omega)
      obtain rfl := Option.some.inj (hrow.symm.trans hrow₁)
      rw [if_neg hlt.ne]
      exact ⟨rfl, hsold⟩
    | @refundAll _ _ _ refundId p row _ hp hsucc hpos hall hrow =>
      refine ⟨[⟨p.orderId, .givesBack input.amountMinor⟩], le_rfl, ?_⟩
      rw [postAll_singleton]
      refine refund_posts (r := ⟨refundId, id, _, input.reason, .succeeded, userId⟩) hs hr hp hsucc
        rfl hpos hall.le rfl rfl (fun x hx => Table.get_put_ne _ _ hx) (Table.get_put_self ..)
        (fun row₁ hrow₁ _ => ?_) (by omega)
      obtain rfl := Option.some.inj (hrow.symm.trans hrow₁)
      rw [if_pos hall]
      exact ⟨rfl, rfl⟩
    | close hcloses => cases hcloses
  · obtain ⟨hrefunds, hspare⟩ := sparesRefunds_applyAll
      (h.sparesRefunds fun userId id input heq => hc ⟨userId, id, input, heq⟩) s.db
    exact (h.orderStep hs hr).posts hs (h.settled hs) hr (h.grows hs) hrefunds hspare

/-! ## Runs -/

/-- Every action of a run posts one entry or none. -/
theorem Reachable.posts {w w' : PosWorld} (h : Reachable cfg w) {a : PosAct}
    (hact : w.act (system cfg) a = some w') :
    ∃ journal, journal.length ≤ 1 ∧
      postAll w.shared.db.books journal = some w'.shared.db.books := by
  have hquiet : ∀ db, db = w.shared.db → ∃ journal : List (Entry Id ℤ), journal.length ≤ 1 ∧
      postAll w.shared.db.books journal = some db.books :=
    fun db hdb => ⟨[], Nat.zero_le 1, by rw [hdb, postAll_nil]⟩
  cases World.transition_of_act hact with
  | start | crash => exact hquiet _ rfl
  | world hs => exact hquiet _ (happen_db hs)
  | @step i inp t o k r l' s' hu hp hx =>
    obtain ⟨hmove, -⟩ := h.sound.step hu hp trivial hx
    have hsettled : Settled w.shared.db := h.sound.inv.1
    cases hmove with
    | quiet | publish | gateway => exact hquiet _ rfl
    | commit hc | inbox hc => exact hc.posts hsettled h.refunds

/-- Every run is a journal. -/
theorem Reachable.journal {w w' : PosWorld} (h : Reachable cfg w)
    (hr : Runs (system cfg) .all w w') :
    ∃ journal, postAll w.shared.db.books journal = some w'.shared.db.books := by
  induction hr with
  | refl => exact ⟨[], rfl⟩
  | tail hr _ hact ih =>
    obtain ⟨journal, hjournal⟩ := ih
    obtain ⟨last, -, hlast⟩ := Reachable.posts (h.extend hr) hact
    refine ⟨journal ++ last, ?_⟩
    rw [postAll_append, hjournal]
    exact hlast

/-- The books of every reachable world are in order. -/
theorem Reachable.fairBooks {w : PosWorld} (h : Reachable cfg w) : Fair w.shared.db.books := by
  obtain ⟨journal, hjournal⟩ := Reachable.journal (.refl : Reachable cfg opening) h
  exact Fair.empty.postAll hjournal

/-- What the books show in the till is what the payments and the refunds add up to. -/
theorem Settled.netOf_books {db : Db} (h : Settled db) (id : Id) :
    netOf db.books id = db.takenFor id - db.givenBackFor id := by
  cases ho : db.orders.get id with
  | none =>
    have hnil : db.paymentsFor id = [] := h.paymentsFor_eq_nil fun o ho' => by
      rw [ho] at ho'
      cases ho'
    rw [netOf, Db.books, ho, Db.takenFor, Db.givenBackFor, hnil]
    rfl
  | some o =>
    rw [netOf, Db.books, ho]
    rfl

/-- **Every run is a journal of the till.** However the calls, the gateway and the crashes
interleave, the database moves as the books of a till do: between any two moments of a run there is
a journal that leads from the books of the one to the books of the other, what it puts into the till
for an order is what the payments that succeeded and the refunds of it differ by, and a single
action posts at most one entry of it. -/
theorem runs_keep_books {w w' : PosWorld} (h : Reachable cfg w)
    (hr : Runs (system cfg) .all w w') :
    (∃ journal, postAll w.shared.db.books journal = some w'.shared.db.books ∧
      ∀ id, w'.shared.db.takenFor id - w'.shared.db.givenBackFor id =
        w.shared.db.takenFor id - w.shared.db.givenBackFor id + moneyOf journal id) ∧
    ∀ a v, w'.act (system cfg) a = some v → ∃ journal, journal.length ≤ 1 ∧
      postAll w'.shared.db.books journal = some v.shared.db.books := by
  have h' : Reachable cfg w' := h.extend hr
  refine ⟨?_, fun a v hact => h'.posts hact⟩
  obtain ⟨journal, hjournal⟩ := h.journal hr
  refine ⟨journal, hjournal, fun id => ?_⟩
  have hw : Settled w.shared.db := h.sound.inv.1
  have hw' : Settled w'.shared.db := h'.sound.inv.1
  rw [← hw.netOf_books, ← hw'.netOf_books]
  exact h.fairBooks.net_of_journal hjournal id

theorem runs_keep_books_refunded : ∃ w, Runs (system cornerCafe) .all opening w ∧
    w.shared.db.books 100 = some ⟨.returned, 9000, 9000, 9000⟩ ∧
    ∃ journal, postAll Db.empty.books journal = some w.shared.db.books ∧
      ∀ id, w.shared.db.takenFor id - w.shared.db.givenBackFor id =
        Db.empty.takenFor id - Db.empty.givenBackFor id + moneyOf journal id := by
  obtain ⟨w, hw, hbooks⟩ := Reachable.exists_of_runIf cornerCafe
    (takeOrder ++ payCash 1 200 ++
      .start (.refund 7 200 ⟨9000, "cold"⟩) :: steps 2 11 (supply 400 ""))
    (fun w => w.shared.db.books 100 = some ⟨.returned, 9000, 9000, 9000⟩) (by decide)
  exact ⟨w, hw, hbooks, (runs_keep_books .refl hw).1⟩

end CafePos
