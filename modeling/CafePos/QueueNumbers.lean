import CafePos.Soundness

/-!
# Queue numbers

Two doors claim a number inside a longer transaction, `create` and `checkout`; both take it
from the day's counter, whose row they hold until they commit. In every committed state the
numbers of a day are therefore `formatOrderNumber 1, ..., formatOrderNumber n`, each on one
order, with `n` the counter's value: a transaction that fails gives up its number with
everything else.
-/

namespace CafePos

open Interleaving

variable {cfg : Config}

/-- The padding does not make two numbers collide, not even past three digits. -/
theorem formatOrderNumber_injective : Function.Injective formatOrderNumber := by
  intro a b h
  have hchars : List.leftpad 3 '0' (Nat.toDigits 10 a) = List.leftpad 3 '0' (Nat.toDigits 10 b) := by
    have h' := String.ofList_injective h
    simpa using h'
  -- reading the digits back forgets the leading zeros
  have hvalue : ∀ n, Nat.ofDigitChars 10 (List.leftpad 3 '0' (Nat.toDigits 10 n)) 0 = n := by
    intro n
    rw [List.leftpad, Nat.ofDigitChars_append, Nat.ofDigitChars_replicate_zero, Nat.mul_zero,
      Nat.ofDigitChars_ten_toDigits]
  rw [← hvalue a, ← hvalue b, hchars]

/-! ## What a commit does to numbers and counters -/

/-- What a commit does to the order numbers and the counters. -/
inductive NumberStep (db db' : Db) : Prop
  /-- nothing -/
  | stays : db'.orders = db.orders → db'.orderNumberCounters = db.orderNumberCounters →
      NumberStep db db'
  /-- a new order is parked, without a number -/
  | parks {id : Id} {row : Order} : db.orders.get id = none → row.orderNumber = none →
      db'.orders = db.orders.put id row → db'.orderNumberCounters = db.orderNumberCounters →
      NumberStep db db'
  /-- an order moves, with the number it has -/
  | keeps {id : Id} {row row' : Order} : db.orders.get id = some row →
      row'.orderNumber = row.orderNumber → row'.businessDay = row.businessDay →
      row'.status ≠ .draft → db'.orders = db.orders.put id row' →
      db'.orderNumberCounters = db.orderNumberCounters → NumberStep db db'
  /-- an order without a number claims the next one of its day -/
  | claims {id : Id} {row : Order} : (∀ o, db.orders.get id = some o → o.orderNumber = none) →
      row.orderNumber = some (formatOrderNumber (db.lastValue row.businessDay + 1)) →
      row.status ≠ .draft → db'.orders = db.orders.put id row →
      db'.orderNumberCounters =
        db.orderNumberCounters.put row.businessDay (db.lastValue row.businessDay + 1) →
      NumberStep db db'

/-- A move keeps the number. -/
theorem NumberStep.moved {db db' : Db} {id : Id} {row : Order} {source target : OrderStatus}
    (hrow : db.orders.get id = some row) (htarget : target ≠ .draft)
    (horders : db'.orders = db.orders.put id (Statement.moved row source target))
    (hcounters : db'.orderNumberCounters = db.orderNumberCounters) : NumberStep db db' :=
  have hsame : (Statement.moved row source target).orderNumber = row.orderNumber ∧
    (Statement.moved row source target).businessDay = row.businessDay := ⟨rfl, rfl⟩
  .keeps hrow hsame.1 hsame.2 htarget horders hcounters

/-- A log of one `transitionOrder` and writes to other tables keeps the number. -/
theorem NumberStep.of_moveWrites {db : Db} {r : TransitionRequest} {row : Order} {ws : List Write}
    (hrow : db.orders.get r.orderId = some row) (htarget : r.target ≠ .draft)
    (horder : ∀ w ∈ ws, ∀ id row, w ≠ .order id row)
    (hcounter : ∀ w ∈ ws, ∀ day n, w ≠ .counter day n) :
    NumberStep db (store.applyAll (moveWrites r row ++ ws) db) := by
  refine .moved hrow htarget (orders_moveWrites horder r row db) ?_
  rw [applyAll_moveWrites, applyAll_orderNumberCounters hcounter]

/-- A log that writes neither orders nor counters. -/
theorem NumberStep.of_elsewhere {db : Db} {ws : List Write}
    (horder : ∀ w ∈ ws, ∀ id row, w ≠ .order id row)
    (hcounter : ∀ w ∈ ws, ∀ day n, w ≠ .counter day n) :
    NumberStep db (store.applyAll ws db) :=
  .stays (applyAll_orders horder db) (applyAll_orderNumberCounters hcounter db)

/-- Every log does one of these. -/
theorem Commits.numberStep {P : PosPermit} {c : Call} {s : Shared} {ws : List Write}
    (h : Commits cfg P c s ws)
    (hdraft : ∀ id o, s.db.orders.get id = some o → o.status = .draft → o.orderNumber = none) :
    NumberStep s.db (store.applyAll ws s.db) := by
  cases h with
  | @create _ _ input _ _ _ _ _ _ _ n row hkey hpriced hn hrow hfree =>
    rw [applyAll_underKey createWrites_not_key, applyAll_createWrites]
    have hnumber : row.orderNumber = claimed input n := by rw [hrow]; rfl
    have hstatus : row.status = if input.draft then .draft else .pendingPayment := by
      rw [hrow]
      rfl
    cases hd : input.draft with
    | true =>
      rw [claimed, if_pos hd] at hnumber
      exact .parks hfree hnumber rfl rfl
    | false =>
      simp only [claimed, hd, Bool.false_eq_true, if_false] at hnumber hstatus
      obtain rfl := hn hd
      refine .claims (fun o ho => ?_) hnumber ?_ rfl rfl
      · rw [hfree] at ho
        cases ho
      · rw [hstatus]
        decide
  | checkout hrow hdr hn =>
    subst hn
    refine .claims (fun o ho => ?_) rfl (fun h => by cases h) (Table.put_put ..) rfl
    obtain rfl := Option.some.inj (hrow.symm.trans ho)
    exact hdraft _ _ hrow hdr
  | cash hm ht hle hkey hrow hpending =>
    rw [applyAll_underKey (by simp [moveWrites])]
    exact .moved hrow (by simp) rfl rfl
  | openPayment => rw [applyAll_underKey (by simp)]; exact .stays rfl rfl
  | record => exact .stays rfl rfl
  | skip =>
    exact .of_elsewhere (forall_stampWrites fun _ _ _ => by simp)
      (forall_stampWrites fun _ _ _ => by simp)
  | markPayment =>
    exact .of_elsewhere
      (List.forall_mem_append.mpr ⟨forall_settleWrites fun _ _ => by simp,
        forall_stampWrites fun _ _ _ => by simp⟩)
      (List.forall_mem_append.mpr ⟨forall_settleWrites fun _ _ => by simp,
        forall_stampWrites fun _ _ _ => by simp⟩)
  | markPaid he hp hcap hrow hpending =>
    exact .of_moveWrites hrow (by simp)
      (List.forall_mem_append.mpr ⟨forall_settleWrites fun _ _ => by simp,
        forall_stampWrites fun _ _ _ => by simp⟩)
      (List.forall_mem_append.mpr ⟨forall_settleWrites fun _ _ => by simp,
        forall_stampWrites fun _ _ _ => by simp⟩)
  | close hcloses hrow hsrc hlive =>
    refine .of_moveWrites hrow ?_ (forall_liveWrites fun _ _ _ _ => by simp)
      (forall_liveWrites fun _ _ _ _ => by simp)
    cases hcloses <;> simp
  | staff hrow hstaff =>
    refine .moved hrow ?_ rfl rfl
    rcases target_of_isStaffTransition hstaff with rfl | rfl | rfl <;> simp
  | refundPart => exact .stays rfl rfl
  | refundAll hp hsucc hpos hall hrow => exact .moved hrow (by simp) rfl rfl

/-! ## The numbers of a day -/

/-- Order `id` is of the day and carries number `k`. -/
def Db.Carries (db : Db) (day : String) (k : ℕ) (id : Id) : Prop :=
  ∃ o, db.orders.get id = some o ∧ o.businessDay = day ∧
    o.orderNumber = some (formatOrderNumber k)

/-- What the numbers of every committed state satisfy. -/
structure Numbered (db : Db) : Prop where
  /-- a parked order has no number -/
  draft : ∀ id o, db.orders.get id = some o → o.status = .draft → o.orderNumber = none
  /-- a number of the day is one the counter has given out -/
  listed : ∀ id o number, db.orders.get id = some o → o.orderNumber = some number →
    ∃ k, 1 ≤ k ∧ k ≤ db.lastValue o.businessDay ∧ number = formatOrderNumber k
  /-- and each of those is on one order -/
  carried : ∀ day k, 1 ≤ k → k ≤ db.lastValue day → ∃! id, db.Carries day k id

namespace Numbered

variable {db db' : Db}

theorem empty : Numbered Db.empty where
  draft _ _ h := by cases h
  listed _ _ _ h := by cases h
  carried day k h₁ h₂ := absurd (Nat.le_trans h₁ h₂) (Nat.not_succ_le_zero 0)

/-- An order without a number, or an order that keeps its own, is put. -/
theorem put (h : Numbered db) {id : Id} {row : Order}
    (hrow : db.orders.get id = none ∧ row.orderNumber = none ∨
      ∃ o, db.orders.get id = some o ∧ row.orderNumber = o.orderNumber ∧
        row.businessDay = o.businessDay ∧ row.status ≠ .draft)
    (horders : db'.orders = db.orders.put id row)
    (hcounters : db'.orderNumberCounters = db.orderNumberCounters) : Numbered db' := by
  have hlast : ∀ day, db'.lastValue day = db.lastValue day := by
    intro day
    rw [Db.lastValue, hcounters, Db.lastValue]
  -- who carries a number carries it still, and nobody else does
  have hcarries : ∀ day k x, db'.Carries day k x ↔ db.Carries day k x := by
    intro day k x
    rw [Db.Carries, Db.Carries, horders]
    by_cases hx : x = id
    · subst hx
      rw [Table.get_put_self]
      rcases hrow with ⟨hnone, hnumber⟩ | ⟨o, ho, hnumber, hday, -⟩
      · constructor
        · rintro ⟨o, ho, -, hk⟩
          obtain rfl := Option.some.inj ho
          rw [hnumber] at hk
          cases hk
        · rintro ⟨o, ho, -⟩
          rw [hnone] at ho
          cases ho
      · constructor
        · rintro ⟨o', ho', hd, hk⟩
          obtain rfl := Option.some.inj ho'
          exact ⟨o, ho, hday.symm.trans hd, hnumber.symm.trans hk⟩
        · rintro ⟨o', ho', hd, hk⟩
          obtain rfl := Option.some.inj (ho.symm.trans ho')
          exact ⟨row, rfl, hday.trans hd, hnumber.trans hk⟩
    · rw [Table.get_put_ne _ _ hx]
  refine ⟨?_, ?_, ?_⟩
  · intro x o ho hd
    rw [horders, Table.get_put] at ho
    split at ho
    · obtain rfl := Option.some.inj ho
      rcases hrow with ⟨-, hnumber⟩ | ⟨-, -, -, -, hne⟩
      · exact hnumber
      · exact absurd hd hne
    · exact h.draft x o ho hd
  · intro x o number ho hnumber
    rw [hlast]
    rw [horders, Table.get_put] at ho
    split at ho
    · obtain rfl := Option.some.inj ho
      rcases hrow with ⟨-, hnone⟩ | ⟨o, ho, hsame, hday, -⟩
      · rw [hnone] at hnumber
        cases hnumber
      · rw [hday]
        exact h.listed id o number ho (hsame.symm.trans hnumber)
    · exact h.listed x o number ho hnumber
  · intro day k h₁ h₂
    rw [hlast] at h₂
    obtain ⟨x, hx, huniq⟩ := h.carried day k h₁ h₂
    exact ⟨x, (hcarries day k x).mpr hx, fun y hy => huniq y ((hcarries day k y).mp hy)⟩

/-- An order without a number claims the next one of its day. -/
theorem claim (h : Numbered db) {id : Id} {row : Order}
    (hold : ∀ o, db.orders.get id = some o → o.orderNumber = none)
    (hnumber : row.orderNumber = some (formatOrderNumber (db.lastValue row.businessDay + 1)))
    (hstatus : row.status ≠ .draft) (horders : db'.orders = db.orders.put id row)
    (hcounters : db'.orderNumberCounters =
      db.orderNumberCounters.put row.businessDay (db.lastValue row.businessDay + 1)) :
    Numbered db' := by
  have hlast : ∀ day, db'.lastValue day =
      if day = row.businessDay then db.lastValue row.businessDay + 1 else db.lastValue day := by
    intro day
    rw [Db.lastValue, hcounters, Table.get_put]
    split
    · rfl
    · rfl
  have hle : ∀ day, db.lastValue day ≤ db'.lastValue day := by
    intro day
    rw [hlast]
    split
    · rename_i hday
      rw [hday]
      exact Nat.le_succ _
    · exact Nat.le_refl _
  -- the claimed number is on `id` alone, the others are where they were
  have hcarries : ∀ day k x, db'.Carries day k x ↔
      db.Carries day k x ∨ x = id ∧ day = row.businessDay ∧ k = db.lastValue day + 1 := by
    intro day k x
    rw [Db.Carries, Db.Carries, horders]
    by_cases hx : x = id
    · subst hx
      rw [Table.get_put_self]
      constructor
      · rintro ⟨o, ho, hd, hk⟩
        obtain rfl := Option.some.inj ho
        subst hd
        exact Or.inr ⟨rfl, rfl, formatOrderNumber_injective
          (Option.some.inj (hk.symm.trans hnumber))⟩
      · rintro (⟨o, ho, -, hk⟩ | ⟨-, hd, hk⟩)
        · rw [hold o ho] at hk
          cases hk
        · subst hd hk
          exact ⟨row, rfl, rfl, hnumber⟩
    · rw [Table.get_put_ne _ _ hx]
      exact ⟨Or.inl, fun hor => hor.resolve_right fun hc => hx hc.1⟩
  refine ⟨?_, ?_, ?_⟩
  · intro x o ho hd
    rw [horders, Table.get_put] at ho
    split at ho
    · obtain rfl := Option.some.inj ho
      exact absurd hd hstatus
    · exact h.draft x o ho hd
  · intro x o number ho hn
    rw [horders, Table.get_put] at ho
    split at ho
    · obtain rfl := Option.some.inj ho
      refine ⟨db.lastValue row.businessDay + 1, Nat.le_add_left .., ?_,
        Option.some.inj (hn.symm.trans hnumber)⟩
      rw [hlast, if_pos rfl]
    · obtain ⟨k, h₁, h₂, hk⟩ := h.listed x o number ho hn
      exact ⟨k, h₁, Nat.le_trans h₂ (hle _), hk⟩
  · intro day k h₁ h₂
    rw [hlast] at h₂
    by_cases hnew : day = row.businessDay ∧ k = db.lastValue day + 1
    · obtain ⟨rfl, rfl⟩ := hnew
      refine ⟨id, (hcarries _ _ id).mpr (Or.inr ⟨rfl, rfl, rfl⟩), fun y hy => ?_⟩
      rcases (hcarries _ _ y).mp hy with ⟨o, ho, hday, hk⟩ | ⟨hy, -⟩
      · -- nobody had it before: the counter had not reached it
        obtain ⟨k', -, hk', heq⟩ := h.listed y o _ ho hk
        have := formatOrderNumber_injective heq
        rw [hday] at hk'
        omega
      · exact hy
    · have hle' : k ≤ db.lastValue day := by
        split at h₂
        · rename_i hday
          subst hday
          have : k ≠ db.lastValue row.businessDay + 1 := fun hk => hnew ⟨rfl, hk⟩
          omega
        · exact h₂
      obtain ⟨x, hx, huniq⟩ := h.carried day k h₁ hle'
      refine ⟨x, (hcarries day k x).mpr (Or.inl hx), fun y hy => ?_⟩
      rcases (hcarries day k y).mp hy with hy | ⟨-, hd, hk⟩
      · exact huniq y hy
      · exact absurd ⟨hd, hk⟩ hnew

/-- One commit. -/
theorem step (h : Numbered db) (hstep : NumberStep db db') : Numbered db' := by
  cases hstep with
  | stays horders hcounters =>
    obtain ⟨h₁, h₂, h₃⟩ := h
    have hlast : db'.lastValue = db.lastValue := by
      funext day
      rw [Db.lastValue, hcounters, Db.lastValue]
    rw [← horders, ← hlast] at h₂
    rw [← horders] at h₁
    refine ⟨h₁, h₂, fun day k hk hk' => ?_⟩
    rw [hlast] at hk'
    simpa only [Db.Carries, horders] using h₃ day k hk hk'
  | parks hfree hnone horders hcounters => exact h.put (Or.inl ⟨hfree, hnone⟩) horders hcounters
  | keeps hrow hnumber hday hstatus horders hcounters =>
    exact h.put (Or.inr ⟨_, hrow, hnumber, hday, hstatus⟩) horders hcounters
  | claims hold hnumber hstatus horders hcounters =>
    exact h.claim hold hnumber hstatus horders hcounters

end Numbered

theorem Reachable.numbered {w : PosWorld} (h : Reachable cfg w) : Numbered w.shared.db :=
  h.db_invariant Numbered.empty fun _ _ _ _ hn hc => hn.step (hc.numberStep hn.draft)

/-- In every reachable world, on every business day, the order numbers are
`formatOrderNumber 1, ..., formatOrderNumber n` with `n` the day's counter, each on exactly
one order; and the format is injective. -/
theorem queue_numbers_gapless {w : PosWorld} (h : Reachable cfg w) (day : String) :
    (∀ number, (∃ id o, w.shared.db.orders.get id = some o ∧ o.businessDay = day ∧
        o.orderNumber = some number) ↔
      ∃ k, 1 ≤ k ∧ k ≤ w.shared.db.lastValue day ∧ number = formatOrderNumber k) ∧
    (∀ k, 1 ≤ k → k ≤ w.shared.db.lastValue day → ∃! id, w.shared.db.Carries day k id) ∧
    Function.Injective formatOrderNumber := by
  have hn := h.numbered
  refine ⟨fun number => ⟨?_, ?_⟩, hn.carried day, formatOrderNumber_injective⟩
  · rintro ⟨id, o, ho, rfl, hnumber⟩
    exact hn.listed id o number ho hnumber
  · rintro ⟨k, h₁, h₂, rfl⟩
    obtain ⟨id, ⟨o, ho, hday, hk⟩, -⟩ := hn.carried day k h₁ h₂
    exact ⟨id, o, ho, hday, hk⟩

theorem queue_numbers_gapless_first : ∃ w, Reachable cornerCafe w ∧
    w.shared.db.lastValue "2026-01-01" = 1 ∧
    ∃! id, w.shared.db.Carries "2026-01-01" 1 id := by
  obtain ⟨w, hw, hlast⟩ := Reachable.exists_of_runIf cornerCafe takeOrder
    (fun w => w.shared.db.lastValue "2026-01-01" = 1) (by decide)
  refine ⟨w, hw, hlast, (queue_numbers_gapless hw "2026-01-01").2.1 1 (Nat.le_refl 1) ?_⟩
  rw [hlast]

end CafePos
