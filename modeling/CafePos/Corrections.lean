import CafePos.Rerolls
import CafePos.PaymentSteps

/-!
# No silent corrections

`describeCorrection` (`reporting/rollup/describe-correction.ts`) says what rolling a day up again
has changed. It compares eight numbers and neither of the two structured columns.

* `Kept` — what a later state keeps of an earlier one: a succeeded payment is frozen, lines are
  only added, and only for new orders;
* `Reachable.kept` — every run keeps it;
* `Kept.items_perm`, `Kept.revenue_perm` — with as many settled orders as before, the day has sold
  the same lines and taken the same payments;
* `no_silent_correction` — no correction is described exactly if the rows are equal.
-/

namespace CafePos

open Interleaving Relational

variable {cfg : Config}

/-! ## What is compared -/

/-- `ComparedField`. -/
inductive ComparedField where
  | ordersCompleted | ordersRefunded | ordersCancelled | ordersExpired | ordersSettled
  | revenueMinor | refundsMinor | vatMinor
  deriving DecidableEq

namespace ComparedField

/-- The name of a field. -/
def text : ComparedField → String
  | ordersCompleted => "ordersCompleted"
  | ordersRefunded => "ordersRefunded"
  | ordersCancelled => "ordersCancelled"
  | ordersExpired => "ordersExpired"
  | ordersSettled => "ordersSettled"
  | revenueMinor => "revenueMinor"
  | refundsMinor => "refundsMinor"
  | vatMinor => "vatMinor"

/-- `row[field]`. -/
def of (row : RollupRow) : ComparedField → ℤ
  | ordersCompleted => row.ordersCompleted
  | ordersRefunded => row.ordersRefunded
  | ordersCancelled => row.ordersCancelled
  | ordersExpired => row.ordersExpired
  | ordersSettled => row.ordersSettled
  | revenueMinor => row.revenueMinor
  | refundsMinor => row.refundsMinor
  | vatMinor => row.vatMinor

end ComparedField

/-- `COMPARED_FIELDS`. -/
def comparedFields : List ComparedField :=
  [.ordersCompleted, .ordersRefunded, .ordersCancelled, .ordersExpired, .ordersSettled,
    .revenueMinor, .refundsMinor, .vatMinor]

/-- `describeCorrection`. -/
def describeCorrection (previous next : RollupRow) : Option String :=
  let moved := (comparedFields.filter fun field => field.of previous ≠ field.of next).map
    fun field => s!"{field.text} {field.of previous} → {field.of next}"
  if moved.length = 0 then none else some (", ".intercalate moved)

theorem describeCorrection_eq_none {r r' : RollupRow} :
    describeCorrection r r' = none ↔ ∀ field : ComparedField, field.of r = field.of r' := by
  have hall : ∀ field : ComparedField, field ∈ comparedFields := by
    intro field
    cases field <;> decide
  have hnone : describeCorrection r r' = none ↔
      comparedFields.filter (fun field => field.of r ≠ field.of r') = [] := by
    simp only [describeCorrection, List.length_map, List.length_eq_zero_iff, ite_eq_left_iff,
      reduceCtorEq, imp_false, not_not]
  rw [hnone, List.filter_eq_nil_iff]
  simp only [hall, forall_const, ne_eq, decide_not, Bool.not_eq_true', decide_eq_false_iff_not,
    not_not]

/-! ## What a later state keeps -/

/-- What a later state of the database keeps of an earlier one. -/
structure Kept (db db' : Db) : Prop where
  grows : db.Grows db'
  /-- a succeeded payment is frozen -/
  succeeded : ∀ id p, db.payments.get id = some p → p.status = .succeeded →
    db'.payments.get id = some p
  /-- lines are added, for new orders -/
  items : ∃ items, db'.orderItems = db.orderItems ++ items ∧
    ∀ i ∈ items, db.orders.get i.orderId = none

theorem Kept.refl (db : Db) : Kept db db where
  grows := .refl _
  succeeded _ _ h _ := h
  items := ⟨[], (List.append_nil _).symm, fun _ h => absurd h List.not_mem_nil⟩

theorem Kept.trans {db₁ db₂ db₃ : Db} (h₁ : Kept db₁ db₂) (h₂ : Kept db₂ db₃) : Kept db₁ db₃ where
  grows := h₁.grows.trans h₂.grows
  succeeded id p hp hs := h₂.succeeded id p (h₁.succeeded id p hp hs) hs
  items := by
    obtain ⟨items₁, heq₁, hnew₁⟩ := h₁.items
    obtain ⟨items₂, heq₂, hnew₂⟩ := h₂.items
    refine ⟨items₁ ++ items₂, by rw [heq₂, heq₁, List.append_assoc], fun i hi => ?_⟩
    rcases List.mem_append.mp hi with hi | hi
    · exact hnew₁ i hi
    · -- an order that is new later is new now
      cases ho : db₁.orders.get i.orderId with
      | none => rfl
      | some o =>
        obtain ⟨o', ho', -⟩ := h₁.grows.orders _ o ho
        rw [hnew₂ i hi] at ho'
        cases ho'

/-- The lines a commit adds are those of a new order. -/
theorem Commits.orderItems {P : PosPermit} {c : Call} {s : Shared} {ws : List Write}
    (h : Commits cfg P c s ws) : ∃ items,
      (store.applyAll ws s.db).orderItems = s.db.orderItems ++ items ∧
      ∀ i ∈ items, s.db.orders.get i.orderId = none := by
  have hnone : (∀ w ∈ ws, ∀ row, w ≠ .orderItem row) → ∃ items,
      (store.applyAll ws s.db).orderItems = s.db.orderItems ++ items ∧
      ∀ i ∈ items, s.db.orders.get i.orderId = none := by
    intro hws
    refine ⟨[], ?_, fun _ hi => absurd hi List.not_mem_nil⟩
    rw [applyAll_orderItems_eq hws, List.append_nil]
  cases h with
  | @create _ _ _ _ _ _ priced _ _ id n row hkey hpriced hn hrow hfree =>
    refine ⟨itemRows id priced, ?_, fun i hi => ?_⟩
    · rw [applyAll_underKey createWrites_not_key, applyAll_createWrites]
    · obtain ⟨line, -, rfl⟩ := List.mem_map.mp hi
      exact hfree
  | checkout => exact hnone (List.forall_mem_append.mpr ⟨forall_moveWrites (fun _ => by simp)
      (fun _ => by simp), by simp⟩)
  | cash => exact hnone (forall_underKey (fun _ _ _ => by simp)
      (List.forall_mem_cons.mpr ⟨fun _ => by simp, forall_moveWrites (fun _ => by simp)
        (fun _ => by simp)⟩) _ _ _)
  | openPayment => exact hnone (forall_underKey (fun _ _ _ => by simp) (by simp) _ _ _)
  | record => exact hnone (by simp)
  | skip => exact hnone (forall_stampWrites fun _ _ => by simp)
  | markPayment => exact hnone (List.forall_mem_append.mpr
      ⟨forall_settleWrites fun _ => by simp, forall_stampWrites fun _ _ => by simp⟩)
  | markPaid => exact hnone (List.forall_mem_append.mpr ⟨forall_moveWrites (fun _ => by simp)
      (fun _ => by simp), List.forall_mem_append.mpr
        ⟨forall_settleWrites fun _ => by simp, forall_stampWrites fun _ _ => by simp⟩⟩)
  | close => exact hnone (List.forall_mem_append.mpr ⟨forall_moveWrites (fun _ => by simp)
      (fun _ => by simp), forall_liveWrites fun _ _ _ => by simp⟩)
  | staff => exact hnone (forall_moveWrites (fun _ => by simp) (fun _ => by simp))
  | refundPart => exact hnone (by simp)
  | refundAll => exact hnone (List.forall_mem_cons.mpr ⟨fun _ => by simp,
      forall_moveWrites (fun _ => by simp) (fun _ => by simp)⟩)

/-- A succeeded payment is not written. -/
theorem PaymentStep.succeeded {s : Shared} {ws : List Write} (h : PaymentStep s ws) {id : Id}
    {p : Payment} (hp : s.db.payments.get id = some p) (hs : p.status = .succeeded) :
    (store.applyAll ws s.db).payments.get id = some p := by
  rw [payments_applyAll]
  cases h with
  | stays hws =>
    rw [hws]
    exact hp
  | @inserts id' p' hws hfree =>
    rw [hws, List.foldl_cons, List.foldl_nil, Table.get_put]
    split
    · rename_i hid
      rw [hid, hfree] at hp
      cases hp
    · exact hp
  | @settles id' p' status method hws hp' hne =>
    rw [hws, List.foldl_cons, List.foldl_nil, Table.get_put]
    split
    · rename_i hid
      rw [hid, hp'] at hp
      obtain rfl := Option.some.inj hp
      exact absurd hs hne
    · exact hp

/-- Every commit keeps it. -/
theorem Commits.kept {c : Call} {s : Shared} {ws : List Write} (h : Commits cfg .all c s ws)
    (hs : Settled s.db) : Kept s.db (store.applyAll ws s.db) where
  grows := h.grows hs
  succeeded _ _ hp hsucc := (h.paymentStep hs).succeeded hp hsucc
  items := h.orderItems

/-- **Every run keeps it.** -/
theorem Reachable.kept {w w' : PosWorld} (h : Reachable cfg w)
    (hr : Runs (system cfg) .all w w') : Kept w.shared.db w'.shared.db := by
  refine Sound.shared_invariant (Context.starts (.plain cfg) opening.shared 0)
    (Context.happens (.plain cfg)) (J := fun s => Kept w.shared.db s.db) ?_ ?_ h.sound (.refl _) hr
  · intro c o l s l' s' hi hJ _ hm
    exact hm.preserves (J := fun s => Kept w.shared.db s.db) hJ (fun _ _ => hJ)
      fun ws hc _ _ => hJ.trans (hc.kept hi.1)
  · intro e s s' _ hJ _ hs
    rw [happen_db hs]
    exact hJ

/-! ## As many settled orders as before -/

namespace Kept

variable {db db' : Db} {day : String}

/-- An order that took money on a day still did. -/
theorem settledOn (h : Kept db db') {id : Id} (hid : id ∈ (db.settledOn day).map Prod.fst) :
    id ∈ (db'.settledOn day).map Prod.fst := by
  obtain ⟨hon, hset⟩ := Db.mem_settledOn.mp hid
  obtain ⟨o, ho, hday⟩ := Db.isOn_iff.mp hon
  obtain ⟨pid, p, hp, hpo, hsucc⟩ := Db.settled_iff.mp hset
  obtain ⟨o', ho', hevolves⟩ := h.grows.orders _ o ho
  exact Db.mem_settledOn.mpr ⟨Db.isOn_iff.mpr ⟨o', ho', hevolves.businessDay.trans hday⟩,
    Db.settled_iff.mpr ⟨pid, p, h.succeeded _ _ hp hsucc, hpo, hsucc⟩⟩

/-- As many settled orders are the same settled orders. -/
theorem settledOn_iff (h : Kept db db')
    (hcount : (db.settledOn day).length = (db'.settledOn day).length) (id : Id) :
    id ∈ (db.settledOn day).map Prod.fst ↔ id ∈ (db'.settledOn day).map Prod.fst := by
  have hsub : (db.settledOn day).map Prod.fst ⊆ (db'.settledOn day).map Prod.fst :=
    fun _ => h.settledOn
  have hperm := ((Db.nodup_settledOn day).subperm hsub).perm_of_length_le
    (by rw [List.length_map, List.length_map, hcount])
  exact hperm.mem_iff

/-- The same lines were sold. -/
theorem soldOn_eq (h : Kept db db')
    (hcount : (db.settledOn day).length = (db'.settledOn day).length) :
    db'.soldOn day = db.soldOn day := by
  have hsold : ∀ db : Db, ∀ i, (db.isOn day i && db.settled i) = true ↔
      i ∈ (db.settledOn day).map Prod.fst := by
    intro db i
    rw [Bool.and_eq_true, Db.mem_settledOn]
  obtain ⟨items, hitems, hnew⟩ := h.items
  have hnone : items.filter (fun i => db'.isOn day i.orderId && db'.settled i.orderId) = [] := by
    refine List.filter_eq_nil_iff.mpr fun i hi hset => ?_
    have hold := (h.settledOn_iff hcount _).mpr ((hsold db' i.orderId).mp hset)
    obtain ⟨o, ho, -⟩ := Db.isOn_iff.mp (Db.mem_settledOn.mp hold).1
    rw [hnew i hi] at ho
    cases ho
  rw [Db.soldOn, hitems, List.filter_append, hnone, List.append_nil]
  refine List.filter_congr fun i _ => ?_
  rw [Bool.eq_iff_iff, hsold, hsold, h.settledOn_iff hcount]

/-- The same payments took the money. -/
theorem takingsOn_perm (h : Kept db db') (hs' : Settled db')
    (hcount : (db.settledOn day).length = (db'.settledOn day).length) :
    (db.takingsOn day).Perm (db'.takingsOn day) := by
  have hnodup : ∀ db : Db, (db.takingsOn day).Nodup := fun db =>
    List.Nodup.of_map _ (Table.nodup_select _ _)
  refine (List.perm_ext_iff_of_nodup (hnodup db) (hnodup db')).mpr fun e => ?_
  rw [Db.mem_takingsOn, Db.mem_takingsOn]
  constructor
  · rintro ⟨hp, hsucc, hon⟩
    obtain ⟨o, ho, hday⟩ := Db.isOn_iff.mp hon
    obtain ⟨o', ho', hevolves⟩ := h.grows.orders _ o ho
    exact ⟨h.succeeded _ _ hp hsucc, hsucc,
      Db.isOn_iff.mpr ⟨o', ho', hevolves.businessDay.trans hday⟩⟩
  · rintro ⟨hp', hsucc, hon⟩
    have hset : db'.settled e.2.orderId = true := Db.settled_iff.mpr ⟨e.1, e.2, hp', rfl, hsucc⟩
    obtain ⟨hon', hset'⟩ := Db.mem_settledOn.mp
      ((h.settledOn_iff hcount _).mpr (Db.mem_settledOn.mpr ⟨hon, hset⟩))
    -- the payment that settled the order then is the one that settles it now
    obtain ⟨pid, p, hp, hpo, hsucc'⟩ := Db.settled_iff.mp hset'
    have hfrozen := h.succeeded _ _ hp hsucc'
    obtain rfl := hs'.once hfrozen hp' hpo hsucc' hsucc
    obtain rfl := Option.some.inj (hfrozen.symm.trans hp')
    exact ⟨hp, hsucc, hon'⟩

theorem revenue_perm (h : Kept db db') (hs' : Settled db')
    (hcount : (db.settledOn day).length = (db'.settledOn day).length) :
    (aggregateDay db day).revenueByMethod.Perm (aggregateDay db' day).revenueByMethod := by
  refine map_groupBy_perm (fun k rows rows' hrows => ?_) (h.takingsOn_perm hs' hcount)
  rw [(hrows.map fun e => e.2.amountMinor).sum_eq]

theorem items_eq (h : Kept db db')
    (hcount : (db.settledOn day).length = (db'.settledOn day).length) :
    (aggregateDay db' day).items = (aggregateDay db day).items := by
  rw [aggregateDay, aggregateDay]
  dsimp only
  rw [h.soldOn_eq hcount]

end Kept

/-! ## The law -/

/-- The rows are equal, their items as a multiset. -/
def RollupRow.SameSales (r r' : RollupRow) : Prop := r.SameTotals r' ∧ r.topItems.Perm r'.topItems

/-- **No silent correction.** Of the rows of a day in any state and in any later state,
`describeCorrection` says nothing if and only if they are equal. -/
theorem no_silent_correction {w w' : PosWorld} (hw : Reachable cfg w)
    (hr : Runs (system cfg) .all w w') (localeCompare : String → String → Ordering) (day : String)
    {parts parts' : RollupParts} (hparts : CouldReturn w.shared.db day parts)
    (hparts' : CouldReturn w'.shared.db day parts') :
    describeCorrection (buildRollupRow localeCompare day parts)
        (buildRollupRow localeCompare day parts') = none ↔
      (buildRollupRow localeCompare day parts).SameSales
        (buildRollupRow localeCompare day parts') := by
  have hkept := hw.kept hr
  have hs' : Settled w'.shared.db := (hw.extend hr).sound.inv.1
  rw [describeCorrection_eq_none]
  constructor
  · intro hsame
    have hcount : (w.shared.db.settledOn day).length = (w'.shared.db.settledOn day).length := by
      have hsettled : parts.ordersSettled = parts'.ordersSettled :=
        Int.ofNat_inj.mp (hsame .ordersSettled)
      rw [hparts.ordersSettled, hparts'.ordersSettled] at hsettled
      exact hsettled
    refine ⟨⟨rfl, Int.ofNat_inj.mp (hsame .ordersCompleted),
      Int.ofNat_inj.mp (hsame .ordersRefunded), Int.ofNat_inj.mp (hsame .ordersCancelled),
      Int.ofNat_inj.mp (hsame .ordersExpired), Int.ofNat_inj.mp (hsame .ordersSettled),
      hsame .revenueMinor, ?_, hsame .refundsMinor, hsame .vatMinor⟩, ?_⟩
    · exact get_bucketRevenue_perm (hparts.revenueByMethod.trans
        ((hkept.revenue_perm hs' hcount).trans hparts'.revenueByMethod.symm))
    · have hitems : parts.items.Perm parts'.items := by
        refine hparts.items.trans ?_
        rw [← hkept.items_eq hcount]
        exact hparts'.items.symm
      exact (List.mergeSort_perm _ _).trans (hitems.trans (List.mergeSort_perm _ _).symm)
  · rintro ⟨hsame, -⟩ field
    cases field with
    | ordersCompleted => exact congrArg Int.ofNat hsame.ordersCompleted
    | ordersRefunded => exact congrArg Int.ofNat hsame.ordersRefunded
    | ordersCancelled => exact congrArg Int.ofNat hsame.ordersCancelled
    | ordersExpired => exact congrArg Int.ofNat hsame.ordersExpired
    | ordersSettled => exact congrArg Int.ofNat hsame.ordersSettled
    | revenueMinor => exact hsame.revenueMinor
    | refundsMinor => exact hsame.refundsMinor
    | vatMinor => exact hsame.vatMinor

theorem CouldReturn.refl (db : Db) (day : String) : CouldReturn db day (aggregateDay db day) :=
  ⟨List.Perm.refl _, List.Perm.refl _, rfl, rfl, rfl, List.Perm.refl _⟩

/-- A latte is ordered and paid in cash on a day that was rolled up empty. -/
theorem no_silent_correction_latte : ∃ w, Reachable cornerCafe w ∧
    describeCorrection (buildRollupRow compare "2026-01-01" (aggregateDay .empty "2026-01-01"))
      (buildRollupRow compare "2026-01-01" (aggregateDay w.shared.db "2026-01-01")) ≠ none := by
  obtain ⟨w, hw, htotal⟩ := Reachable.exists_of_runIf cornerCafe (takeOrder ++ payCash 1 200)
    (fun w => w.shared.db.totalOn "2026-01-01" = 9000) (by decide)
  have hs : Settled w.shared.db := hw.sound.inv.1
  refine ⟨w, hw, fun hnone => ?_⟩
  have hsame := (no_silent_correction (w := opening) .refl hw compare "2026-01-01"
    (CouldReturn.refl _ _) (CouldReturn.refl _ _)).mp hnone
  have hrevenue := hsame.1.revenueMinor
  have hempty : (buildRollupRow compare "2026-01-01"
      (aggregateDay opening.shared.db "2026-01-01")).revenueMinor = 0 := by decide
  rw [hempty, hs.revenueMinor, htotal] at hrevenue
  exact absurd hrevenue (by decide)

end CafePos
