import CafePos.Soundness
import CafePos.Interleaving.Waiting

/-!
# The order in which rows are locked

Every transaction takes its rows in the rising order of `Row.rank`: first the idempotency key, then
what a payment newly inserts, then an order that is not paid for, then a payment that exists, the
counters and the index of live payments, then an order that has been paid for, then an event of the
inbox, and last a new order. A refund holds its payment when it takes its order, and `markPaid`
holds its order when it takes its payment: what keeps them apart is that the one order has been
paid for and the other has not, so the rank of an order depends on what is committed of it.

* `Climbs` — inside a transaction, each statement needs rows that are held or rank above those held;
* `Unlocked` — between transactions, a door holds nothing;
* `unlocked_program` — so does every call, from its start to its answer.
-/

namespace CafePos

open Interleaving

/-! ## Ranks -/

/-- A committed payment carries the key. -/
def Db.carriesKey (db : Db) (key : String) : Bool :=
  !(db.payments.select fun _ p => p.idempotencyKey == some key).isEmpty

/-- The place of a row in the order in which rows are locked. -/
def Row.rank (db : Db) : Row → ℕ
  | .key _ => 0
  | .payment id => if (db.payments.get id).isSome then 3 else 1
  | .paymentKey k => if db.carriesKey k then 3 else 1
  | .order id =>
    match db.orders.get id with
    | some o => if o.status.isSettled then 4 else 2
    | none => 6
  | .intent _ => 3
  | .livePayment _ => 3
  | .counter _ => 3
  | .event _ => 5

theorem Row.rank_le (db : Db) (x : Row) : x.rank db ≤ 6 := by
  cases x <;> simp only [rank] <;> (repeat' split) <;> omega

theorem Db.carriesKey_iff {db : Db} {key : String} :
    db.carriesKey key = true ↔
      ∃ id p, db.payments.get id = some p ∧ p.idempotencyKey = some key := by
  rw [carriesKey, Bool.not_eq_true', List.isEmpty_eq_false_iff_exists_mem]
  constructor
  · rintro ⟨⟨id, p⟩, h⟩
    obtain ⟨hp, hkey⟩ := Table.mem_select.mp h
    exact ⟨id, p, hp, beq_iff_eq.mp hkey⟩
  · rintro ⟨id, p, hp, hkey⟩
    exact ⟨(id, p), Table.mem_select.mpr ⟨hp, beq_iff_eq.mpr hkey⟩⟩

/-- A row that is left alone does not climb. -/
theorem Row.rank_of_keeps {db db' : Db} {x : Row} (h : x.Keeps db db') :
    x.rank db' ≤ x.rank db := by
  cases x with
  | order id =>
    have hget : db'.orders.get id = db.orders.get id := h
    rw [rank, rank, hget]
  | payment id => rw [rank, rank, h.1]
  | paymentKey k =>
    simp only [rank]
    cases hcarries : db.carriesKey k with
    | true => split <;> simp
    | false =>
      have hfree : db'.carriesKey k = false := by
        rw [Bool.eq_false_iff] at hcarries ⊢
        intro hbad
        obtain ⟨id, p, hp, hkey⟩ := Db.carriesKey_iff.mp hbad
        refine h (fun id p hp hk => ?_) id p hp hkey
        exact hcarries (Db.carriesKey_iff.mpr ⟨id, p, hp, hk⟩)
      simp [hfree]
  | intent | livePayment | event | key | counter => exact le_refl _

/-! ## What an operation waits for -/

/-- The rows an operation has to find free. -/
def Op.needs (inp : Input) (l : Sess) (s : Shared) : Op → List Row
  | .statement st =>
    if st.idUnused inp.fresh (l.view store s.db) then
      (st.effect inp.fresh inp.now (l.view store s.db)).needs store.rows
    else []
  | _ => []

/-- An id that no row has. -/
theorem exists_unused {V : Type} (t : Table Id V) : ∃ id, t.get id = none := by
  obtain ⟨id, hid⟩ := Infinite.exists_notMem_finset t.keys.toFinset
  refine ⟨id, AList.lookup_eq_none.mpr fun hmem => hid ?_⟩
  rw [List.mem_toFinset]
  exact hmem

theorem Statement.exists_idUnused (st : Statement) (db : Db) :
    ∃ fresh, st.idUnused fresh db = true := by
  cases st with
  | insertOrder row =>
    obtain ⟨id, hid⟩ := exists_unused db.orders
    exact ⟨id, Option.isNone_iff_eq_none.mpr hid⟩
  | insertPayment row =>
    obtain ⟨id, hid⟩ := exists_unused db.payments
    exact ⟨id, Option.isNone_iff_eq_none.mpr hid⟩
  | insertEvent providerEventId eventType payload =>
    obtain ⟨id, hid⟩ := exists_unused db.paymentEvents
    exact ⟨id, Option.isNone_iff_eq_none.mpr hid⟩
  | moveOrder | queueOrder | insertOrderItems | insertHistory | nextCounter | updatePayment
  | lockPayment | insertRefund | stampEvent | insertKey | updateKey => exact ⟨0, rfl⟩

/-- A statement waits for the rows it needs, and nothing else waits: Stripe may always fail to
answer. -/
def waits : Waits machine where
  needs o inp l s := o.needs inp l s
  supplied o l s := by
    cases o with
    | statement st =>
      obtain ⟨fresh, hfresh⟩ := st.exists_idUnused (l.view store s.db)
      refine ⟨{ fresh }, fun locked hfree => ?_⟩
      simp only [Op.needs, hfresh, if_true] at hfree
      have hnone :
          ((st.effect fresh 0 (l.view store s.db)).needs store.rows).any locked = false := by
        rw [List.any_eq_false]
        exact fun x hx => Bool.eq_false_iff.mp (hfree x hx)
      simp only [machine, exec, hfresh, if_true, Session.execute, hnone]
      cases l.active with
      | true => exact ⟨_, rfl⟩
      | false =>
        cases (st.effect fresh 0 (l.view store s.db)).writes with
        | nil => exact ⟨_, rfl⟩
        | cons w ws => exact ⟨_, rfl⟩
    | stripeCreate request => exact ⟨{ reachable := false }, fun _ _ => ⟨_, rfl⟩⟩
    | now | begin | commit | rollback | query | menuItems | deviceStatus | stripeCancel
    | stripeRetrieve | publish => exact ⟨{}, fun _ _ => ⟨_, rfl⟩⟩

/-- The rank of a row in a state. -/
def Shared.rank (s : Shared) (x : Row) : ℕ := x.rank s.db

/-- An operation that needs no row. -/
theorem rising_of_needs {o : Op} {l : Sess} {s : Shared} (h : ∀ inp, o.needs inp l s = []) :
    Rising waits Shared.rank o l s := by
  intro inp x hx
  rw [show waits.needs o inp l s = [] from h inp] at hx
  cases hx

/-! ## Doors whose statements climb -/

variable {cfg : Config}

/-- A transaction is open, all it holds ranks below `a`, and it holds `R`. -/
structure Under (a : ℕ) (R : List Row) (l : Sess) (s : Shared) : Prop where
  active : l.active = true
  below : ∀ x ∈ l.held, s.rank x < a
  holds : ∀ x ∈ R, x ∈ l.held

/-- The states in which the next operation may find itself. -/
abbrev Later (cfg : Config) (l : Sess) (s s₁ : Shared) : Prop := (Context.plain cfg).After l s s₁

theorem Under.after {a : ℕ} {R : List Row} {l : Sess} {s s₁ : Shared} (h : Under a R l s)
    (hs : Later cfg l s s₁) : Under a R l s₁ :=
  ⟨h.active, fun x hx => (Row.rank_of_keeps (hs.keeps x hx)).trans_lt (h.below x hx), h.holds⟩

/-- A weaker position. -/
theorem Under.mono {a b : ℕ} {R R' : List Row} {l : Sess} {s : Shared} (h : Under a R l s)
    (hab : a ≤ b) (hR : R' ⊆ R) : Under b R' l s :=
  ⟨h.active, fun x hx => (h.below x hx).trans_le hab, fun x hx => h.holds x (hR hx)⟩

/-- Every statement of the door climbs; it returns into `Q` or throws into `E`. -/
def ClimbsTo {α : Type} (cfg : Config) (m : Door α) (Q : α → Sess → Shared → Prop)
    (E : Sess → Shared → Prop) (l : Sess) (s : Shared) : Prop :=
  (Context.plain cfg).spec.asserts machine (Rising waits Shared.rank) (fun r l s => match r with
    | .ok a => Q a l s
    | .error _ => E l s) m.run l s

/-- Inside a transaction, from `A`: every statement climbs, and the door returns into `B` or
throws. -/
def Climbs {α : Type} (cfg : Config) (A : Sess → Shared → Prop) (m : Door α)
    (B : α → Sess → Shared → Prop) : Prop :=
  ∀ l s, A l s → ClimbsTo cfg m B (fun _ _ => True) l s

/-- What is known if a row has been found. -/
abbrev IfFound {α : Type} (A : Sess → Shared → Prop) : Option α → Sess → Shared → Prop
  | some _ => A
  | none => fun _ _ => True

/-- What is known of an answer, unless it is an error. -/
abbrev IfAnswered {α : Type} (B : α → Sess → Shared → Prop) :
    Except SqlState α → Sess → Shared → Prop
  | .ok a => B a
  | .error _ => fun _ _ => True

/-- The operation is a look at something: neither a statement nor a part of a transaction. -/
def Op.looks : Op → Bool
  | .begin => false
  | .commit => false
  | .rollback => false
  | .statement _ => false
  | .publish _ => false
  | _ => true

/-- The door only looks, whatever it sees. -/
def Looks {α : Type} (m : Door α) : Prop := m.run.Only fun o => o.looks = true

/-- A look leaves the session alone. -/
theorem session_of_looks {o : Op} (ho : o.looks = true) {inp : Input} {locked : Row → Bool}
    {l l' : Sess} {s s' : Shared} {r : o.Res} (hx : exec inp locked l s o = some (r, l', s')) :
    l' = l ∧ s'.db = s.db := by
  cases o with
  | begin | commit | rollback | statement | publish => cases ho
  | stripeCreate request =>
    obtain ⟨r', -, hr'⟩ := Option.map_eq_some_iff.mp hx
    obtain ⟨-, rfl, rfl⟩ := Prod.mk.inj hr' |>.imp_right Prod.mk.inj
    exact ⟨rfl, rfl⟩
  | now | query | menuItems | deviceStatus | stripeCancel | stripeRetrieve =>
    obtain ⟨-, rfl, rfl⟩ := Option.some.inj hx |> Prod.mk.inj |>.imp_right Prod.mk.inj
    exact ⟨rfl, rfl⟩

theorem rising_of_looks {o : Op} (ho : o.looks = true) (l : Sess) (s : Shared) :
    Rising waits Shared.rank o l s := by
  refine rising_of_needs fun inp => ?_
  cases o with
  | statement => cases ho
  | _ => rfl

namespace Looks

variable {α β : Type}

theorem pure (a : α) : Looks (Pure.pure a : Door α) := trivial

theorem throw (e : Err) : Looks (MonadExcept.throw e : Door α) := trivial

theorem bind {m : Door β} {f : β → Door α} (hm : Looks m) (hf : ∀ b, Looks (f b)) :
    Looks (m >>= f) := by
  refine Prog.Only.bind hm fun r => ?_
  cases r with
  | ok b => exact hf b
  | error e => trivial

theorem tryCatch {m : Door α} {handle : Err → Door α} (hm : Looks m)
    (hf : ∀ e, Looks (handle e)) : Looks (MonadExcept.tryCatch m handle) := by
  refine Prog.Only.bind hm fun r => ?_
  cases r with
  | ok b => trivial
  | error e => exact hf e

theorem perform {o : Op} (h : o.looks = true) : Looks (Door.perform o) := ⟨h, fun _ => trivial⟩

theorem select (q : Query) : Looks (Door.select q) := perform rfl

theorem selectTx (q : Query) : Looks (Door.selectTx q) := perform rfl

end Looks

namespace Climbs

variable {α β : Type} {A : Sess → Shared → Prop} {B : α → Sess → Shared → Prop} {a b : ℕ}
  {R : List Row}

theorem pure {x : α} (h : ∀ l s, A l s → B x l s) : Climbs cfg A (Pure.pure x) B := h

theorem throw {e : Err} : Climbs cfg A (MonadExcept.throw e : Door α) B := fun _ _ _ => trivial

theorem bind {m : Door β} {f : β → Door α} {C : β → Sess → Shared → Prop} (hm : Climbs cfg A m C)
    (hf : ∀ b, Climbs cfg (C b) (f b) B) : Climbs cfg A (m >>= f) B := by
  intro l s hA
  refine Spec.asserts_bind (Spec.asserts_mono (fun r l' s' hr => ?_) (hm l s hA))
  cases r with
  | ok b => exact hf b l' s' hr
  | error e => trivial

/-- What a look does not change. -/
theorem looks {m : Door α} (hm : Looks m) : Climbs cfg (Under a R) m fun _ => Under a R := by
  intro l s h
  refine Spec.asserts_mono (Q := fun _ => Under a R) (fun r _ _ hr => ?_)
    (Spec.asserts_of_only (fun o l s s₁ ho hl hs₁ =>
      ⟨rising_of_looks ho l s₁, fun inp locked r l' s₂ hx => ?_⟩) hm h)
  · cases r with
    | ok _ => exact hr
    | error _ => trivial
  · obtain ⟨rfl, hdb⟩ := session_of_looks ho hx
    have h₁ := hl.after hs₁
    refine ⟨h₁.active, fun x hx => ?_, h₁.holds⟩
    rw [Shared.rank, hdb]
    exact h₁.below x hx

/-- An error handled by looks that end in an error again. -/
theorem tryCatch {m : Door α} {handle : Err → Door α} (hm : Climbs cfg A m B)
    (hf : ∀ e l s, ClimbsTo cfg (handle e) B (fun _ _ => True) l s) :
    Climbs cfg A (MonadExcept.tryCatch m handle) B := by
  intro l s hA
  refine Spec.asserts_bind (Spec.asserts_mono (fun r l' s' hr => ?_) (hm l s hA))
  cases r with
  | ok b => exact hr
  | error e => exact hf e l' s'

theorem raising {m : Door (Except SqlState α)} (hm : Climbs cfg A m (IfAnswered B)) :
    Climbs cfg A (Door.raising m) B := by
  refine hm.bind fun r => ?_
  cases r with
  | ok x => exact pure fun _ _ h => h
  | error state => exact throw

/-- A statement that may raise, and leads to one position anyway. -/
theorem raises {m : Door (Except SqlState α)} {C : Sess → Shared → Prop}
    (hm : Climbs cfg A m fun _ => C) : Climbs cfg A (Door.raising m) fun _ => C := by
  refine hm.bind fun r => ?_
  cases r with
  | ok x => exact pure fun _ _ h => h
  | error state => exact throw

/-- A statement: the rows it needs are held, or rank from `a` on and below `b`. -/
theorem statement {st : Statement} {B : st.Answer → Sess → Shared → Prop} (hab : a ≤ b)
    (h : ∀ l s (inp : Input), Under a R l s → st.idUnused inp.fresh (l.view store s.db) = true →
      ∀ x ∈ (st.effect inp.fresh inp.now (l.view store s.db)).needs store.rows,
        x ∈ l.held ∨ a ≤ s.rank x ∧ s.rank x < b)
    (hB : ∀ fresh now view l' s', Under b R l' s' →
      (∀ x ∈ (st.effect fresh now view).needs store.rows, x ∈ l'.held) →
      B (st.effect fresh now view).answer l' s') :
    Climbs cfg (Under a R) (Door.statement st) B := by
  intro l s hl s₁ hs₁
  have hl₁ := hl.after hs₁
  refine ⟨fun inp x hx => ?_, fun inp locked r l' s₂ hx => ?_⟩
  · have hx' : x ∈ Op.needs inp l s₁ (.statement st) := hx
    simp only [Op.needs] at hx'
    split at hx'
    · rename_i hunused
      rcases h l s₁ inp hl₁ hunused x hx' with hheld | ⟨hge, -⟩
      · exact Or.inl hheld
      · exact Or.inr fun y hy => (hl₁.below y hy).trans_le hge
    · cases hx'
  · have hx' : exec inp locked l s₁ (.statement st) = some (r, l', s₂) := hx
    simp only [exec] at hx'
    split at hx'
    · rename_i hunused
      obtain ⟨r', hr, hr'⟩ := Option.map_eq_some_iff.mp hx'
      simp only [Session.execute, hl.active, if_true] at hr
      split at hr
      · cases hr
      · obtain rfl := Option.some.inj hr
        obtain ⟨rfl, rfl, rfl⟩ := Prod.mk.inj hr' |>.imp_right Prod.mk.inj
        refine hB _ _ _ _ _ ⟨rfl, fun x hx => ?_, fun x hx => ?_⟩ fun x hx =>
          List.mem_append_right _ hx
        · rcases List.mem_append.mp hx with hx | hx
          · exact (hl₁.below x hx).trans_le hab
          · rcases h l s₁ inp hl₁ hunused x hx with hheld | ⟨-, hlt⟩
            · exact (hl₁.below x hheld).trans_le hab
            · exact hlt
        · exact List.mem_append_left _ (hl.holds x hx)
    · cases hx'

/-- A statement on rows that are held. -/
theorem owned {st : Statement} (h : ∀ fresh now view,
    ∀ x ∈ (st.effect fresh now view).needs store.rows, x ∈ R) :
    Climbs cfg (Under a R) (Door.statement st) fun _ => Under a R :=
  statement (le_refl a) (fun _ _ _ hl _ x hx => Or.inl (hl.holds x (h _ _ _ x hx)))
    fun _ _ _ _ _ hl _ => hl

end Climbs

/-! ## The statements -/

/-- A row that is not held looks as it is. -/
theorem view_keeps {l : Sess} {x : Row} (hx : x ∉ l.held) (db : Db) :
    x.Keeps db (l.view store db) :=
  store.applyAll_keeps (fun w hw hr => hx (l.covered w hw x hr)) db

/-- A statement that writes nothing and locks nothing needs nothing. -/
theorem needs_nothing {α : Type} {a : α} {x : Row}
    (hx : x ∈ (⟨a, [], []⟩ : Effect Write Row α).needs store.rows) {p : Prop} : p :=
  absurd hx List.not_mem_nil

/-- The rows of a payment's image. -/
theorem mem_payment_rows {id : Id} {row : Payment} {x : Row}
    (h : x ∈ Write.rows (.payment id row)) : x = .payment id ∨
      (∃ i, row.providerIntentId = some i ∧ x = .intent i) ∨
      (∃ k, row.idempotencyKey = some k ∧ x = .paymentKey k) ∨
      row.status.isLive = true ∧ x = .livePayment row.orderId := by
  simp only [Write.rows, List.cons_append, List.mem_cons, List.mem_append, Option.mem_toList,
    Option.map_eq_some_iff] at h
  rcases h with rfl | (⟨i, hi, rfl⟩ | ⟨k, hk, rfl⟩) | h
  · exact Or.inl rfl
  · exact Or.inr (Or.inl ⟨i, hi, rfl⟩)
  · exact Or.inr (Or.inr (Or.inl ⟨k, hk, rfl⟩))
  · split at h
    · rename_i hlive
      exact Or.inr (Or.inr (Or.inr ⟨hlive, List.mem_singleton.mp h⟩))
    · cases h

/-- A payment that looks new is new. -/
theorem rank_new {l : Sess} {s : Shared} {id : Id}
    (hview : (l.view store s.db).payments.get id = none) (hheld : .payment id ∉ l.held) :
    s.rank (.payment id) = 1 := by
  have hnone : s.db.payments.get id = none := by
    rw [← hview]
    exact (view_keeps hheld s.db).1.symm
  simp only [Shared.rank, Row.rank, hnone, Option.isSome_none, Bool.false_eq_true, if_false]

/-- A key that looks free is free, where no committed payment is held. -/
theorem Under.rank_newKey {a : ℕ} {R : List Row} {l : Sess} {s : Shared} (h : Under a R l s)
    (ha : a ≤ 3) {row : Payment} {k : String} (hk : row.idempotencyKey = some k)
    (hview : Statement.paymentConflicts (l.view store s.db) row = false) :
    s.rank (.paymentKey k) = 1 := by
  have hfree : s.db.carriesKey k = false := by
    rw [Bool.eq_false_iff]
    intro hcarries
    obtain ⟨id, p, hp, hpk⟩ := Db.carriesKey_iff.mp hcarries
    have hheld : .payment id ∉ l.held := by
      intro hheld
      have hbelow := h.below _ hheld
      simp only [Shared.rank, Row.rank, hp, Option.isSome_some, if_true] at hbelow
      omega
    have hget : (l.view store s.db).payments.get id = some p :=
      (view_keeps hheld s.db).1.trans hp
    rw [Statement.paymentConflicts, Bool.not_eq_false', List.isEmpty_iff,
      Table.select_eq_nil] at hview
    have hnone := hview id p hget
    simp [hk, hpk] at hnone
  simp only [Shared.rank, Row.rank, hfree, Bool.false_eq_true, if_false]

/-- A payment that is there ranks as one, and so does its key. -/
theorem rank_payment {l : Sess} {s : Shared} {id : Id} {p : Payment}
    (hp : (l.view store s.db).payments.get id = some p) :
    (.payment id ∉ l.held → s.rank (.payment id) = 3) ∧
      ∀ k, p.idempotencyKey = some k → .paymentKey k ∉ l.held → s.rank (.paymentKey k) = 3 := by
  refine ⟨fun hheld => ?_, fun k hk hheld => ?_⟩
  · have hget : s.db.payments.get id = some p := (view_keeps hheld s.db).1.symm.trans hp
    simp only [Shared.rank, Row.rank, hget, Option.isSome_some, if_true]
  · have hcarries : s.db.carriesKey k = true := by
      by_contra hfree
      refine view_keeps hheld s.db (fun id' p' hp' hk' => ?_) id p hp hk
      exact hfree (Db.carriesKey_iff.mpr ⟨id', p', hp', hk'⟩)
    simp only [Shared.rank, Row.rank, hcarries, if_true]

/-- The place of an order that is moved away from a status. -/
def OrderStatus.lockRank (source : OrderStatus) : ℕ := if source.isSettled then 4 else 2

namespace Climbs

variable {a : ℕ} {R : List Row}

theorem insertKey (key requestHash : String) (expiresAt : Instant) :
    Climbs cfg (Under 0 R) (Door.statement (.insertKey key requestHash expiresAt))
      (IfAnswered fun _ => Under 1 (.key key :: R)) := by
  refine statement (Nat.zero_le 1) (fun l s inp _ _ x hx => ?_)
    fun fresh now view l' s' hl hneeds => ?_
  · simp only [Statement.effect] at hx
    split at hx
    · exact needs_nothing hx
    · obtain rfl := List.mem_singleton.mp hx
      exact Or.inr ⟨Nat.zero_le _, Nat.zero_lt_one⟩
  · simp only [Statement.effect] at hneeds ⊢
    split
    · trivial
    · rename_i hnone
      rw [hnone] at hneeds
      exact ⟨hl.active, hl.below, List.forall_mem_cons.mpr
        ⟨hneeds _ (List.mem_singleton_self _), hl.holds⟩⟩

theorem updateKey {key : String} (h : .key key ∈ R) (status : ℕ) (body : ResponseBody) :
    Climbs cfg (Under a R) (Door.statement (.updateKey key status body)) fun _ => Under a R := by
  refine owned fun fresh now view x hx => ?_
  simp only [Statement.effect] at hx
  split at hx
  · obtain rfl := List.mem_singleton.mp hx
    exact h
  · exact needs_nothing hx

theorem nextCounter (ha : a ≤ 3) (businessDay : String) :
    Climbs cfg (Under a R) (Door.statement (.nextCounter businessDay)) fun _ => Under 4 R := by
  refine statement (b := 4) (by omega) (fun l s inp _ _ x hx => ?_) fun _ _ _ _ _ hl _ => hl
  obtain rfl := List.mem_singleton.mp hx
  exact Or.inr ⟨ha, Nat.lt_succ_self 3⟩

theorem insertOrder (ha : a ≤ 6) (row : Order) :
    Climbs cfg (Under a R) (Door.statement (.insertOrder row))
      (IfAnswered fun id => Under 7 (.order id :: R)) := by
  refine statement (b := 7) (by omega) (fun l s inp hl hunused x hx => ?_)
    fun fresh now view l' s' hl hneeds => ?_
  · simp only [Statement.effect] at hx
    split at hx
    · exact needs_nothing hx
    · split at hx
      · exact needs_nothing hx
      · obtain rfl := List.mem_singleton.mp hx
        by_cases hheld : .order inp.fresh ∈ l.held
        · exact Or.inl hheld
        · have hkept : (l.view store s.db).orders.get inp.fresh = s.db.orders.get inp.fresh :=
            view_keeps hheld s.db
          have hnone : s.db.orders.get inp.fresh = none := by
            rw [← hkept]
            exact Option.isNone_iff_eq_none.mp hunused
          refine Or.inr ?_
          simp only [Shared.rank, Row.rank, hnone]
          omega
  · simp only [Statement.effect] at hneeds ⊢
    split
    · trivial
    · rename_i hfits
      rw [if_neg hfits] at hneeds
      split
      · trivial
      · rename_i hnumber
        rw [if_neg hnumber] at hneeds
        exact ⟨hl.active, hl.below, List.forall_mem_cons.mpr
          ⟨hneeds _ (List.mem_singleton_self _), hl.holds⟩⟩

theorem insertOrderItems {id : Id} {rows : List OrderItem} (h : .order id ∈ R)
    (hrows : ∀ i ∈ rows, i.orderId = id) :
    Climbs cfg (Under a R) (Door.statement (.insertOrderItems rows)) fun _ => Under a R := by
  refine owned fun fresh now view x hx => ?_
  simp only [Statement.effect] at hx
  split at hx
  · exact needs_nothing hx
  · split at hx
    · exact needs_nothing hx
    · obtain ⟨w, hw, hx⟩ := List.mem_flatMap.mp hx
      obtain ⟨i, hi, rfl⟩ := List.mem_map.mp hw
      obtain rfl := List.mem_singleton.mp hx
      rw [hrows i hi]
      exact h

theorem insertHistory {row : HistoryRow} (h : .order row.orderId ∈ R) :
    Climbs cfg (Under a R) (Door.statement (.insertHistory row)) fun _ => Under a R := by
  refine owned fun fresh now view x hx => ?_
  obtain rfl := List.mem_singleton.mp hx
  exact h

theorem queueOrder {id : Id} (h : .order id ∈ R) (orderNumber : String) (expiresAt : Instant) :
    Climbs cfg (Under a R) (Door.statement (.queueOrder id orderNumber expiresAt))
      fun _ => Under a R := by
  refine owned fun fresh now view x hx => ?_
  simp only [Statement.effect] at hx
  split at hx
  · split at hx
    · exact needs_nothing hx
    · obtain rfl := List.mem_singleton.mp hx
      exact h
  · exact needs_nothing hx

/-- A move finds the order in the status it starts from, unless the transaction holds the order. -/
theorem moveOrder {source : OrderStatus} (ha : a ≤ source.lockRank) (id : Id)
    (target : OrderStatus) :
    Climbs cfg (Under a R) (Door.statement (.moveOrder id source target))
      (IfFound (Under (source.lockRank + 1) (.order id :: R))) := by
  refine statement (b := source.lockRank + 1) (by omega) (fun l s inp hl _ x hx => ?_)
    fun fresh now view l' s' hl hneeds => ?_
  · simp only [Statement.effect] at hx
    split at hx
    · rename_i row hrow
      split at hx
      · rename_i hsource
        obtain rfl := List.mem_singleton.mp hx
        by_cases hheld : .order id ∈ l.held
        · exact Or.inl hheld
        · have hkept : (l.view store s.db).orders.get id = s.db.orders.get id :=
            view_keeps hheld s.db
          have hrank : s.rank (.order id) = source.lockRank := by
            rw [hkept] at hrow
            simp only [Shared.rank, Row.rank, hrow, hsource, OrderStatus.lockRank]
          exact Or.inr ⟨hrank.symm ▸ ha, hrank.trans_lt (Nat.lt_succ_self _)⟩
      · exact needs_nothing hx
    · exact needs_nothing hx
  · simp only [Statement.effect] at hneeds ⊢
    split
    · rename_i row hrow
      simp only [hrow] at hneeds
      split
      · rename_i hsource
        rw [if_pos hsource] at hneeds
        exact ⟨hl.active, hl.below, List.forall_mem_cons.mpr
          ⟨hneeds _ (List.mem_singleton_self _), hl.holds⟩⟩
      · trivial
    · trivial

/-- A new payment: it and its key are new, and at worst an intent and the index of live payments
come with it. -/
theorem insertPayment (ha : a ≤ 1) (row : Payment) {b : ℕ} (hb : 2 ≤ b)
    (hlive : row.status.isLive = true ∨ row.providerIntentId.isSome = true → 4 ≤ b) :
    Climbs cfg (Under a R) (Door.statement (.insertPayment row))
      (IfAnswered fun _ => Under b R) := by
  refine statement (b := b) (by omega) (fun l s inp hl hunused x hx => ?_)
    fun fresh now view l' s' hl _ => ?_
  · simp only [Statement.effect] at hx
    split at hx
    · exact needs_nothing hx
    · split at hx
      · exact needs_nothing hx
      · split at hx
        · exact needs_nothing hx
        · rename_i hconflict
          obtain ⟨w, hw, hx⟩ := List.mem_flatMap.mp hx
          obtain rfl := List.mem_singleton.mp hw
          rcases mem_payment_rows hx with rfl | ⟨i, hi, rfl⟩ | ⟨k, hk, rfl⟩ | ⟨hl, rfl⟩
          · by_cases hheld : .payment inp.fresh ∈ l.held
            · exact Or.inl hheld
            · have hrank := rank_new (Option.isNone_iff_eq_none.mp hunused) hheld
              exact Or.inr (by omega)
          · have hb4 := hlive (Or.inr (by simp [hi]))
            exact Or.inr ⟨ha.trans (by decide : 1 ≤ 3), Nat.lt_of_lt_of_le (Nat.lt_succ_self 3) hb4⟩
          · have hrank := hl.rank_newKey (by omega) hk (Bool.not_eq_true _ |>.mp hconflict)
            exact Or.inr (by omega)
          · have hb4 := hlive (Or.inl hl)
            exact Or.inr ⟨ha.trans (by decide : 1 ≤ 3), Nat.lt_of_lt_of_le (Nat.lt_succ_self 3) hb4⟩
  · simp only [Statement.effect]
    split
    · trivial
    · split
      · trivial
      · split
        · trivial
        · exact hl

theorem updatePayment (ha : a ≤ 3) (id : Id) (status : PaymentStatus)
    (method : Option PaymentMethod) (guarded : Bool) :
    Climbs cfg (Under a R) (Door.statement (.updatePayment id status method guarded))
      fun _ => Under 4 R := by
  refine statement (b := 4) (by omega) (fun l s inp hl _ x hx => ?_) fun _ _ _ _ _ hl _ => hl
  have hthree : ∀ {y : Row}, s.rank y = 3 → y ∈ l.held ∨ a ≤ s.rank y ∧ s.rank y < 4 :=
    fun hy => Or.inr (by omega)
  simp only [Statement.effect] at hx
  split at hx
  · rename_i row hrow
    split at hx
    · exact needs_nothing hx
    · obtain ⟨hpayment, hkey⟩ := rank_payment hrow
      rcases List.mem_append.mp hx with hx | hx
      · dsimp only at hx
        split at hx
        · obtain rfl := List.mem_singleton.mp hx
          exact hthree rfl
        · cases hx
      · obtain ⟨w, hw, hx⟩ := List.mem_flatMap.mp hx
        obtain rfl := List.mem_singleton.mp hw
        rcases mem_payment_rows hx with rfl | ⟨i, -, rfl⟩ | ⟨k, hk, rfl⟩ | ⟨-, rfl⟩
        · by_cases hheld : .payment id ∈ l.held
          · exact Or.inl hheld
          · exact hthree (hpayment hheld)
        · exact hthree rfl
        · by_cases hheld : .paymentKey k ∈ l.held
          · exact Or.inl hheld
          · exact hthree (hkey k hk hheld)
        · exact hthree rfl
  · exact needs_nothing hx

theorem lockPayment (id : Id) :
    Climbs cfg (Under 0 R) (Door.statement (.lockPayment id))
      fun _ => Under 4 (.payment id :: R) := by
  refine statement (b := 4) (Nat.zero_le 4) (fun l s inp _ _ x hx => ?_)
    fun fresh now view l' s' hl hneeds => ?_
  · obtain rfl := List.mem_singleton.mp hx
    refine Or.inr ⟨Nat.zero_le _, ?_⟩
    simp only [Shared.rank, Row.rank]
    split <;> omega
  · exact ⟨hl.active, hl.below, List.forall_mem_cons.mpr
      ⟨hneeds _ (List.mem_singleton_self _), hl.holds⟩⟩

theorem insertRefund {id : Id} (h : .payment id ∈ R) (amountMinor : ℤ) (reason : String)
    (initiatedByUserId : Id) :
    Climbs cfg (Under a R) (Door.statement (.insertRefund id amountMinor reason initiatedByUserId))
      fun _ => Under a R := by
  refine owned fun fresh now view x hx => ?_
  simp only [Statement.effect] at hx
  split at hx
  · exact needs_nothing hx
  · split at hx
    · exact needs_nothing hx
    · obtain rfl := List.mem_singleton.mp hx
      exact h

theorem stampEvent (ha : a ≤ 5) (id : Id) (paymentId : Option Id) :
    Climbs cfg (Under a R) (Door.statement (.stampEvent id paymentId)) fun _ => Under 6 R := by
  refine statement (b := 6) (by omega) (fun l s inp _ _ x hx => ?_) fun _ _ _ _ _ hl _ => hl
  simp only [Statement.effect] at hx
  split at hx
  · split at hx
    · obtain rfl := List.mem_singleton.mp hx
      exact Or.inr ⟨ha, Nat.lt_succ_self 5⟩
    · exact needs_nothing hx
  · exact needs_nothing hx

end Climbs

end CafePos
