import CafePos.PaymentKeys

/-!
# What a stored key stands for

A fingerprint is taken over the request and a *scope*: who asked, and for a payment the order
that was asked about. `hashRequest` writes the length of the scope before the scope, so two
requests with one fingerprint have one scope, as long as SHA-256 does not collide
(`HashesApart`). Then a key that matches a payment request was stored by a request of
the same principal about the same order, which that principal was allowed to pay for.
-/

namespace CafePos

open Interleaving

variable {cfg : Config}

/-! ## Scopes -/

/-- The scope of a payment request. -/
def paymentScope (principal : Principal) (orderId : Id) : String :=
  scopeOf principal ++ ":payments:" ++ toString orderId

/-- `scope.length`: JavaScript counts UTF-16 code units. -/
def utf16Length (s : List Char) : ℕ := (s.map fun c => if c.toNat < 0x10000 then 1 else 2).sum

/-- What `hashRequest` digests: the scope after its length, and the body as JSON with sorted
keys. -/
def hashedText (canonicalize : RequestBody → String) (scope : String) (body : RequestBody) :
    String :=
  toString (utf16Length scope.toList) ++ ":" ++ scope ++ canonicalize body

/-- Fingerprints are SHA-256 digests of that text, and no two texts have one digest. -/
def Config.HashesApart (cfg : Config) : Prop :=
  ∃ (sha256 : String → String) (canonicalize : RequestBody → String),
    Function.Injective sha256 ∧
    ∀ scope body, cfg.hashRequest scope body = sha256 (hashedText canonicalize scope body)

theorem colon_notMem_toString (n : ℕ) : ':' ∉ (toString n).toList := by
  intro h
  have hdigit : Char.isDigit ':' = true := by
    refine Nat.isDigit_of_mem_toDigits (b := 10) (n := n) (by decide) (by decide) ?_
    simpa [toString, Nat.repr] using h
  exact absurd hdigit (by decide)

theorem count_colon_scopeOf (principal : Principal) :
    (scopeOf principal).toList.count ':' = 1 := by
  cases principal with
  | device deviceId | staff userId =>
    simp only [scopeOf, String.toList_append, List.count_append,
      List.count_eq_zero.mpr (colon_notMem_toString _)]
    decide

theorem count_colon_paymentScope (principal : Principal) (orderId : Id) :
    (paymentScope principal orderId).toList.count ':' = 3 := by
  simp only [paymentScope, String.toList_append, List.count_append, count_colon_scopeOf,
    List.count_eq_zero.mpr (colon_notMem_toString _)]
  decide

/-- A list is cut at its first colon in one way. -/
theorem cons_colon_inj {xs ys ds es : List Char} (hd : ':' ∉ ds) (he : ':' ∉ es)
    (h : ds ++ ':' :: xs = es ++ ':' :: ys) : ds = es ∧ xs = ys := by
  have hcut : ∀ {as xs ys : List Char}, ':' ∉ as → ':' :: xs = as ++ ':' :: ys → as = [] := by
    intro as xs ys has h
    cases as with
    | nil => rfl
    | cons c as =>
      obtain ⟨rfl, -⟩ := List.cons.inj h
      exact absurd (List.mem_cons_self ..) has
  rcases List.append_eq_append_iff.mp h with ⟨as, rfl, has⟩ | ⟨bs, rfl, hbs⟩
  · obtain rfl := hcut (fun hmem => he (List.mem_append_right _ hmem)) has
    exact ⟨(List.append_nil _).symm, (List.cons.inj has).2⟩
  · obtain rfl := hcut (fun hmem => hd (List.mem_append_right _ hmem)) hbs
    exact ⟨List.append_nil _, (List.cons.inj hbs).2.symm⟩

/-- A list is cut at its last colon in one way. -/
theorem append_colon_inj {xs ys ds es : List Char} (hd : ':' ∉ ds) (he : ':' ∉ es)
    (h : xs ++ ':' :: ds = ys ++ ':' :: es) : xs = ys ∧ ds = es := by
  have hrev : ds.reverse ++ ':' :: xs.reverse = es.reverse ++ ':' :: ys.reverse := by
    simpa using congrArg List.reverse h
  obtain ⟨hds, hxs⟩ := cons_colon_inj (fun hm => hd (List.mem_reverse.mp hm))
    (fun hm => he (List.mem_reverse.mp hm)) hrev
  exact ⟨List.reverse_inj.mp hxs, List.reverse_inj.mp hds⟩

/-- Two beginnings of one text that have one length are the same. -/
theorem utf16Length_append_inj {xs ys bs cs : List Char} (h : xs ++ bs = ys ++ cs)
    (hlen : utf16Length xs = utf16Length ys) : xs = ys := by
  have hzero : ∀ {xs as : List Char}, utf16Length (xs ++ as) = utf16Length xs → as = [] := by
    intro xs as h
    cases as with
    | nil => rfl
    | cons c as =>
      simp only [utf16Length, List.map_append, List.map_cons, List.sum_append, List.sum_cons] at h
      split at h <;> omega
  rcases List.append_eq_append_iff.mp h with ⟨as, rfl, -⟩ | ⟨as, rfl, -⟩
  · rw [hzero hlen.symm, List.append_nil]
  · rw [hzero hlen, List.append_nil]

theorem toString_toList_inj {m n : ℕ} (h : (toString m).toList = (toString n).toList) : m = n :=
  Nat.repr_inj.mp (String.toList_inj.mp h)

/-- The scope names who asked. -/
theorem scopeOf_inj {p p' : Principal} (h : scopeOf p = scopeOf p') : p = p' := by
  have hlist := congrArg String.toList h
  cases p with
  | device d =>
    cases p' with
    | device d' =>
      simp only [scopeOf, String.toList_append] at hlist
      exact congrArg _ (toString_toList_inj (List.append_cancel_left hlist))
    | staff u => simp [scopeOf] at hlist
  | staff u =>
    cases p' with
    | device d => simp [scopeOf] at hlist
    | staff u' =>
      simp only [scopeOf, String.toList_append] at hlist
      exact congrArg _ (toString_toList_inj (List.append_cancel_left hlist))

theorem paymentScope_inj {p p' : Principal} {orderId orderId' : Id}
    (h : paymentScope p orderId = paymentScope p' orderId') : p = p' ∧ orderId = orderId' := by
  have hlist : (scopeOf p ++ ":payments").toList ++ ':' :: (toString orderId).toList =
      (scopeOf p' ++ ":payments").toList ++ ':' :: (toString orderId').toList := by
    simpa [paymentScope] using congrArg String.toList h
  obtain ⟨hscope, hid⟩ := append_colon_inj (colon_notMem_toString _) (colon_notMem_toString _) hlist
  rw [String.toList_append, String.toList_append] at hscope
  exact ⟨scopeOf_inj (String.toList_inj.mp (List.append_cancel_right hscope)),
    toString_toList_inj hid⟩

/-! ## Fingerprints -/

/-- Requests with one fingerprint have one scope. -/
theorem Config.HashesApart.scope {scope scope' : String} {body body' : RequestBody}
    (hcfg : cfg.HashesApart) (h : cfg.hashRequest scope body = cfg.hashRequest scope' body') :
    scope = scope' := by
  obtain ⟨sha256, canonicalize, hinj, hhash⟩ := hcfg
  rw [hhash, hhash] at h
  have hlist : (toString (utf16Length scope.toList)).toList ++
        ':' :: (scope.toList ++ (canonicalize body).toList) =
      (toString (utf16Length scope'.toList)).toList ++
        ':' :: (scope'.toList ++ (canonicalize body').toList) := by
    simpa [hashedText] using congrArg String.toList (hinj h)
  obtain ⟨hlen, htext⟩ := cons_colon_inj (colon_notMem_toString _) (colon_notMem_toString _) hlist
  exact String.toList_inj.mp (utf16Length_append_inj htext (toString_toList_inj hlen))

/-- A payment request's fingerprint names who asked and for which order. -/
theorem paymentHash_inj (hcfg : cfg.HashesApart) {p p' : Principal} {orderId orderId' : Id}
    {input input' : CreatePaymentInput}
    (h : paymentHash cfg p orderId input = paymentHash cfg p' orderId' input') :
    p = p' ∧ orderId = orderId' :=
  paymentScope_inj (hcfg.scope h)

/-- No order request has the fingerprint of a payment request. -/
theorem orderHash_ne_paymentHash (hcfg : cfg.HashesApart) {p p' : Principal} {orderId : Id}
    {input : CreateOrderInput} {input' : CreatePaymentInput} :
    orderHash cfg p input ≠ paymentHash cfg p' orderId input' := by
  intro h
  have hscope : scopeOf p = paymentScope p' orderId := hcfg.scope h
  have hcount := count_colon_scopeOf p
  rw [hscope, count_colon_paymentScope] at hcount
  cases hcount

/-! ## Keys -/

/-- What a stored key stands for: an order, or a payment for an order that the principal who
presented the key was allowed to pay for. -/
inductive KeyMeaning (cfg : Config) (db : Db) (row : IdempotencyKey) : Prop
  | order {principal : Principal} {input : CreateOrderInput} {view : OrderView} :
      row.requestHash = orderHash cfg principal input →
      row.responseBody = some (.order view) → KeyMeaning cfg db row
  | payment {principal : Principal} {orderId : Id} {input : CreatePaymentInput}
      {view : PaymentView} {p : Payment} {o : Order} :
      row.requestHash = paymentHash cfg principal orderId input →
      row.responseBody = some (.payment view) → db.payments.get view.id = some p →
      p.orderId = orderId → db.orders.get orderId = some o → foreign principal o = false →
      KeyMeaning cfg db row

theorem KeyMeaning.grows {db db' : Db} {row : IdempotencyKey} (h : KeyMeaning cfg db row)
    (hg : db.Grows db') : KeyMeaning cfg db' row := by
  cases h with
  | order hhash hbody => exact .order hhash hbody
  | payment hhash hbody hp hpo ho hmine =>
    obtain ⟨p', hp', hevp⟩ := hg.payments _ _ hp
    obtain ⟨o', ho', hevo⟩ := hg.orders _ _ ho
    refine .payment hhash hbody hp' (hevp.orderId.trans hpo) ho' ?_
    rw [foreign_of_evolves hevo]
    exact hmine

/-- The answer a call leaves under its key. -/
theorem Commits.keyMeaning {c : Call} {s : Shared} {ws ws' : List Write} {k hash : String}
    {body : ResponseBody} {row : IdempotencyKey} (hc : Commits cfg .all c s ws)
    (hs : Settled s.db) (hans : AnswersKey cfg c k hash body ws') (hmem : ∀ w ∈ ws', w ∈ ws)
    (hhash : row.requestHash = hash) (hbody : row.responseBody = some body) :
    KeyMeaning cfg (store.applyAll ws s.db) row := by
  cases hans with
  | order => exact .order hhash hbody
  | @payment principal orderId input k id p ws'' hpo hkey =>
    have hp := hmem _ (List.mem_cons_self ..)
    have hpaid : PaidUnder cfg principal orderId input k id (s.commit ws) := .of_commits hs hc hp
    obtain ⟨-, o, -, ho, hmine, -⟩ := hpaid.allowed
    exact .payment hhash hbody ((hc.paymentStep hs).get_of_mem hp) hpo ho hmine

/-- In every reachable state every stored key has such a meaning. -/
theorem Reachable.keyMeaning {w : PosWorld} (h : Reachable cfg w) {k : String}
    {row : IdempotencyKey} (hrow : w.shared.db.idempotencyKeys.get k = some row) :
    KeyMeaning cfg w.shared.db row := by
  refine h.db_invariant (J := fun db => ∀ k row, db.idempotencyKeys.get k = some row →
    KeyMeaning cfg db row) (fun _ _ hk => by cases hk) ?_ k row hrow
  intro c s ws hs hJ hc k row hrow
  rcases hc.keyStep.get hrow with hold | ⟨-, -, hash, body, ws', hans, hhash, hbody, hmem⟩
  · exact (hJ k row hold).grows (hc.grows hs)
  · exact hc.keyMeaning hs hans hmem hhash hbody

/-- A key with the fingerprint of a payment request was stored by a payment of the same
principal for the same order. -/
theorem Reachable.keyMeaning_payment {w : PosWorld} (h : Reachable cfg w)
    (hcfg : cfg.HashesApart) {k : String} {row : IdempotencyKey} {principal : Principal}
    {orderId : Id} {input : CreatePaymentInput}
    (hrow : w.shared.db.idempotencyKeys.get k = some row)
    (hhash : row.requestHash = paymentHash cfg principal orderId input) :
    ∃ view p o, row.responseBody = some (.payment view) ∧
      w.shared.db.payments.get view.id = some p ∧ p.orderId = orderId ∧
      w.shared.db.orders.get orderId = some o ∧ foreign principal o = false := by
  cases h.keyMeaning hrow with
  | order hhash' _ => exact absurd (hhash'.symm.trans hhash) (orderHash_ne_paymentHash hcfg)
  | @payment _ _ _ view p o hhash' hbody hp hpo ho hmine =>
    obtain ⟨rfl, rfl⟩ := paymentHash_inj hcfg (hhash'.symm.trans hhash)
    exact ⟨view, p, o, hbody, hp, hpo, ho, hmine⟩

end CafePos
