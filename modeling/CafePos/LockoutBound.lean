import CafePos.Lockout

/-!
# How many wrong passwords one counter lets through

The lockout is read before the password is hashed and charged after it, so every login that
has read the counter may still fail. In every run in which a login passes the check only while
there is budget for it and for all that are past the check (`withinBudget`), no more than
`maxFailures` verifications fail in the lifetime of a counter. Every counter has an expiry in
every run.
-/

namespace CafePos.Lockout

open Interleaving

variable {cfg : Config}

/-- The worlds the system can reach. -/
def Reachable (cfg : Config) (w : LoginWorld) : Prop := Runs (system cfg) .all opening w

/-! ## What one operation does -/

/-- The counter after a failure is recorded. -/
def State.recorded (s : State) (l : Phase) (key : String) : Counter :=
  ((s.counters.get key).map Counter.incr).getD (s.newCounter l key)

/-- What one operation does to its login and to the counters. -/
inductive Move (o : Op) (l : Phase) (s : State) : Phase → State → Prop
  /-- nothing -/
  | quiet : Move o l s l s
  /-- the login passes the check -/
  | passes {key : String} : o = .readLockout key → l = .arriving → s.count key < maxFailures →
      Move o l s (.passed key) s
  /-- a counter gets an expiry -/
  | repairs {key : String} : l = .arriving →
      Move o l s l (s.modify key fun counter => { counter with expiresAt := some s.windowEnd })
  /-- the password matches -/
  | accepts {key : String} : l = .passed key → Move o l s (.matched key) s
  /-- the password does not match -/
  | rejects {key : String} : l = .passed key →
      Move o l s (.rejected key) (s.modify key Counter.withFailure)
  /-- a failure is recorded -/
  | records {key : String} : l = .rejected key ∨ l = .matched key →
      Move o l s .settled { s with counters := s.counters.put key (s.recorded l key) }
  /-- the counter is cleared -/
  | clears {key : String} : l = .matched key →
      Move o l s .settled { s with counters := s.counters.keep fun k _ => k != key }

/-- Every counter has an expiry. -/
def Expiring (s : State) : Prop := ∀ key counter, s.counters.get key = some counter →
  counter.expiresAt.isSome

theorem State.get_modify (s : State) (key key' : String) (f : Counter → Counter) :
    (s.modify key f).counters.get key' =
      if key' = key then (s.counters.get key).map f else s.counters.get key' := by
  cases hkey : s.counters.get key with
  | none =>
    have hself : s.modify key f = s := by simp [modify, hkey]
    rw [hself, Option.map_none]
    split
    · rename_i heq
      rw [heq, hkey]
    · rfl
  | some counter => simp only [modify, hkey, Table.get_put, Option.map_some]

/-- A move leaves every counter with an expiry. -/
theorem Move.expiring {o : Op} {l l' : Phase} {s s' : State} (h : Move o l s l' s')
    (hs : Expiring s) : Expiring s' := by
  -- a counter that is changed
  have hmodify : ∀ {key : String} {f : Counter → Counter},
      (∀ counter, counter.expiresAt.isSome → (f counter).expiresAt.isSome) →
      Expiring (s.modify key f) := by
    intro key f hf key' counter' hget
    rw [State.get_modify] at hget
    split at hget
    · obtain ⟨counter, hcounter, rfl⟩ := Option.map_eq_some_iff.mp hget
      exact hf counter (hs key counter hcounter)
    · exact hs key' counter' hget
  cases h with
  | quiet | passes | accepts => exact hs
  | repairs => exact hmodify fun _ _ => rfl
  | rejects => exact hmodify fun _ h => h
  | @records key _ =>
    intro key' counter' hget
    rw [Table.get_put] at hget
    split at hget
    · obtain rfl := Option.some.inj hget
      cases hkey : s.counters.get key with
      | none => simp [State.recorded, hkey, State.newCounter]
      | some counter => simpa [State.recorded, hkey, Counter.incr] using hs key counter hkey
    · exact hs key' counter' hget
  | clears =>
    intro key' counter' hget
    exact hs key' counter' (Table.get_of_keep hget)

/-- What is proved of every login. -/
def spec : Spec State Phase Op Call Event where
  inv := Expiring
  rely _ _ := True
  gua _ o l s l' s' := Move o l s l' s'
  permit := .all
  rely_refl _ := trivial
  rely_trans _ _ := trivial
  gua_rely _ _ := trivial
  gua_inv _ hs h := h.expiring hs

/-! ## The login -/

section calls

variable {c : Call} {T : Err → Phase → State → Prop} {l : Phase} {s : State}

/-- Only a login that has passed the check goes on. -/
theorem assertNotLockedOut_ensures (email : String) :
    spec.Ensures (machine cfg) c (assertNotLockedOut cfg email)
      (fun _ l _ => l = .passed (cfg.keyFor email)) (fun _ _ _ => True) .arriving s := by
  refine .bind (.perform fun s₁ _ _ read l' s₂ _ _ hx => ?_)
  obtain ⟨rfl, rfl, rfl⟩ := Option.some.inj hx |> Prod.mk.inj |>.imp_right Prod.mk.inj
  by_cases hcount : s₁.count (cfg.keyFor email) < maxFailures
  · rw [if_pos hcount]
    refine ⟨.passes rfl rfl hcount, .ite (fun _ => .pure rfl) fun hnot => absurd hcount hnot⟩
  · rw [if_neg hcount]
    refine ⟨.quiet, .ite (fun h => absurd h hcount) fun _ => .ite (fun _ => ?_) fun _ => ?_⟩
    · refine .bind (.perform fun s₃ _ _ _ l' s₄ _ _ hx => ?_)
      obtain ⟨-, rfl, rfl⟩ := Option.some.inj hx |> Prod.mk.inj |>.imp_right Prod.mk.inj
      exact ⟨.repairs rfl, .throw trivial⟩
    · exact .throw trivial

theorem ensures_findUser {email : String} {Q : Option User → Phase → State → Prop}
    (h : ∀ r s, Q r l s) :
    spec.Ensures (machine cfg) c (perform (.findUser email)) Q T l s := by
  refine .perform fun s₁ _ _ r l' s₂ _ _ hx => ?_
  obtain ⟨-, rfl, rfl⟩ := Option.some.inj hx |> Prod.mk.inj |>.imp_right Prod.mk.inj
  exact ⟨.quiet, h r _⟩

theorem ensures_verify {key hash password : String} {Q : Bool → Phase → State → Prop}
    (hmatched : ∀ s, Q true (.matched key) s) (hrejected : ∀ s, Q false (.rejected key) s) :
    spec.Ensures (machine cfg) c (perform (.verify key hash password)) Q T (.passed key) s := by
  refine .perform fun s₁ _ _ r l' s₂ _ _ hx => ?_
  change some (exec cfg (.passed key) s₁ (.verify key hash password)) = _ at hx
  simp only [exec] at hx
  split at hx
  · obtain ⟨rfl, rfl, rfl⟩ := Option.some.inj hx |> Prod.mk.inj |>.imp_right Prod.mk.inj
    exact ⟨.accepts rfl, hmatched _⟩
  · obtain ⟨rfl, rfl, rfl⟩ := Option.some.inj hx |> Prod.mk.inj |>.imp_right Prod.mk.inj
    exact ⟨.rejects rfl, hrejected _⟩

theorem ensures_recordFailure {key : String} {Q : Unit → Phase → State → Prop}
    (hl : l = .rejected key ∨ l = .matched key) (h : ∀ s, Q () .settled s) :
    spec.Ensures (machine cfg) c (perform (.recordFailure key)) Q T l s := by
  refine .perform fun s₁ _ _ r l' s₂ _ _ hx => ?_
  obtain ⟨-, rfl, rfl⟩ := Option.some.inj hx |> Prod.mk.inj |>.imp_right Prod.mk.inj
  exact ⟨.records hl, h _⟩

theorem ensures_clear {key : String} {Q : Unit → Phase → State → Prop} (h : ∀ s, Q () .settled s) :
    spec.Ensures (machine cfg) c (perform (.clear key)) Q T (.matched key) s := by
  refine .perform fun s₁ _ _ r l' s₂ _ _ hx => ?_
  obtain ⟨-, rfl, rfl⟩ := Option.some.inj hx |> Prod.mk.inj |>.imp_right Prod.mk.inj
  exact ⟨.clears rfl, h _⟩

theorem login_ensures (email password : String) :
    spec.Ensures (machine cfg) c (login cfg email password) (fun _ _ _ => True)
      (fun _ _ _ => True) .arriving s := by
  refine .bind (Spec.wp_mono (fun r l' s' _ hr => ?_) (assertNotLockedOut_ensures email))
  cases r with
  | error e => exact hr
  | ok _ =>
    obtain rfl := hr
    refine .bind (ensures_findUser fun user s => ?_)
    refine .bind (ensures_verify (fun s => ?_) fun s => ?_)
    · cases user.filter fun user => user.isActive && true with
      | none => exact .bind (ensures_recordFailure (Or.inr rfl) fun s => .throw trivial)
      | some user => exact .bind (ensures_clear fun s => .pure trivial)
    · -- a password that does not match is nobody's
      have hnone : (user.filter fun user => user.isActive && false) = none := by simp
      simp only [hnone]
      exact .bind (ensures_recordFailure (Or.inl rfl) fun s => .throw trivial)

end calls

theorem starts (base : State) : Starts spec (system cfg) base 0 (fun _ _ _ _ _ => True) := by
  intro i c s _ _ _ _
  refine Spec.wp_mono (fun r l s _ _ => trivial) (login_ensures c.email c.password)

theorem happens : Happens spec (system cfg) := by
  intro e s s' _ hs hx
  obtain rfl := Option.some.inj hx
  refine ⟨?_, trivial⟩
  cases e with
  | tick elapsed => exact fun key counter hget => hs key counter (Table.get_of_keep hget)
  | account email user => exact hs

theorem Reachable.sound {w : LoginWorld} (h : Reachable cfg w) :
    Sound spec (system cfg) opening.shared 0 (fun _ _ _ _ _ => True) w :=
  Sound.runs (starts _) happens (.initial fun _ _ hget => by cases hget) h

/-! ## The budget -/

/-- A login for this key that is past the check, and has neither recorded nor cleared. -/
def Phase.isPast (key : String) : Phase → Bool
  | arriving | settled => false
  | passed key' | rejected key' | matched key' => key' == key

/-- A login for this key whose failure is not recorded yet. -/
def Phase.isRejected (key : String) : Phase → Bool
  | rejected key' => key' == key
  | _ => false

theorem Phase.isRejected_le (key : String) (l : Phase) (h : l.isRejected key) : l.isPast key := by
  cases l with
  | rejected key' => exact h
  | _ => cases h

/-- Such a login, under way. -/
def isPast (key : String) (t : LoginThread) : Bool := t.prog.isSome && t.session.isPast key

/-- Such a login, under way. -/
def isRejected (key : String) (t : LoginThread) : Bool := t.prog.isSome && t.session.isRejected key

/-- The logins past the check. -/
def pastCheck (w : LoginWorld) (key : String) : ℕ := w.threads.countP (isPast key)

/-- The failures that are not recorded yet. -/
def unrecorded (w : LoginWorld) (key : String) : ℕ := w.threads.countP (isRejected key)

/-- The operation a login performs next. -/
def LoginThread.next (t : LoginThread) : Option Op :=
  match t.prog with
  | some (.op o _) => some o
  | _ => none

/-- A check that lets a login pass leaves budget for all that are past the check, and no process
dies between a failed verification and its record. -/
def withinBudget (w : LoginWorld) : LoginAct → Bool
  | .step i _ =>
    match (w.threads[i]?).bind LoginThread.next with
    | some (.readLockout key) => decide (maxFailures ≤ w.shared.count key) ||
        decide (w.shared.count key + pastCheck w key < maxFailures)
    | _ => true
  | .crash i =>
    match w.threads[i]? with
    | some ⟨_, .rejected _, _⟩ => false
    | _ => true
  | _ => true

/-- `GET key or 0`, of what is under the key. -/
def countOf (counter : Option Counter) : ℕ := (counter.map Counter.count).getD 0

/-- What is recorded under one key, and what may still be, fits the budget. -/
structure Fits (counter : Option Counter) (past unrecorded : ℕ) : Prop where
  /-- a failure is counted, or its login is about to -/
  failed : ∀ c ∈ counter, c.failed ≤ c.count + unrecorded
  /-- whoever is past the check has a place in the budget -/
  past : countOf counter + past ≤ maxFailures

/-- It does so under every key. -/
def Budget (w : LoginWorld) : Prop :=
  ∀ key, Fits (w.shared.counters.get key) (pastCheck w key) (unrecorded w key)

theorem unrecorded_le (w : LoginWorld) (key : String) : unrecorded w key ≤ pastCheck w key := by
  refine List.countP_mono_left fun t _ h => ?_
  simp only [isRejected, isPast, Bool.and_eq_true] at h ⊢
  exact ⟨h.1, Phase.isRejected_le key _ h.2⟩

/-- No counter lets more than `maxFailures` verifications fail. -/
theorem Budget.failed_le {w : LoginWorld} (h : Budget w) {key : String} {counter : Counter}
    (hget : w.shared.counters.get key = some counter) : counter.failed ≤ maxFailures := by
  have hfailed := (h key).failed counter hget
  have hpast := (h key).past
  have hle := unrecorded_le w key
  simp only [countOf, hget, Option.map_some, Option.getD_some] at hpast
  omega

/-! ## One key -/

namespace Fits

variable {counter : Option Counter} {past past' unrecorded unrecorded' : ℕ}

/-- Fewer logins are past the check, and no failure is forgotten. -/
theorem mono (h : Fits counter past unrecorded) (hp : past' ≤ past) (hu : unrecorded ≤ unrecorded') :
    Fits counter past' unrecorded' where
  failed c hc := (h.failed c hc).trans (by omega)
  past := by
    have := h.past
    omega

/-- A login passes the check. -/
theorem passes (h : Fits counter past unrecorded) (hroom : countOf counter + past < maxFailures) :
    Fits counter (past + 1) unrecorded where
  failed := h.failed
  past := by omega

/-- A counter changes, but for its count and its failures. -/
theorem repairs (h : Fits counter past unrecorded) {f : Counter → Counter}
    (hf : ∀ c, (f c).count = c.count ∧ (f c).failed = c.failed) :
    Fits (counter.map f) past unrecorded := by
  cases counter with
  | none => exact h
  | some c =>
    refine ⟨fun c' hc' => ?_, ?_⟩
    · obtain rfl := Option.some.inj hc'
      rw [(hf c).1, (hf c).2]
      exact h.failed c rfl
    · simpa [countOf, hf c] using h.past

/-- A verification fails. -/
theorem rejects (h : Fits counter past unrecorded) :
    Fits (counter.map Counter.withFailure) past (unrecorded + 1) := by
  cases counter with
  | none => exact h.mono le_rfl (Nat.le_succ _)
  | some c =>
    refine ⟨fun c' hc' => ?_, h.past⟩
    obtain rfl := Option.some.inj hc'
    have := h.failed c rfl
    simp only [Counter.withFailure]
    omega

/-- A login records its failure, which is known to the counter or not. -/
theorem records {c' : Counter} (h : Fits counter (past + 1) unrecorded)
    (hc' : c' = (counter.map Counter.incr).getD c') (hnew : counter = none → c'.count = 1)
    (hfailed : counter = none → c'.failed ≤ 1)
    (hu : unrecorded ≤ unrecorded' + 1) :
    Fits (some c') past unrecorded' := by
  have hpast := h.past
  cases counter with
  | none =>
    refine ⟨fun c hc => ?_, ?_⟩
    · obtain rfl := Option.some.inj hc
      have := hnew rfl
      have := hfailed rfl
      omega
    · simp only [countOf, Option.map_some, Option.getD_some, hnew rfl, Option.map_none,
        Option.getD_none] at hpast ⊢
      omega
  | some c =>
    simp only [Option.map_some, Option.getD_some] at hc'
    have hold := h.failed c rfl
    refine ⟨fun c₁ hc₁ => ?_, ?_⟩
    · obtain rfl := Option.some.inj hc₁
      rw [hc']
      simp only [Counter.incr]
      omega
    · simp only [countOf, Option.map_some, Option.getD_some, hc', Counter.incr] at hpast ⊢
      omega

/-- The counter goes. -/
theorem drops (h : Fits counter past unrecorded) : Fits none past unrecorded' where
  failed c hc := by cases hc
  past := by
    have := h.past
    simp only [countOf, Option.map_none, Option.getD_none]
    omega

/-- The counter goes, or stays. -/
theorem filters (h : Fits counter past unrecorded) (p : Counter → Bool) :
    Fits (counter.filter p) past unrecorded := by
  cases counter with
  | none => exact h
  | some c =>
    rw [Option.filter_some]
    split
    · exact h
    · exact h.drops

end Fits

/-! ## Runs -/

/-- How the two numbers change when a login takes a step. -/
theorem counts_set {w : LoginWorld} {i : ℕ} {t : LoginThread} (p : Option (Prog Op Op.Res _))
    (l' : Phase) (s' : State) (ht : w.threads[i]? = some t) (hp : t.prog.isSome) (key : String) :
    pastCheck ⟨s', w.threads.set i ⟨t.call, l', p⟩⟩ key + (t.session.isPast key).toNat =
        pastCheck w key + (p.isSome && l'.isPast key).toNat ∧
      unrecorded ⟨s', w.threads.set i ⟨t.call, l', p⟩⟩ key + (t.session.isRejected key).toNat =
        unrecorded w key + (p.isSome && l'.isRejected key).toNat := by
  have hpast := Thread.countP_set ⟨t.call, l', p⟩ ht (isPast key)
  have hrejected := Thread.countP_set ⟨t.call, l', p⟩ ht (isRejected key)
  simp only [isPast, isRejected, hp, Bool.true_and] at hpast hrejected
  exact ⟨hpast, hrejected⟩

/-- Step lemma: an operation of a login keeps the budget. -/
theorem Budget.step {w : LoginWorld} {i : ℕ} {t : LoginThread} {o : Op}
    {k : o.Res → Prog Op Op.Res (Except Err Id)} {p : Prog Op Op.Res (Except Err Id)} {l' : Phase}
    {s' : State} (h : Budget w) (ht : w.threads[i]? = some t) (hp : t.prog = some (.op o k))
    (hcheck : withinBudget w (.step i ()) = true) (hm : Move o t.session w.shared l' s') :
    Budget ⟨s', w.threads.set i ⟨t.call, l', some p⟩⟩ := by
  intro key'
  have hcounts := counts_set (some p) l' s' ht (by rw [hp]; rfl) key'
  have hkey' := h key'
  generalize pastCheck (⟨s', w.threads.set i ⟨t.call, l', some p⟩⟩ : LoginWorld) key' = past'
    at hcounts ⊢
  generalize unrecorded (⟨s', w.threads.set i ⟨t.call, l', some p⟩⟩ : LoginWorld) key' =
    unrecorded' at hcounts ⊢
  obtain ⟨hpast, hrejected⟩ := hcounts
  simp only [Option.isSome_some, Bool.true_and] at hpast hrejected
  cases hm with
  | quiet => exact hkey'.mono (by omega) (by omega)
  | @passes key ho hl hcount =>
    rw [hl] at hpast hrejected
    by_cases hkey : key = key'
    · subst hkey
      have hroom : w.shared.count key + pastCheck w key < maxFailures := by
        subst ho
        simpa [withinBudget, ht, LoginThread.next, hp, Nat.not_le.mpr hcount] using hcheck
      simp [Phase.isPast, Phase.isRejected] at hpast hrejected
      rw [hpast, hrejected]
      exact hkey'.passes hroom
    · have hne : (key == key') = false := beq_false_of_ne hkey
      simp [Phase.isPast, Phase.isRejected, hne] at hpast hrejected
      rw [hpast, hrejected]
      exact hkey'
  | @repairs key hl =>
    have hsame : past' = pastCheck w key' ∧ unrecorded' = unrecorded w key' := by omega
    rw [hsame.1, hsame.2, State.get_modify]
    split
    · rename_i hkey
      rw [← hkey]
      exact hkey'.repairs fun _ => ⟨rfl, rfl⟩
    · exact hkey'
  | @accepts key hl =>
    rw [hl] at hpast hrejected
    simp only [Phase.isPast, Phase.isRejected] at hpast hrejected
    exact hkey'.mono (by omega) (by omega)
  | @rejects key hl =>
    rw [hl] at hpast hrejected
    simp only [Phase.isPast, Nat.add_right_cancel_iff] at hpast
    rw [hpast, State.get_modify]
    split
    · rename_i hkey
      subst hkey
      simp [Phase.isRejected] at hrejected
      rw [hrejected]
      exact hkey'.rejects
    · rename_i hkey
      have hne : (key == key') = false := beq_false_of_ne (Ne.symm hkey)
      simp [Phase.isRejected, hne] at hrejected
      rw [hrejected]
      exact hkey'
  | @records key hl =>
    rw [Table.get_put]
    split
    · rename_i hkey
      subst hkey
      have hin : t.session.isPast key' = true := by
        rcases hl with hl | hl <;> simp [hl, Phase.isPast]
      have hzero : (Phase.isRejected key' .settled).toNat = 0 := rfl
      have hle : (t.session.isRejected key').toNat ≤ 1 := Bool.toNat_le _
      rw [hin] at hpast
      simp only [Phase.isPast, Bool.toNat_true, Bool.toNat_false, Nat.add_zero] at hpast
      rw [← hpast] at hkey'
      have hmore : unrecorded w key' ≤ unrecorded' + 1 := by omega
      refine hkey'.records ?_ (fun hnone => ?_) (fun hnone => ?_) hmore
      · cases hget : w.shared.counters.get key' <;> simp [State.recorded, hget]
      · simp [State.recorded, hnone, State.newCounter]
      · simp only [State.recorded, hnone, State.newCounter, Option.map_none, Option.getD_none]
        split <;> omega
    · rename_i hkey
      have hne : (key == key') = false := beq_false_of_ne (Ne.symm hkey)
      rcases hl with hl | hl
      all_goals
        simp [hl, Phase.isPast, Phase.isRejected, hne] at hpast hrejected
        rw [hpast, hrejected]
        exact hkey'
  | @clears key hl =>
    simp only [hl, Phase.isPast, Phase.isRejected, Bool.toNat_false, Nat.add_zero]
      at hpast hrejected
    rw [Table.get_keep]
    exact (hkey'.filters _).mono (by omega) (by omega)

/-- In every run within the budget, the budget holds. -/
theorem budget_of_checked {w : LoginWorld}
    (h : Checked (system cfg) (fun w a => withinBudget w a = true) opening w) : Budget w := by
  induction h with
  | refl => exact fun key => ⟨fun c hc => (by cases hc), Nat.zero_le maxFailures⟩
  | @tail w w' a hw hcheck hs ih =>
    have hreach : Reachable cfg w := hw.runs
    cases World.transition_of_act hs with
    | start c =>
      intro key
      have hpast : pastCheck ⟨w.shared, w.threads ++ [⟨c, .arriving, some ((system cfg).program c)⟩]⟩
          key = pastCheck w key := by simp [pastCheck, isPast, Phase.isPast]
      have hrejected : unrecorded
          ⟨w.shared, w.threads ++ [⟨c, .arriving, some ((system cfg).program c)⟩]⟩ key =
          unrecorded w key := by simp [unrecorded, isRejected, Phase.isRejected]
      exact (ih key).mono hpast.le hrejected.ge
    | step ht hp hx => exact ih.step ht hp hcheck (hreach.sound.step ht hp trivial hx).1
    | @crash i t ht hrun =>
      intro key
      obtain ⟨o, k, hp⟩ := hrun
      have hcounts := counts_set none ((system cfg).machine.abort t.session)
        w.shared ht (by rw [hp]; rfl) key
      have hnot : t.session.isRejected key = false := by
        rcases t with ⟨c, l, p⟩
        cases l with
        | rejected key' => simp [withinBudget, ht] at hcheck
        | _ => rfl
      simp only [Option.isSome_none, Bool.false_and, hnot, Bool.toNat_false] at hcounts
      exact (ih key).mono (by omega) (by omega)
    | @world e s' hx =>
      obtain rfl := Option.some.inj hx
      intro key
      cases e with
      | tick elapsed =>
        rw [happen, Table.get_keep]
        exact (ih key).filters _
      | account email user => exact ih key

/-- Every failure counter has an expiry, in every run; and in every run in which a login passes
the check only while there is budget for everybody past it, at most `maxFailures` verifications
fail in the lifetime of a counter. -/
theorem lockout_bounds_failures (cfg : Config) :
    (∀ w, Reachable cfg w → Expiring w.shared) ∧
    ∀ w, Checked (system cfg) (fun w a => withinBudget w a = true) opening w →
      ∀ key counter, w.shared.counters.get key = some counter → counter.failed ≤ maxFailures :=
  ⟨fun _ h => h.sound.inv, fun _ h _ _ hget => (budget_of_checked h).failed_le hget⟩

/-! ## A run in which six passwords fail -/

/-- A password is its own hash, and addresses are compared as they are. -/
def plainLogins : Config := ⟨fun hash password => hash == password, id, id⟩

/-- Call `i` performs its next `n` operations. -/
def steps (i n : ℕ) : List LoginAct := List.replicate n (.step i ())

/-- An account. -/
def hire : List LoginAct := [.world (.account "ada" ⟨1, "secret", true⟩)]

/-- Six logins read the counter before any of them has failed. -/
def sixArrive : List LoginAct :=
  (List.range 6).flatMap fun i => .start ⟨"ada", "guess"⟩ :: steps i 2

/-- The first fails and is recorded; then the passwords of the other five fail. -/
def sixFail : List LoginAct :=
  hire ++ sixArrive ++ steps 0 2 ++ (List.range 5).flatMap fun i => steps (i + 1) 1

theorem lockout_lets_six_fail : ∃ w, Reachable plainLogins w ∧
    ((w.shared.counters.get "login-failures:ada").map Counter.failed = some 6) ∧
    ¬ ∀ key counter, w.shared.counters.get key = some counter → counter.failed ≤ maxFailures := by
  obtain ⟨w, hw, hsix⟩ := Runs.exists_of_acts (system plainLogins) opening sixFail
    (fun w =>
      (w.shared.counters.get "login-failures:ada").map Counter.failed = some 6) (by decide)
  refine ⟨w, hw, hsix, fun hall => ?_⟩
  obtain ⟨counter, hget, hfailed⟩ := Option.map_eq_some_iff.mp hsix
  have := hall _ counter hget
  rw [hfailed] at this
  exact absurd this (by decide)

/-- Five logins, one after the other, each with a wrong password. -/
def fiveFail : List LoginAct :=
  hire ++ (List.range 5).flatMap fun i => .start ⟨"ada", "guess"⟩ :: steps i 4

theorem lockout_bounds_failures_five : ∃ w,
    Checked (system plainLogins) (fun w a => withinBudget w a = true) opening w ∧
    ∃ counter, w.shared.counters.get "login-failures:ada" = some counter ∧ counter.failed = 5 ∧
      counter.expiresAt.isSome ∧ counter.failed ≤ maxFailures := by
  obtain ⟨w, hw, hfive⟩ := Checked.exists_of_runIf (M := system plainLogins) withinBudget opening
    fiveFail (fun w =>
      (w.shared.counters.get "login-failures:ada").map Counter.failed = some 5) (by decide)
  obtain ⟨counter, hget, hfailed⟩ := Option.map_eq_some_iff.mp hfive
  obtain ⟨hexpiring, hbound⟩ := lockout_bounds_failures plainLogins
  exact ⟨w, hw, counter, hget, hfailed, hexpiring w hw.runs _ counter hget,
    hbound w hw _ counter hget⟩

end CafePos.Lockout
