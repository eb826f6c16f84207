import CafePos.PaymentDoors

/-!
# Every run of the system

The doors meet their specifications one by one; here they are put together. `Post` is what
the answer of a call says, `Context.starts` that every call is on its way to it, and from
there the adequacy theorem of the library speaks about every run:

* `Context.sound` — a run from the opening, in a context;
* `Context.window` — a run in a context that begins in the middle of any other run;
* `Reachable.invariant` — a property of the shared state that no commit, no move of the
  gateway and nothing that happens by itself breaks.
-/

namespace CafePos

open Interleaving

variable {cfg : Config}

/-! ## What an answer says -/

/-- What a call's answer says of its session and of the state in which it was given.
`base` is a state from before the call began. -/
def Post (Γ : Context cfg) (base : Shared) : Call → Answer → Sess → Shared → Prop
  | .createOrder principal input key, .ok r, l, s =>
    ∃ created, r = .order created ∧ OrderAnswered cfg principal input key created l s
  | .createOrder _ _ key, .error e, l, s => OrderRefused key e l s
  | .createPayment principal orderId input key, .ok r, l, s =>
    ∃ created, r = .payment created ∧ PaymentAnswered cfg principal orderId input key created l s
  | .createPayment principal orderId input key, .error e, l, s =>
    PaymentFailed Γ principal orderId input key e l s
  | .processEvent eventId, .ok r, l, s => ∃ b, r = .flag b ∧ EventDone Γ eventId base b l s
  | .checkout .., .ok r, l, s => Announced r l s
  | .record _, .ok r, l, s => Announced r l s
  | .cancel .., .ok r, l, s => Announced r l s
  | .expireOne _, .ok r, l, s => Announced r l s
  | .transition .., .ok r, l, s => Announced r l s
  | .refund .., .ok r, l, s => Announced r l s
  | _, .error e, l, s => Untouched e l s

/-- A success stored long ago is handled by a call that began later. -/
theorem Handled.base {Γ : Context cfg} {eventId : Id} {s₀ s₁ s : Shared}
    (h : Handled Γ eventId s₁ s) (hs : Grows s₀ s₁) : Handled Γ eventId s₀ s := by
  intro e id p he hp hcap
  obtain ⟨e₁, he₁, heve⟩ := hs.event he
  obtain ⟨p₁, hp₁, hevp⟩ := hs.payment hp
  have hcap₁ : captures e₁ p₁ := by
    rw [captures_of_payload heve.payload, captures_of_evolves hevp]
    exact hcap
  obtain ⟨s₂, h₁, h₂, hcases⟩ := h e₁ id p₁ he₁ hp₁ hcap₁
  rw [hevp.orderId] at hcases
  exact ⟨s₂, hs.trans h₁, h₂, hcases⟩

/-- A door whose result is wrapped into a reply answers what it ends in. -/
theorem Ensures.answers {α : Type} {Γ : Context cfg} {base s : Shared} {c : Call} {m : Door α}
    {f : α → Reply} {Q : α → Sess → Shared → Prop} {E : Err → Sess → Shared → Prop}
    (h : Ensures Γ c m Q E idle s) (hok : ∀ a l s, Q a l s → Post Γ base c (.ok (f a)) l s)
    (herr : ∀ e l s, E e l s → Post Γ base c (.error e) l s) :
    Γ.spec.wp machine c (Post Γ base c) (f <$> m).run idle s := by
  have hmap : Ensures Γ c (f <$> m) (fun r => Post Γ base c (.ok r))
      (fun e => Post Γ base c (.error e)) idle s :=
    .map (h.mono (fun a l' s' _ => hok a l' s') (fun e l' s' _ => herr e l' s'))
  refine Spec.wp_mono (fun r l' s' _ hr => ?_) hmap
  cases r with
  | ok r => exact hr
  | error e => exact hr

/-- Every call of the system is on its way to its postcondition. -/
theorem Context.starts (Γ : Context cfg) (base : Shared) (n : ℕ) :
    Starts Γ.spec (system cfg) base n fun _ c => Post Γ base c := by
  intro _ c s _ _ _ hbase
  cases c with
  | createOrder principal input key =>
    exact create_ensures.answers (fun created _ _ h => ⟨created, rfl, h⟩) (fun _ _ _ h => h)
  | createPayment principal orderId input key =>
    exact createPayment_ensures.answers (fun created _ _ h => ⟨created, rfl, h⟩)
      (fun _ _ _ h => h)
  | processEvent eventId =>
    exact processEvent_ensures.answers (fun b _ _ h => ⟨b, rfl, h.1, h.2.base hbase⟩)
      (fun _ _ _ h => h)
  | checkout principal orderId =>
    exact checkout_ensures.answers (fun _ _ _ h => h) (fun _ _ _ h => h)
  | record event => exact record_ensures.answers (fun _ _ _ h => h) (fun _ _ _ h => h)
  | cancel principal orderId reason =>
    exact cancel_ensures.answers (fun _ _ _ h => h) (fun _ _ _ h => h)
  | expireOne orderId => exact expireOne_ensures.answers (fun _ _ _ h => h) (fun _ _ _ h => h)
  | transition principal orderId target =>
    exact transition_ensures.answers (fun _ _ _ h => h) (fun _ _ _ h => h)
  | refund userId paymentId input =>
    exact refund_ensures.answers (fun _ _ _ h => h) (fun _ _ _ h => h)

/-! ## Runs -/

/-- Every world of a permitted run from the opening is sound. -/
theorem Context.sound (Γ : Context cfg) (hinit : Γ.extra opening.shared) {w : PosWorld}
    (h : Runs (system cfg) Γ.permit opening w) :
    Sound Γ.spec (system cfg) opening.shared 0 (fun _ c => Post Γ opening.shared c) w :=
  Sound.runs (Γ.starts _ 0) Γ.happens (.initial ⟨.empty, hinit⟩) h

theorem Reachable.sound {w : PosWorld} (h : Reachable cfg w) :
    Sound (Context.plain cfg).spec (system cfg) opening.shared 0
      (fun _ c => Post (.plain cfg) opening.shared c) w :=
  Context.sound (.plain cfg) trivial h

/-- The context's invariant, in every world of a permitted run from the opening. -/
theorem Context.holds (Γ : Context cfg) (hinit : Γ.extra opening.shared) {w : PosWorld}
    (h : Runs (system cfg) Γ.permit opening w) : Settled w.shared.db ∧ Γ.extra w.shared :=
  (Γ.sound hinit h).inv

/-- What a call may commit it may commit in every run that lets the inbox read. -/
theorem Commits.of_all {P : PosPermit} {c : Call} {s : Shared} {ws : List Write}
    (hP : ∀ eventId q l s, P.step (.processEvent eventId) (.query .pool q) l s)
    (h : Commits cfg .all c s ws) : Commits cfg P c s ws := by
  cases h with
  | create h₁ h₂ h₃ h₄ h₅ => exact .create h₁ h₂ h₃ h₄ h₅
  | checkout h₁ h₂ h₃ => exact .checkout h₁ h₂ h₃
  | cash h₁ h₂ h₃ h₄ h₅ h₆ h₇ h₈ h₉ h₁₀ => exact .cash h₁ h₂ h₃ h₄ h₅ h₆ h₇ h₈ h₉ h₁₀
  | openPayment h₁ h₂ h₃ h₄ h₅ h₆ h₇ h₈ h₉ => exact .openPayment h₁ h₂ h₃ h₄ h₅ h₆ h₇ h₈ h₉
  | record h₁ h₂ => exact .record h₁ h₂
  | skip h₁ h₂ h₃ =>
    refine .skip h₁ h₂ fun hsuc => ?_
    obtain ⟨s₀, l₀, e₀, id, p, row, hs, -, hrest⟩ := h₃ hsuc
    exact ⟨s₀, l₀, e₀, id, p, row, hs, hP _ _ _ _, hrest⟩
  | markPayment h₁ h₂ h₃ h₄ => exact .markPayment h₁ h₂ h₃ h₄
  | markPaid h₁ h₂ h₃ h₄ h₅ => exact .markPaid h₁ h₂ h₃ h₄ h₅
  | close h₁ h₂ h₃ h₄ => exact .close h₁ h₂ h₃ h₄
  | staff h₁ h₂ => exact .staff h₁ h₂
  | refundPart h₁ h₂ h₃ h₄ => exact .refundPart h₁ h₂ h₃ h₄
  | refundAll h₁ h₂ h₃ h₄ h₅ => exact .refundAll h₁ h₂ h₃ h₄ h₅

theorem Move.of_all {P : PosPermit} {c : Call} {o : Op} {l l' : Sess} {s s' : Shared}
    (hP : ∀ eventId q l s, P.step (.processEvent eventId) (.query .pool q) l s)
    (h : Move cfg .all c o l s l' s') : Move cfg P c o l s l' s' := by
  cases h with
  | quiet hc hp => exact .quiet hc hp
  | publish ha => exact .publish ha
  | gateway hg => exact .gateway hg
  | commit hc => exact .commit (hc.of_all hP)
  | inbox hc => exact .inbox (hc.of_all hP)

/-- A window: from any reachable world on, in a context. Of the calls that were under way
nothing is known but that their operations are `Move`s; the others answer what `Post`
says. -/
theorem Context.window (Γ : Context cfg)
    (hreads : ∀ eventId q l s, Γ.permit.step (.processEvent eventId) (.query .pool q) l s)
    {w w' : PosWorld} (hw : Reachable cfg w) (hextra : Γ.extra w.shared)
    (h : Runs (system cfg) Γ.permit w w') :
    Sound Γ.spec (system cfg) w.shared w.threads.length
      (fun i c a l s => w.threads.length ≤ i → Post Γ w.shared c a l s) w' := by
  have hwithin : Spec.Within Γ.spec (Context.plain cfg).spec :=
    ⟨fun hi => ⟨hi.1, trivial⟩, fun hr => hr, fun _ => trivial, fun hg => hg.of_all hreads⟩
  have hold : ∀ {i : ℕ} {t : PosThread}, w.threads[i]? = some t → ¬ w.threads.length ≤ i :=
    fun ht => Nat.not_le.mpr (List.getElem?_eq_some_iff.mp ht).1
  have hbase : Sound Γ.spec (system cfg) w.shared w.threads.length
      (fun i c a l s => w.threads.length ≤ i → Post Γ w.shared c a l s) w :=
    hw.sound.rebase hwithin ⟨hw.sound.inv.1, hextra⟩
    (fun i t a s ht _ _ _ _ => ⟨w.shared, ⟨hw.sound.inv.1, hextra⟩, .refl _,
      fun hi => absurd hi (hold ht)⟩)
    (fun i t a l s ht _ _ _ hi => absurd hi (hold ht))
  refine hbase.runs (fun i c s hi hp hinv hs => ?_) Γ.happens h
  exact Spec.wp_mono (fun a l' s' _ ha _ => ha)
    (Γ.starts w.shared w.threads.length i c s hi hp hinv hs)

/-- A permitted run is a run. -/
theorem Reachable.extend {P : PosPermit} {w w' : PosWorld} (h : Reachable cfg w)
    (hr : Runs (system cfg) P w w') : Reachable cfg w' :=
  Runs.trans h (hr.mono fun w a _ => Runs.allows_all w a)

/-- What is stored only grows along a run. -/
theorem Reachable.grows {P : PosPermit} {w w' : PosWorld} (h : Reachable cfg w)
    (hr : Runs (system cfg) P w w') : Grows w.shared w'.shared :=
  ((Context.plain cfg).window (fun _ _ _ _ => trivial) h trivial
    (hr.mono fun w a _ => Runs.allows_all w a)).since

/-- A call that had not answered in `w` answers in a state after it. -/
theorem Reachable.answered_since {w w' : PosWorld} (h : Reachable cfg w)
    (hr : Runs (system cfg) .all w w') {i : ℕ} {t : PosThread} {a : Answer}
    (ht : w'.threads[i]? = some t) (ha : t.Answered a)
    (hlate : ∀ u b, w.threads[i]? = some u → ¬ u.Answered b) :
    ∃ s, Grows w.shared s ∧ Grows s w'.shared ∧
      Post (.plain cfg) opening.shared t.call a t.session s := by
  -- the goal of call `i` from here on
  let post : ℕ → Call → Answer → Sess → Shared → Prop := fun i c a l s =>
    (∀ u b, w.threads[i]? = some u → ¬ u.Answered b) →
      Grows w.shared s ∧ Post (.plain cfg) opening.shared c a l s
  have hbase : Sound (Context.plain cfg).spec (system cfg) w.shared w.threads.length post w := by
    refine h.sound.rebase (.refl _) h.sound.inv ?_ ?_
    · exact fun i u b s hu hb _ _ _ => ⟨w.shared, h.sound.inv, .refl _,
        fun hlate => absurd hb (hlate u b hu)⟩
    · exact fun i u b l s _ _ hs hpost _ => ⟨hs, hpost⟩
  have hend : Sound (Context.plain cfg).spec (system cfg) w.shared w.threads.length post w' := by
    refine hbase.runs (fun i c s hi hp hinv hs => ?_) (Context.happens (.plain cfg)) hr
    exact Spec.wp_mono (fun a l' s' hs' ha _ => ⟨hs.trans hs', ha⟩)
      (Context.starts (.plain cfg) opening.shared 0 i c s (Nat.zero_le _) hp hinv
        (h.sound.since.trans hs))
  obtain ⟨s, -, hs, hpost⟩ := hend.answered ht ha
  obtain ⟨hbefore, hpost⟩ := hpost hlate
  exact ⟨s, hbefore, hs, hpost⟩

/-- The operation with which a call answers leaves the state its answer speaks of. -/
theorem Reachable.answers_at {w w' : PosWorld} (h : Reachable cfg w) {i : ℕ} {inp : Input}
    (hact : w.act (system cfg) (.step i inp) = some w') {t : PosThread} {a : Answer}
    (ht : w'.threads[i]? = some t) (ha : t.Answered a) :
    Post (.plain cfg) opening.shared t.call a t.session w'.shared := by
  cases World.transition_of_act hact with
  | step hu hp hx =>
    obtain ⟨-, hwp⟩ := h.sound.step hu hp trivial hx
    rw [List.getElem?_set_self (List.getElem?_eq_some_iff.mp hu).1] at ht
    obtain rfl := Option.some.inj ht
    rw [Option.some.inj ha] at hwp
    exact hwp

/-! ## Invariants of the shared state -/

/-- A property that no commit, no move of the gateway and nothing that happens by itself
breaks holds in every reachable world. -/
theorem Reachable.invariant {J : Shared → Prop} (init : J opening.shared)
    (commit : ∀ c s ws, Settled s.db → J s → Commits cfg .all c s ws → J (s.commit ws))
    (gateway : ∀ s g, J s → s.gateway.Moves g → J ⟨s.db, g⟩)
    (happen : ∀ e s s', J s → happen e s = some s' → J s')
    {w : PosWorld} (h : Reachable cfg w) : J w.shared := by
  refine Sound.shared_invariant (Context.starts (.plain cfg) opening.shared 0)
    (Context.happens (.plain cfg)) (J := J) ?_ (fun e s s' _ hJ _ hs => happen e s s' hJ hs)
    (.initial ⟨.empty, trivial⟩) init h
  intro c o l s l' s' hi hJ _ hm
  exact hm.preserves hJ (fun g hg => gateway s g hJ hg)
    (fun ws hc _ _ => commit c s ws hi.1 hJ hc)

/-- A property of the database that no commit breaks holds in every reachable world. -/
theorem Reachable.db_invariant {J : Db → Prop} (init : J .empty)
    (commit : ∀ c s ws, Settled s.db → J s.db → Commits cfg .all c s ws →
      J (store.applyAll ws s.db))
    {w : PosWorld} (h : Reachable cfg w) : J w.shared.db := by
  refine h.invariant (J := fun s => J s.db) init commit (fun _ _ hJ _ => hJ) ?_
  intro e s s' hJ hs
  rw [happen_db hs]
  exact hJ

/-! ## Counting what was committed and announced -/

/-- What the committed logs add up to, over all calls. -/
def committedTotal (w : PosWorld) (d : Call → List Write → ℕ) : ℕ :=
  (w.threads.map fun t => (t.session.committed.map (d t.call)).sum).sum

/-- How many committed writes pass `f`, over all calls. -/
def committedCount (w : PosWorld) (f : Write → Bool) : ℕ :=
  (w.threads.map fun t => t.session.committed.flatten.countP f).sum

/-- How many announcements pass `f`, over all calls. -/
def emittedCount (w : PosWorld) (f : DomainEvent → Bool) : ℕ :=
  (w.threads.map fun t => t.session.published.countP f).sum

/-- Replacing one call changes a sum over the calls by what that call contributes. -/
theorem sum_map_set {ts : List PosThread} {i : ℕ} {t t' : PosThread} (ht : ts[i]? = some t)
    {g : PosThread → ℕ} {d : ℕ} (hd : g t' = g t + d) :
    ((ts.set i t').map g).sum = (ts.map g).sum + d := by
  induction ts generalizing i with
  | nil => cases ht
  | cons u ts ih =>
    cases i with
    | zero =>
      obtain rfl := Option.some.inj ht
      simp only [List.set_cons_zero, List.map_cons, List.sum_cons, hd]
      omega
    | succ i =>
      have hrest := ih (i := i) ht
      simp only [List.set_cons_succ, List.map_cons, List.sum_cons, hrest]
      omega

/-- What relates a total to the database and survives every commit holds in every reachable
world. -/
theorem Reachable.committedTotal_invariant {d : Call → List Write → ℕ} {J : ℕ → Db → Prop}
    (init : J 0 .empty)
    (commit : ∀ c s ws n, Settled s.db → J n s.db → Commits cfg .all c s ws →
      J (n + d c ws) (store.applyAll ws s.db))
    {w : PosWorld} (h : Reachable cfg w) : J (committedTotal w d) w.shared.db := by
  refine Sound.invariant (Context.starts (.plain cfg) opening.shared 0)
    (Context.happens (.plain cfg)) (J := fun v => J (committedTotal v d) v.shared.db)
    ?_ ?_ ?_ ?_ (.initial ⟨.empty, trivial⟩) init h
  · intro v c hJ _
    have hsame : committedTotal ⟨v.shared, v.threads ++ [⟨c, machine.idle,
        some (program cfg c)⟩]⟩ d = committedTotal v d := by
      simp [committedTotal, machine]
    exact hsame ▸ hJ
  · intro v i t o k r l' s' hi hJ ht _ _ hm
    have hsame : l'.committed = t.session.committed → s'.db = v.shared.db →
        J (committedTotal ⟨s', v.threads.set i ⟨t.call, l', some (k r)⟩⟩ d) s'.db := by
      intro hc hdb
      rw [committedTotal, sum_map_set ht (d := 0) (by dsimp only; rw [hc]; rfl), hdb]
      exact hJ
    have hcommit : ∀ ws, l'.committed = t.session.committed ++ [ws] →
        Commits cfg .all t.call v.shared ws → s'.db = store.applyAll ws v.shared.db →
        J (committedTotal ⟨s', v.threads.set i ⟨t.call, l', some (k r)⟩⟩ d) s'.db := by
      intro ws hc hcommits hdb
      rw [committedTotal, sum_map_set ht (d := d t.call ws) (by
        dsimp only
        rw [hc, List.map_append, List.sum_append, List.map_singleton, List.sum_singleton]), hdb]
      exact commit _ _ _ _ hi.1 hJ hcommits
    cases hm with
    | quiet hc _ => exact hsame hc rfl
    | publish _ => exact hsame rfl rfl
    | gateway _ => exact hsame rfl rfl
    | commit hc => exact hcommit _ rfl hc rfl
    | inbox hc => exact hcommit _ rfl hc rfl
  · intro v i t hJ ht _ _
    dsimp only
    rw [committedTotal, sum_map_set ht (d := 0) (by rfl)]
    exact hJ
  · intro v e s' _ hJ _ hs
    rw [happen_db hs]
    exact hJ

/-- What every commit adds to a measure of the database is what its log counts: so the measure
is the count over everything committed. -/
theorem Reachable.committedCount_eq {f : Write → Bool} {m : Db → ℕ} (init : m .empty = 0)
    (commit : ∀ c s ws, Settled s.db → Commits cfg .all c s ws →
      m (store.applyAll ws s.db) = m s.db + ws.countP f)
    {w : PosWorld} (h : Reachable cfg w) : committedCount w f = m w.shared.db := by
  have htotal : committedCount w f = committedTotal w fun _ ws => ws.countP f :=
    congrArg List.sum (List.map_congr_left fun t _ => List.countP_flatten)
  rw [htotal]
  refine h.committedTotal_invariant (J := fun n db => n = m db) init.symm ?_
  intro c s ws n hs hn hc
  rw [commit c s ws hs hc, hn]

/-- What is known of a log when it is committed, and does not change as the state moves on, is
known of every log a call has on record. -/
theorem Reachable.committed_facts {F : Call → List Write → Shared → Prop}
    (grow : ∀ c ws s s', Grows s s' → F c ws s → F c ws s')
    (commit : ∀ c s ws, Settled s.db → Commits cfg .all c s ws → F c ws (s.commit ws))
    {w : PosWorld} (h : Reachable cfg w) :
    ∀ t ∈ w.threads, ∀ ws ∈ t.session.committed, F t.call ws w.shared := by
  refine Sound.invariant (Context.starts (.plain cfg) opening.shared 0)
    (Context.happens (.plain cfg))
    (J := fun v => ∀ t ∈ v.threads, ∀ ws ∈ t.session.committed, F t.call ws v.shared)
    ?_ ?_ ?_ ?_ (.initial ⟨.empty, trivial⟩) (fun _ ht => absurd ht List.not_mem_nil) h
  · intro v c hJ _ t ht
    rcases List.mem_append.mp ht with ht | ht
    · exact hJ t ht
    · rw [List.mem_singleton.mp ht]
      exact fun ws hws => absurd hws List.not_mem_nil
  · intro v i t o k r l' s' hi hJ ht _ _ hm u hu ws hws
    have hgrow := hm.grows hi.1
    have hold : ∀ u ∈ v.threads, ∀ ws ∈ u.session.committed, F u.call ws s' :=
      fun u hu ws hws => grow _ _ _ _ hgrow (hJ u hu ws hws)
    have hmem := List.mem_of_getElem? ht
    rcases List.mem_or_eq_of_mem_set hu with hu | rfl
    · exact hold u hu ws hws
    · cases hm with
      | quiet hc _ =>
        dsimp only at hws
        rw [hc] at hws
        exact hold t hmem ws hws
      | publish _ => exact hold t hmem ws hws
      | gateway _ => exact hold t hmem ws hws
      | commit hc =>
        rcases List.mem_append.mp hws with hws | hws
        · exact hold t hmem ws hws
        · rw [List.mem_singleton.mp hws]
          exact commit _ _ _ hi.1 hc
      | inbox hc =>
        rcases List.mem_append.mp hws with hws | hws
        · exact hold t hmem ws hws
        · rw [List.mem_singleton.mp hws]
          exact commit _ _ _ hi.1 hc
  · intro v i t hJ ht _ _ u hu
    rcases List.mem_or_eq_of_mem_set hu with hu | rfl
    · exact hJ u hu
    · exact hJ t (List.mem_of_getElem? ht)
  · exact fun v e s' _ hJ _ hs u hu ws hws => grow _ _ _ _ (happen_grows hs) (hJ u hu ws hws)

/-- An answer announces what its call committed. -/
theorem Post.announces {Γ : Context cfg} {base s : Shared} {c : Call} {a : Answer} {l : Sess}
    (h : Post Γ base c a l s) : Announces l.published l.committed := by
  have hidle : ∀ {l : Sess}, l = idle → Announces l.published l.committed := by
    rintro _ rfl
    exact announces_idle
  cases a with
  | error e =>
    cases c with
    | createOrder => exact hidle h.1
    | createPayment => exact hidle h.1
    | _ => exact hidle h
  | ok r =>
    cases c with
    | createOrder =>
      obtain ⟨created, -, ⟨-, ⟨ws, rfl, hws⟩, -⟩ | ⟨-, hl, -⟩⟩ := h
      · exact announces_of_unpaying hws fun _ h => absurd h List.not_mem_nil
      · exact hidle hl
    | createPayment =>
      obtain ⟨created, -, hann, -⟩ := h
      exact hann
    | processEvent =>
      obtain ⟨b, -, hann, -⟩ := h
      exact hann
    | _ => exact h

/-- At any moment a call has announced at most what it has committed. -/
structure AnnouncesAtMost (published : List DomainEvent) (committed : List (List Write)) :
    Prop where
  orderPaid : ∀ id, published.countP (DomainEvent.isOrderPaid id) ≤
    committed.flatten.countP (Write.isPaidRow id)
  paymentSucceeded : ∀ id, published.countP (DomainEvent.isPaymentSucceeded id) ≤
    committed.flatten.countP (Write.isCapture id)

theorem Announces.atMost {published : List DomainEvent} {committed : List (List Write)}
    (h : Announces published committed) : AnnouncesAtMost published committed :=
  ⟨fun id => (h.orderPaid id).le, fun id => (h.paymentSucceeded id).le⟩

/-- Committing more leaves room for more announcements. -/
theorem AnnouncesAtMost.commit {published : List DomainEvent} {committed : List (List Write)}
    (h : AnnouncesAtMost published committed) (ws : List Write) :
    AnnouncesAtMost published (committed ++ [ws]) := by
  refine ⟨fun id => ?_, fun id => ?_⟩
  · rw [List.flatten_append, List.countP_append]
    exact Nat.le_add_right_of_le (h.orderPaid id)
  · rw [List.flatten_append, List.countP_append]
    exact Nat.le_add_right_of_le (h.paymentSucceeded id)

theorem Reachable.announcesAtMost {w : PosWorld} (h : Reachable cfg w) :
    ∀ t ∈ w.threads, AnnouncesAtMost t.session.published t.session.committed := by
  refine Sound.invariant (Context.starts (.plain cfg) opening.shared 0)
    (Context.happens (.plain cfg))
    (J := fun v => ∀ t ∈ v.threads, AnnouncesAtMost t.session.published t.session.committed)
    ?_ ?_ ?_ ?_ (.initial ⟨.empty, trivial⟩) (fun _ ht => absurd ht List.not_mem_nil) h
  · intro v c hJ _ t ht
    rcases List.mem_append.mp ht with ht | ht
    · exact hJ t ht
    · rw [List.mem_singleton.mp ht]
      exact announces_idle.atMost
  · intro v i t o k r l' s' _ hJ ht _ _ hm u hu
    rcases List.mem_or_eq_of_mem_set hu with hu | rfl
    · exact hJ u hu
    · have hold := hJ t (List.mem_of_getElem? ht)
      cases hm with
      | quiet hc hp =>
        dsimp only
        rw [hc, hp]
        exact hold
      | publish ha => exact ha.atMost
      | gateway _ => exact hold
      | commit _ => exact hold.commit _
      | inbox _ => exact hold.commit _
  · intro v i t hJ ht _ _ u hu
    rcases List.mem_or_eq_of_mem_set hu with hu | rfl
    · exact hJ u hu
    · exact hJ t (List.mem_of_getElem? ht)
  · exact fun v e s' _ hJ _ _ => hJ

/-! ## What a call leaves behind -/

/-- Along a run a call's record of what it committed only grows. -/
theorem committed_prefix {P : PosPermit} {w w' : PosWorld} (h : Runs (system cfg) P w w') {i : ℕ}
    {t t' : PosThread} (ht : w.threads[i]? = some t) (ht' : w'.threads[i]? = some t') :
    t.session.committed <+: t'.session.committed := by
  have hexec : ∀ {o : Op} {inp : Input} {locked : Row → Bool} {l l' : Sess} {s s' : Shared}
      {r : o.Res}, exec inp locked l s o = some (r, l', s') → l.committed <+: l'.committed := by
    intro o inp locked l l' s s' r hx
    rcases exec_db hx with ⟨hc, -⟩ | ⟨ws, hc, -⟩
    · exact hc.symm ▸ List.prefix_rfl
    · exact hc.symm ▸ List.prefix_append ..
  obtain ⟨t'', ht'', -, hprefix, -⟩ := h.thread
    (R := fun l l' : Sess => l.committed <+: l'.committed) (fun _ => List.prefix_rfl)
    (fun h₁ h₂ => h₁.trans h₂) hexec (fun _ => List.prefix_rfl) ht
  obtain rfl := Option.some.inj (ht''.symm.trans ht')
  exact hprefix

/-- A call that ends with an empty record never changed the database. -/
theorem step_keeps_db {P : PosPermit} {w w₁ w₂ : PosWorld} {i : ℕ} {inp : Input} {t : PosThread}
    (hstep : w.act (system cfg) (.step i inp) = some w₁) (hrun : Runs (system cfg) P w₁ w₂)
    (ht : w₂.threads[i]? = some t) (hempty : t.session.committed = []) :
    w₁.shared.db = w.shared.db := by
  cases World.transition_of_act hstep with
  | step hi hp hx =>
    have hprefix := committed_prefix hrun
      (List.getElem?_set_self (List.getElem?_eq_some_iff.mp hi).1) ht
    rw [hempty, List.prefix_nil] at hprefix
    rcases exec_db hx with ⟨-, hdb⟩ | ⟨ws, hc, -⟩
    · exact hdb
    · rw [hc] at hprefix
      exact absurd hprefix (by simp)

/-! ## Runs on concrete inputs -/

/-- A sequence of actions from the opening, evaluated. -/
theorem Reachable.exists_of_runIf (cfg : Config) (acts : List PosAct) (p : PosWorld → Prop)
    [DecidablePred p]
    (h : (opening.runIf (system cfg) (fun _ _ => true) acts).any (fun w => decide (p w)) = true) :
    ∃ w, Reachable cfg w ∧ p w :=
  Runs.exists_of_runIf (fun w a _ => Runs.allows_all w a) h

/-- The same, where every operation has to pass a check. -/
theorem exists_of_check (cfg : Config) (check : Call → Op → Sess → Shared → Bool)
    (acts : List PosAct) (p : PosWorld → Prop) [DecidablePred p]
    (h : (opening.runIf (system cfg) (World.passes check) acts).any (fun w => decide (p w)) =
      true) : ∃ w, Runs (system cfg) (.ofCheck check) opening w ∧ p w :=
  Runs.exists_of_runIf (fun _ _ => World.allows_of_passes) h

/-- A café that charges 7% VAT in Thai baht and gives a customer ten minutes to pay. Its
one business day never ends, and its fingerprint of a request is the scope alone. -/
def cornerCafe : Config := ⟨700, "THB", 600, fun _ => "2026-01-01", fun scope _ => scope⟩

/-- What the outside supplies to every operation: a menu of one item, a clock that stands
still, and the next ids. -/
def supply (fresh : Id) (stripeId : String) : Input :=
  { fresh, stripeId, now := 5, menu := [⟨1, "Latte", 9000, true, true, []⟩] }

/-- One latte, at the counter. -/
def oneLatte : CreateOrderInput := ⟨.counter, [⟨1, 1, [], none⟩], none, none, false⟩

/-- Call `i` performs its next `n` operations. -/
def steps (i n : ℕ) (inp : Input) : List PosAct := List.replicate n (.step i inp)

/-- Staff member 7 takes an order for one latte; the order gets id 100. -/
def takeOrder : List PosAct :=
  .start (.createOrder (.staff 7) oneLatte none) :: steps 0 8 (supply 100 "")

end CafePos
