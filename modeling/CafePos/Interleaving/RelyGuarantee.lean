import CafePos.Interleaving.World

/-!
# Rely-guarantee: proving something of every interleaving, one call at a time

A `Spec` names an invariant of the shared state, a preorder `rely` that every
change of the shared state stays inside, and what one operation of a call may do
(`gua`). `Spec.wp` is the weakest precondition of a program: between any two of its
operations the state may move along `rely`, keeping the invariant and the rows the
call holds, and each operation has to stay inside `gua`.

`Sound.runs` is the adequacy theorem: if every call meets its postcondition from the
state it starts in, then every state of every run satisfies the invariant, and every
answer satisfies its postcondition *at the moment it was given*. What the invariant
does not say is proved afterwards, over whole runs, from `gua` alone
(`Sound.invariant`).
-/

namespace Interleaving

variable {S L Row Op In Call E α β γ : Type} {Res : Op → Type}

/-- What is to be proved of the operations of every call. -/
structure Spec (S L Op Call E : Type) where
  /-- the invariant of the shared state -/
  inv : S → Prop
  /-- how the shared state may move while a call is not looking -/
  rely : S → S → Prop
  /-- what an operation of a call may do to its session and the shared state -/
  gua : Call → Op → L → S → L → S → Prop
  /-- the condition on the actions of the runs considered -/
  permit : Permit S L Op Call E
  rely_refl : ∀ s, rely s s
  rely_trans : ∀ {s t u}, rely s t → rely t u → rely s u
  gua_rely : ∀ {c o l s l' s'}, inv s → gua c o l s l' s' → rely s s'
  gua_inv : ∀ {c o l s l' s'}, permit.step c o l s → inv s → gua c o l s l' s' → inv s'

namespace Spec

variable (G : Spec S L Op Call E) (M : Machine S L Row Op Res In)

/-- The states in which the next operation of a call with session `l` may find
itself, if `s` is the state its last one left. -/
structure After (l : L) (s s₁ : S) : Prop where
  rely : G.rely s s₁
  inv : G.inv s₁
  keeps : ∀ x ∈ M.held l, M.keeps x s s₁

/-- The weakest precondition of a program of call `c`. -/
def wp (c : Call) (Q : β → L → S → Prop) : Prog Op Res β → L → S → Prop
  | .done a, l, s => Q a l s
  | .op o k, l, s => ∀ s₁, G.After M l s s₁ → G.permit.step c o l s₁ →
      ∀ inp locked r l' s₂, (∀ x ∈ M.held l, locked x = false) →
        M.exec o inp locked l s₁ = some (r, l', s₂) →
        G.gua c o l s₁ l' s₂ ∧ wp c Q (k r) l' s₂

variable {G M}

theorem After.refl {l : L} {s : S} (h : G.inv s) : G.After M l s s :=
  ⟨G.rely_refl s, h, fun x _ => M.keeps_refl x s⟩

theorem After.trans {l : L} {s t u : S} (h₁ : G.After M l s t) (h₂ : G.After M l t u) :
    G.After M l s u :=
  ⟨G.rely_trans h₁.rely h₂.rely, h₂.inv,
    fun x hx => M.keeps_trans x _ _ _ (h₁.keeps x hx) (h₂.keeps x hx)⟩

/-- Holding fewer rows, a call knows less about the next state. -/
theorem After.of_held {l l' : L} {s t : S} (h : G.After M l' s t)
    (hl : ∀ x ∈ M.held l, x ∈ M.held l') : G.After M l s t :=
  ⟨h.rely, h.inv, fun x hx => h.keeps x (hl x hx)⟩

@[simp] theorem wp_done {c : Call} {Q : β → L → S → Prop} {a : β} {l : L} {s : S} :
    G.wp M c Q (.done a) l s ↔ Q a l s := Iff.rfl

/-- Sequencing: what the second program needs is what the first has to establish. -/
theorem wp_bind {c : Call} {Q : γ → L → S → Prop} {m : Prog Op Res β}
    {f : β → Prog Op Res γ} {l : L} {s : S}
    (h : G.wp M c (fun a l s => G.wp M c Q (f a) l s) m l s) : G.wp M c Q (m >>= f) l s := by
  induction m generalizing l s with
  | done a => exact h
  | op o k ih =>
    intro s₁ hs₁ hp inp locked r l' s₂ hfree hx
    obtain ⟨hg, hk⟩ := h s₁ hs₁ hp inp locked r l' s₂ hfree hx
    exact ⟨hg, ih r hk⟩

/-- A program that still has an operation to perform does not mind the state moving. -/
theorem wp_after {c : Call} {Q : β → L → S → Prop} {o : Op} {k : Res o → Prog Op Res β}
    {l : L} {s t : S} (h : G.wp M c Q (.op o k) l s) (ht : G.After M l s t) :
    G.wp M c Q (.op o k) l t :=
  fun s₁ hs₁ hp => h s₁ (ht.trans hs₁) hp

/-- `G'` considers fewer runs than `G` and asks no more of an operation. -/
structure Within (G' G : Spec S L Op Call E) : Prop where
  inv : ∀ {s}, G'.inv s → G.inv s
  rely : ∀ {s t}, G'.rely s t → G.rely s t
  permit : ∀ {c o l s}, G'.permit.step c o l s → G.permit.step c o l s
  gua : ∀ {c o l s l' s'}, G.gua c o l s l' s' → G'.gua c o l s l' s'

theorem Within.refl (G : Spec S L Op Call E) : Within G G :=
  ⟨fun h => h, fun h => h, fun h => h, fun h => h⟩

/-- What is proved of a program holds in fewer runs too, with any weaker
postcondition; the state it ends in is one that `rely` leads to. -/
theorem wp_within {G' : Spec S L Op Call E} (hG : Within G' G) {c : Call}
    {Q Q' : β → L → S → Prop} {m : Prog Op Res β} {l : L} {s : S}
    (hQ : ∀ a l' s', G'.rely s s' → Q a l' s' → Q' a l' s') (h : G.wp M c Q m l s) :
    G'.wp M c Q' m l s := by
  induction m generalizing l s with
  | done a => exact hQ a l s (G'.rely_refl s) h
  | op o k ih =>
    intro s₁ hs₁ hp inp locked r l' s₂ hfree hx
    have hs : G.After M l s s₁ := ⟨hG.rely hs₁.rely, hG.inv hs₁.inv, hs₁.keeps⟩
    obtain ⟨hg, hk⟩ := h s₁ hs (hG.permit hp) inp locked r l' s₂ hfree hx
    refine ⟨hG.gua hg, ih r (fun a l'' s'' hr hq => hQ a l'' s'' ?_ hq) hk⟩
    exact G'.rely_trans hs₁.rely (G'.rely_trans (G'.gua_rely hs₁.inv (hG.gua hg)) hr)

/-- A weaker postcondition is easier to reach. -/
theorem wp_mono {c : Call} {Q Q' : β → L → S → Prop} {m : Prog Op Res β} {l : L} {s : S}
    (hQ : ∀ a l' s', G.rely s s' → Q a l' s' → Q' a l' s') (h : G.wp M c Q m l s) :
    G.wp M c Q' m l s :=
  wp_within (Within.refl G) hQ h

end Spec

section adequacy

variable (G : Spec S L Op Call E) (M : System S L Row Op Res In Call E α)

/-- Call `t` is on its way to the postcondition `Q`, or has met it. -/
def Thread.Ok (Q : α → L → S → Prop) (t : Thread L Op Res Call α) (s : S) : Prop :=
  match t.prog with
  | none => True
  | some (.done a) => ∃ s₀, G.inv s₀ ∧ G.rely s₀ s ∧ Q a t.session s₀
  | some (.op o k) => G.wp M.machine t.call Q (.op o k) t.session s

/-- The invariant of worlds since the state `base`, in which `n` calls had been
started: the shared state is fine, no row is held twice, and call number `i` is on
its way to `post i`, or has met it. -/
structure Sound (base : S) (n : ℕ) (post : ℕ → Call → α → L → S → Prop)
    (w : World S L Op Res Call α) : Prop where
  inv : G.inv w.shared
  since : G.rely base w.shared
  size : n ≤ w.threads.length
  apart : ∀ {i j : ℕ} {t u : Thread L Op Res Call α}, w.threads[i]? = some t →
    w.threads[j]? = some u → i ≠ j →
    ∀ x ∈ M.machine.held t.session, x ∉ M.machine.held u.session
  ok : ∀ {i : ℕ} {t : Thread L Op Res Call α}, w.threads[i]? = some t →
    t.Ok G M (post i t.call) w.shared

variable {G M}

/-- What `World.locked` says. -/
theorem World.locked_eq_true [DecidableEq Row] {w : World S L Op Res Call α} {i : ℕ} {x : Row} :
    w.locked M i x = true ↔ ∃ j t, w.threads[j]? = some t ∧ j ≠ i ∧
      x ∈ M.machine.held t.session := by
  simp only [World.locked, List.any_eq_true, Bool.and_eq_true, decide_eq_true_eq, Prod.exists,
    List.mem_zipIdx_iff_getElem?]
  constructor
  · rintro ⟨t, j, ht, hj, hx⟩
    exact ⟨j, t, ht, hj, hx⟩
  · rintro ⟨j, t, ht, hj, hx⟩
    exact ⟨t, j, ht, hj, hx⟩

/-- A call that is not looking survives any permitted move of the state. -/
theorem Thread.Ok.after {Q : α → L → S → Prop} {t : Thread L Op Res Call α} {s s' : S}
    (h : t.Ok G M Q s) (hs : G.After M.machine t.session s s') : t.Ok G M Q s' := by
  obtain ⟨c, l, p⟩ := t
  rcases p with _ | p
  · trivial
  · cases p with
    | done a =>
      obtain ⟨s₀, hi, hr, hp⟩ := h
      exact ⟨s₀, hi, G.rely_trans hr hs.rely, hp⟩
    | op o k => exact Spec.wp_after h hs

/-- A program that meets its specification makes an acceptable call. -/
theorem Thread.Ok.of_wp {Q : α → L → S → Prop} {c : Call} {l : L} {p : Prog Op Res α} {s : S}
    (h : G.wp M.machine c Q p l s) (hi : G.inv s) : (Thread.mk c l (some p)).Ok G M Q s := by
  cases p with
  | done a => exact ⟨s, hi, G.rely_refl s, h⟩
  | op o k => exact h

/-- The world's own calls: from every state of a sound run, a call that starts is on
its way to its postcondition. -/
def Starts (G : Spec S L Op Call E) (M : System S L Row Op Res In Call E α) (base : S) (n : ℕ)
    (post : ℕ → Call → α → L → S → Prop) : Prop :=
  ∀ i c s, n ≤ i → G.permit.start c → G.inv s → G.rely base s →
    G.wp M.machine c (post i c) (M.program c) M.machine.idle s

/-- What happens by itself keeps the invariant, and moves the state along `rely`. -/
def Happens (G : Spec S L Op Call E) (M : System S L Row Op Res In Call E α) : Prop :=
  ∀ e s s', G.permit.world e → G.inv s → M.world e s = some s' → G.inv s' ∧ G.rely s s'

namespace Sound

variable {base : S} {n : ℕ} {post : ℕ → Call → α → L → S → Prop} {w w' : World S L Op Res Call α}

/-- A world without calls is sound as soon as its state is. -/
theorem initial {s : S} (h : G.inv s) :
    Sound G M s 0 post (World.initial s : World S L Op Res Call α) where
  inv := h
  since := G.rely_refl s
  size := Nat.zero_le _
  apart := by simp [World.initial]
  ok := by simp [World.initial]

/-- Begin again from here: the calls already started keep what they are on their way
to (in fewer runs, and ending no earlier than now), the others get a new goal. -/
theorem rebase {G' : Spec S L Op Call E} {post' : ℕ → Call → α → L → S → Prop}
    (hG : Spec.Within G' G) (h : Sound G M base n post w) (hinv : G'.inv w.shared)
    (hdone : ∀ i t a s, w.threads[i]? = some t → t.Answered a → G.inv s → G.rely s w.shared →
      post i t.call a t.session s → ∃ s', G'.inv s' ∧ G'.rely s' w.shared ∧
        post' i t.call a t.session s')
    (hrun : ∀ i t a l s, w.threads[i]? = some t → t.Running → G'.rely w.shared s →
      post i t.call a l s → post' i t.call a l s) :
    Sound G' M w.shared w.threads.length post' w where
  inv := hinv
  since := G'.rely_refl _
  size := Nat.le_refl _
  apart := h.apart
  ok := by
    intro i t ht
    have hok := h.ok ht
    have hd := hdone i t
    have hr := hrun i t
    obtain ⟨c, l, p⟩ := t
    rcases p with _ | p
    · trivial
    · cases p with
      | done a =>
        obtain ⟨s₀, hi, hs₀, hp⟩ := hok
        exact hd a s₀ ht rfl hi hs₀ hp
      | op o k => exact Spec.wp_within hG (fun a l' s' hs' => hr a l' s' ht ⟨o, k, rfl⟩ hs') hok

/-- The session of call `i` becomes `l'`, its program `p'`, and the state moves to
`s'`: the world stays sound if the new rows were free, the other calls do not mind,
and call `i` is acceptable. -/
theorem set [DecidableEq Row] (h : Sound G M base n post w) {i : ℕ}
    {t : Thread L Op Res Call α} {l' : L}
    {p' : Option (Prog Op Res α)} {s' : S} (ht : w.threads[i]? = some t)
    (hinv : G.inv s') (hrely : G.rely w.shared s')
    (hheld : ∀ x ∈ M.machine.held l', x ∈ M.machine.held t.session ∨ w.locked M i x = false)
    (hkeeps : ∀ x, w.locked M i x = true → M.machine.keeps x w.shared s')
    (hok : (Thread.mk t.call l' p').Ok G M (post i t.call) s') :
    Sound G M base n post ⟨s', w.threads.set i ⟨t.call, l', p'⟩⟩ := by
  have hlt : i < w.threads.length := (List.getElem?_eq_some_iff.mp ht).1
  have hself : (w.threads.set i ⟨t.call, l', p'⟩)[i]? = some ⟨t.call, l', p'⟩ :=
    List.getElem?_set_self hlt
  -- the rows of call `i` and those of any other call stay apart
  have hother : ∀ {j : ℕ} {u : Thread L Op Res Call α}, j ≠ i → w.threads[j]? = some u →
      ∀ x ∈ M.machine.held u.session, x ∉ M.machine.held l' := by
    intro j u hj hu x hx hx'
    rcases hheld x hx' with hxt | hxf
    · exact h.apart hu ht hj x hx hxt
    · rw [World.locked_eq_true.mpr ⟨j, u, hu, hj, hx⟩] at hxf
      cases hxf
  refine ⟨hinv, G.rely_trans h.since hrely, ?_, ?_, ?_⟩
  · rw [List.length_set]
    exact h.size
  · intro j k u v hu hv hjk x hxu hxv
    by_cases hj : j = i
    · subst hj
      rw [hself] at hu
      obtain rfl := Option.some.inj hu
      rw [List.getElem?_set_ne hjk] at hv
      exact hother (Ne.symm hjk) hv x hxv hxu
    · rw [List.getElem?_set_ne (Ne.symm hj)] at hu
      by_cases hk : k = i
      · subst hk
        rw [hself] at hv
        obtain rfl := Option.some.inj hv
        exact hother hj hu x hxu hxv
      · rw [List.getElem?_set_ne (Ne.symm hk)] at hv
        exact h.apart hu hv hjk x hxu hxv
  · intro j u hu
    by_cases hj : j = i
    · subst hj
      rw [hself] at hu
      obtain rfl := Option.some.inj hu
      exact hok
    · rw [List.getElem?_set_ne (Ne.symm hj)] at hu
      refine (h.ok hu).after ⟨hrely, hinv, fun x hx => hkeeps x ?_⟩
      exact World.locked_eq_true.mpr ⟨j, u, hu, hj, hx⟩

/-- The rows call `i` holds are held by nobody else. -/
theorem not_locked [DecidableEq Row] (h : Sound G M base n post w) {i : ℕ}
    {t : Thread L Op Res Call α}
    (ht : w.threads[i]? = some t) : ∀ x ∈ M.machine.held t.session, w.locked M i x = false := by
  intro x hx
  cases hl : w.locked M i x
  · rfl
  · obtain ⟨j, u, hu, hj, hxu⟩ := World.locked_eq_true.mp hl
    exact absurd hxu (h.apart ht hu (Ne.symm hj) x hx)

/-- Every permitted operation of a sound world stays inside the guarantee, and its
call stays on its way. -/
theorem step [DecidableEq Row] (h : Sound G M base n post w) {i : ℕ} {inp : In}
    {t : Thread L Op Res Call α} {o : Op} {k : Res o → Prog Op Res α} {r : Res o} {l' : L} {s' : S}
    (ht : w.threads[i]? = some t) (hp : t.prog = some (.op o k))
    (hpermit : G.permit.step t.call o t.session w.shared)
    (hx : M.machine.exec o inp (w.locked M i) t.session w.shared = some (r, l', s')) :
    G.gua t.call o t.session w.shared l' s' ∧
      G.wp M.machine t.call (post i t.call) (k r) l' s' := by
  have hwp : G.wp M.machine t.call (post i t.call) (.op o k) t.session w.shared := by
    have hok := h.ok ht
    rw [Thread.Ok, hp] at hok
    exact hok
  exact hwp w.shared (.refl h.inv) hpermit inp _ r l' s' (h.not_locked ht) hx

/-- Step lemma: every permitted action keeps a world sound. -/
theorem act [DecidableEq Row] (hstart : Starts G M base n post) (hworld : Happens G M)
    (h : Sound G M base n post w) {a : Act In Call E} (ha : G.permit.Allows w a)
    (hs : w.act M a = some w') : Sound G M base n post w' := by
  cases World.transition_of_act hs with
  | start c =>
    have hnew : ∀ {i : ℕ} {t : Thread L Op Res Call α},
        (w.threads ++ [⟨c, M.machine.idle, some (M.program c)⟩])[i]? = some t →
        w.threads[i]? = some t ∨
          w.threads.length ≤ i ∧ t = ⟨c, M.machine.idle, some (M.program c)⟩ := by
      intro i t ht
      rw [List.getElem?_append] at ht
      split at ht
      · exact Or.inl ht
      · rename_i hi
        exact Or.inr ⟨Nat.not_lt.mp hi, List.mem_singleton.mp (List.mem_of_getElem? ht)⟩
    refine ⟨h.inv, h.since, ?_, ?_, ?_⟩
    · rw [List.length_append]
      exact Nat.le_add_right_of_le h.size
    · intro i j t u ht hu hij x hxt hxu
      rcases hnew ht with ht | ⟨-, rfl⟩
      · rcases hnew hu with hu | ⟨-, rfl⟩
        · exact h.apart ht hu hij x hxt hxu
        · simp [M.machine.idle_held] at hxu
      · simp [M.machine.idle_held] at hxt
    · intro i t ht
      rcases hnew ht with ht | ⟨hi, rfl⟩
      · exact h.ok ht
      · exact .of_wp (hstart i c w.shared (Nat.le_trans h.size hi) ha h.inv h.since) h.inv
  | step ht hp hx =>
    have hpermit := ha _ _ _ ht hp
    obtain ⟨hg, hk⟩ := h.step ht hp hpermit hx
    have hinv := G.gua_inv hpermit h.inv hg
    exact h.set ht hinv (G.gua_rely h.inv hg) (M.machine.exec_held hx)
      (M.machine.exec_keeps hx (h.not_locked ht)) (.of_wp hk hinv)
  | crash ht _ =>
    refine h.set ht h.inv (G.rely_refl _) ?_ (fun x _ => M.machine.keeps_refl x _) trivial
    intro x hx
    simp [M.machine.abort_held] at hx
  | world hs' =>
    obtain ⟨hinv, hrely⟩ := hworld _ _ _ ha h.inv hs'
    refine ⟨hinv, G.rely_trans h.since hrely, h.size, h.apart, fun ht => (h.ok ht).after ?_⟩
    exact ⟨hrely, hinv, fun x _ => M.world_keeps hs' x⟩

/-- **Adequacy**: if every call that starts is on its way to its postcondition, every
state of every permitted run is sound. -/
theorem runs [DecidableEq Row] (hstart : Starts G M base n post) (hworld : Happens G M)
    (h : Sound G M base n post w) (hr : Runs M G.permit w w') : Sound G M base n post w' := by
  induction hr with
  | refl => exact h
  | tail _ ha hs ih => exact ih.act hstart hworld ha hs

/-- An answer met its postcondition when it was given. -/
theorem answered (h : Sound G M base n post w) {i : ℕ} {t : Thread L Op Res Call α} {a : α}
    (ht : w.threads[i]? = some t) (ha : t.Answered a) :
    ∃ s₀, G.inv s₀ ∧ G.rely s₀ w.shared ∧ post i t.call a t.session s₀ := by
  have hok := h.ok ht
  rw [Thread.Ok, ha] at hok
  exact hok

/-- **The invariant rule**: what every start, every operation inside the guarantee,
every crash and everything that happens by itself preserves, holds in every world of
every permitted run. -/
theorem invariant [DecidableEq Row] (hstart : Starts G M base n post) (hworld : Happens G M)
    {J : World S L Op Res Call α → Prop}
    (start : ∀ v c, J v → G.permit.start c →
      J ⟨v.shared, v.threads ++ [⟨c, M.machine.idle, some (M.program c)⟩]⟩)
    (step : ∀ (v : World S L Op Res Call α) i t o (k : Res o → Prog Op Res α) r l' s',
      G.inv v.shared → J v → v.threads[i]? = some t → t.prog = some (.op o k) →
      G.permit.step t.call o t.session v.shared → G.gua t.call o t.session v.shared l' s' →
      J ⟨s', v.threads.set i ⟨t.call, l', some (k r)⟩⟩)
    (crash : ∀ v i t, J v → v.threads[i]? = some t → t.Running → G.permit.crash →
      J ⟨v.shared, v.threads.set i ⟨t.call, M.machine.abort t.session, none⟩⟩)
    (world : ∀ v e s', G.inv v.shared → J v → G.permit.world e → M.world e v.shared = some s' →
      J ⟨s', v.threads⟩)
    (h : Sound G M base n post w) (hJ : J w) (hr : Runs M G.permit w w') : J w' := by
  have key : Sound G M base n post w' ∧ J w' := by
    induction hr with
    | refl => exact ⟨h, hJ⟩
    | tail _ ha hs ih =>
      obtain ⟨hv, hJv⟩ := ih
      refine ⟨hv.act hstart hworld ha hs, ?_⟩
      cases World.transition_of_act hs with
      | start c => exact start _ c hJv ha
      | step ht hp hx =>
        have hpermit := ha _ _ _ ht hp
        exact step _ _ _ _ _ _ _ _ hv.inv hJv ht hp hpermit (hv.step ht hp hpermit hx).1
      | crash ht hrun => exact crash _ _ _ hJv ht hrun ha
      | world hs' => exact world _ _ _ hv.inv hJv ha hs'
  exact key.2

/-- The invariant rule for a property of the shared state alone. -/
theorem shared_invariant [DecidableEq Row] (hstart : Starts G M base n post)
    (hworld : Happens G M) {J : S → Prop}
    (step : ∀ c o l s l' s', G.inv s → J s → G.permit.step c o l s → G.gua c o l s l' s' → J s')
    (world : ∀ e s s', G.inv s → J s → G.permit.world e → M.world e s = some s' → J s')
    (h : Sound G M base n post w) (hJ : J w.shared) (hr : Runs M G.permit w w') : J w'.shared := by
  refine h.invariant hstart hworld (J := fun v => J v.shared) ?_ ?_ ?_ ?_ hJ hr
  · exact fun _ _ hJ _ => hJ
  · exact fun v i t o _ _ l' s' hi hJ _ _ hp hg => step t.call o t.session _ l' s' hi hJ hp hg
  · exact fun _ _ _ hJ _ _ _ => hJ
  · exact fun v e s' hi hJ hp hs => world e _ s' hi hJ hp hs

end Sound

end adequacy

end Interleaving
