import CafePos.Interleaving.Restricted

/-!
# Waiting: no deadlock, and every call is answered

A call waits while a row it needs is held by another one. If every call takes its rows in the
rising order of a rank, calls cannot wait for each other in a circle: a call that waits does so
for one that holds a row of a higher rank than any it holds itself, and ranks are bounded.

* `Spec.asserts` — a condition that holds at every operation of a program, in any interleaving;
* `Rising` — the condition that a call only needs rows that rank above those it holds;
* `Sound.can_step` — if every call abides by it, some call under way can go on;
* `Inevitably.of_progress` — where some call can always go on, every scheduler answers them all,
  because programs are well founded.
-/

namespace Interleaving

variable {S L Row Op In Call E α β γ : Type} {Res : Op → Type}

/-! ## What holds at every operation -/

namespace Spec

variable (G : Spec S L Op Call E) (M : Machine S L Row Op Res In)

/-- `Φ` holds at every operation of the program, just before it, and `Q` at its end. -/
def asserts (Φ : Op → L → S → Prop) (Q : β → L → S → Prop) : Prog Op Res β → L → S → Prop
  | .done a, l, s => Q a l s
  | .op o k, l, s => ∀ s₁, G.After M l s s₁ → Φ o l s₁ ∧ ∀ inp locked r l' s₂,
      M.exec o inp locked l s₁ = some (r, l', s₂) → asserts Φ Q (k r) l' s₂

/-- The guarantee, and `Φ` at every operation. -/
def upholding (Φ : Op → L → S → Prop) : Spec S L Op Call E where
  inv := G.inv
  rely := G.rely
  gua c o l s l' s' := G.gua c o l s l' s' ∧ Φ o l s
  permit := G.permit
  rely_refl := G.rely_refl
  rely_trans := G.rely_trans
  gua_rely hi hg := G.gua_rely hi hg.1
  gua_inv hp hi hg := G.gua_inv hp hi hg.1

variable {G M} {Φ : Op → L → S → Prop}

/-- A weaker goal is easier to reach. -/
theorem asserts_mono {Q Q' : β → L → S → Prop} {m : Prog Op Res β} {l : L} {s : S}
    (hQ : ∀ a l' s', Q a l' s' → Q' a l' s') (h : G.asserts M Φ Q m l s) :
    G.asserts M Φ Q' m l s := by
  induction m generalizing l s with
  | done a => exact hQ a l s h
  | op o k ih =>
    intro s₁ hs₁
    obtain ⟨hΦ, hk⟩ := h s₁ hs₁
    exact ⟨hΦ, fun inp locked r l' s₂ hx => ih r (hk inp locked r l' s₂ hx)⟩

/-- Sequencing. -/
theorem asserts_bind {Q : γ → L → S → Prop} {m : Prog Op Res β} {f : β → Prog Op Res γ} {l : L}
    {s : S} (h : G.asserts M Φ (fun a l s => G.asserts M Φ Q (f a) l s) m l s) :
    G.asserts M Φ Q (m >>= f) l s := by
  induction m generalizing l s with
  | done a => exact h
  | op o k ih =>
    intro s₁ hs₁
    obtain ⟨hΦ, hk⟩ := h s₁ hs₁
    exact ⟨hΦ, fun inp locked r l' s₂ hx => ih r (hk inp locked r l' s₂ hx)⟩

/-- What every operation in `p` carries, a program of such operations carries. -/
theorem asserts_of_only {p : Op → Prop} {I : L → S → Prop}
    (hop : ∀ o l s s₁, p o → I l s → G.After M l s s₁ → Φ o l s₁ ∧ ∀ inp locked r l' s₂,
      M.exec o inp locked l s₁ = some (r, l', s₂) → I l' s₂) {m : Prog Op Res β} (hm : m.Only p)
    {l : L} {s : S} (hI : I l s) : G.asserts M Φ (fun _ => I) m l s := by
  induction m generalizing l s with
  | done b => exact hI
  | op o k ih =>
    intro s₁ hs₁
    obtain ⟨hΦ, hI'⟩ := hop o l s s₁ hm.1 hI hs₁
    exact ⟨hΦ, fun inp locked r l' s₂ hx => ih r (hm.2 r) (hI' inp locked r l' s₂ hx)⟩

/-- A program that stays inside the guarantee and abides by `Φ` does both at once. -/
theorem wp_upholding {c : Call} {Q Q' : β → L → S → Prop} {m : Prog Op Res β} {l : L} {s : S}
    (h : G.wp M c Q m l s) (h' : G.asserts M Φ Q' m l s) :
    (G.upholding Φ).wp M c (fun a l s => Q a l s ∧ Q' a l s) m l s := by
  induction m generalizing l s with
  | done a => exact ⟨h, h'⟩
  | op o k ih =>
    intro s₁ hs₁ hp inp locked r l' s₂ hfree hx
    have hafter : G.After M l s s₁ := ⟨hs₁.rely, hs₁.inv, hs₁.keeps⟩
    obtain ⟨hg, hk⟩ := h s₁ hafter hp inp locked r l' s₂ hfree hx
    obtain ⟨hΦ, hk'⟩ := h' s₁ hafter
    exact ⟨⟨hg, hΦ⟩, ih r hk (hk' inp locked r l' s₂ hx)⟩

end Spec

/-! ## Rows in rising order -/

/-- How the operations of a machine wait: for rows, and for nothing else. -/
structure Waits (M : Machine S L Row Op Res In) where
  /-- the rows an operation has to find free -/
  needs : Op → In → L → S → List Row
  /-- with some supply, an operation runs as soon as these are free -/
  supplied : ∀ o l s, ∃ inp, ∀ locked, (∀ x ∈ needs o inp l s, locked x = false) →
    ∃ r, M.exec o inp locked l s = some r

/-- An operation needs only rows that its call holds, or that rank above all of them. -/
def Rising {M : Machine S L Row Op Res In} (W : Waits M) (rank : S → Row → ℕ) (o : Op) (l : L)
    (s : S) : Prop :=
  ∀ inp, ∀ x ∈ W.needs o inp l s, x ∈ M.held l ∨ ∀ y ∈ M.held l, rank s y < rank s x

/-- `Thread.Running`, decided. -/
def Thread.running (t : Thread L Op Res Call α) : Bool :=
  match t.prog with
  | some (.op _ _) => true
  | _ => false

theorem Thread.running_iff {t : Thread L Op Res Call α} : t.running = true ↔ t.Running := by
  rw [running]
  split
  · rename_i o k h
    exact ⟨fun _ => ⟨o, k, h⟩, fun _ => rfl⟩
  · rename_i h
    exact ⟨fun hf => (by cases hf), fun ⟨o, k, ho⟩ => absurd ho (h o k)⟩

/-- Some call performs its next operation. -/
def World.Steps [DecidableEq Row] (M : System S L Row Op Res In Call E α)
    (w w' : World S L Op Res Call α) : Prop := ∃ i inp, w.act M (.step i inp) = some w'

/-- A call whose process died holds nothing. -/
theorem Runs.died_held [DecidableEq Row] {M : System S L Row Op Res In Call E α}
    {P : Permit S L Op Call E} {s : S} {w : World S L Op Res Call α}
    (h : Runs M P (World.initial s) w) :
    ∀ t ∈ w.threads, t.prog = none → M.machine.held t.session = [] := by
  induction h with
  | refl => exact fun t ht => absurd ht List.not_mem_nil
  | tail _ _ hs ih =>
    cases World.transition_of_act hs with
    | start c =>
      intro t ht hp
      rcases List.mem_append.mp ht with ht | ht
      · exact ih t ht hp
      · rw [List.mem_singleton.mp ht] at hp
        cases hp
    | step _ _ _ =>
      intro t ht hp
      rcases List.mem_or_eq_of_mem_set ht with ht | rfl
      · exact ih t ht hp
      · cases hp
    | crash _ _ =>
      intro t ht hp
      rcases List.mem_or_eq_of_mem_set ht with ht | rfl
      · exact ih t ht hp
      · exact M.machine.abort_held _
    | world _ => exact ih

namespace Sound

variable [DecidableEq Row] {G : Spec S L Op Call E} {M : System S L Row Op Res In Call E α}
  {W : Waits M.machine} {rank : S → Row → ℕ} {base : S} {n : ℕ}
  {post : ℕ → Call → α → L → S → Prop} {w : World S L Op Res Call α}

/-- A call that cannot go on waits for one that holds a row above all of its own. -/
theorem waits_above (h : Sound (G.upholding (Rising W rank)) M base n post w)
    (hpermit : ∀ c o l s, G.permit.step c o l s) {i : ℕ} {t : Thread L Op Res Call α}
    (ht : w.threads[i]? = some t) (hrun : t.Running)
    (hstuck : ¬ ∃ inp w', w.act M (.step i inp) = some w') :
    ∃ (j : ℕ) (u : Thread L Op Res Call α) (x : Row), w.threads[j]? = some u ∧
      x ∈ M.machine.held u.session ∧
        ∀ y ∈ M.machine.held t.session, rank w.shared y < rank w.shared x := by
  obtain ⟨o, k, hp⟩ := hrun
  obtain ⟨inp, hinp⟩ := W.supplied o t.session w.shared
  -- the assertion at this operation: it would run if nobody held a row
  obtain ⟨⟨r, l', s'⟩, hx⟩ := hinp (fun _ => false) fun _ _ => rfl
  have hwp : (G.upholding (Rising W rank)).wp M.machine t.call (post i t.call) (.op o k)
      t.session w.shared := by
    have hok := h.ok ht
    rw [Thread.Ok, hp] at hok
    exact hok
  have hrising : Rising W rank o t.session w.shared :=
    (hwp w.shared (.refl h.inv) (hpermit _ _ _ _) inp _ r l' s' (fun _ _ => rfl) hx).1.2
  by_cases hfree : ∀ x ∈ W.needs o inp t.session w.shared, w.locked M i x = false
  · obtain ⟨⟨r, l', s'⟩, hx⟩ := hinp _ hfree
    refine absurd ⟨inp, ⟨s', w.threads.set i ⟨t.call, l', some (k r)⟩⟩, ?_⟩ hstuck
    simp only [World.act, ht, hp, World.stepThread, hx, Option.map_some]
  · push Not at hfree
    obtain ⟨x, hneeds, hlocked⟩ := hfree
    obtain ⟨j, u, hu, -, hxu⟩ := World.locked_eq_true.mp (eq_true_of_ne_false hlocked)
    refine ⟨j, u, x, hu, hxu, (hrising inp x hneeds).resolve_left fun hown => ?_⟩
    exact hlocked (h.not_locked ht x hown)

/-- **No deadlock**: if rows are taken in rising order and given up at the end, then while a call
is under way some call can perform its next operation. -/
theorem can_step (h : Sound (G.upholding (Rising W rank)) M base n post w)
    (hpermit : ∀ c o l s, G.permit.step c o l s)
    (hreleased : ∀ t ∈ w.threads, ¬ t.Running → M.machine.held t.session = []) {N : ℕ}
    (hrank : ∀ s x, rank s x ≤ N) {i : ℕ} {t : Thread L Op Res Call α}
    (ht : w.threads[i]? = some t) (hrun : t.Running) : ∃ w', w.Steps M w' := by
  by_contra hnone
  have hstuck : ∀ i, ¬ ∃ inp w', w.act M (.step i inp) = some w' :=
    fun i ⟨inp, w', hact⟩ => hnone ⟨w', i, inp, hact⟩
  -- a chain of calls, each waiting for the next, holding rows of ever higher rank
  have hchain : ∀ m : ℕ, ∃ (j : ℕ) (u : Thread L Op Res Call α) (x : Row),
      w.threads[j]? = some u ∧ u.Running ∧ x ∈ M.machine.held u.session ∧ m ≤ rank w.shared x := by
    have hrunning : ∀ {j : ℕ} {u : Thread L Op Res Call α} {x : Row}, w.threads[j]? = some u →
        x ∈ M.machine.held u.session → u.Running := by
      intro j u x hu hx
      by_contra hnot
      rw [hreleased u (List.mem_of_getElem? hu) hnot] at hx
      cases hx
    intro m
    induction m with
    | zero =>
      obtain ⟨j, u, x, hu, hx, -⟩ := h.waits_above hpermit ht hrun (hstuck i)
      exact ⟨j, u, x, hu, hrunning hu hx, hx, Nat.zero_le _⟩
    | succ m ih =>
      obtain ⟨j, u, x, hu, hurun, hx, hm⟩ := ih
      obtain ⟨j', u', x', hu', hx', habove⟩ := h.waits_above hpermit hu hurun (hstuck j)
      exact ⟨j', u', x', hu', hrunning hu' hx', hx', Nat.succ_le_of_lt (hm.trans_lt (habove x hx))⟩
  obtain ⟨j, u, x, -, -, -, hm⟩ := hchain (N + 1)
  have hN := hrank w.shared x
  omega

end Sound

/-! ## Every scheduler comes to an end -/

/-- The program after one more operation. -/
def Prog.Next (q p : Option (Prog Op Res α)) : Prop := ∃ o k r, p = some (.op o k) ∧ q = some (k r)

theorem Prog.wellFounded_next :
    WellFounded (Prog.Next : Option (Prog Op Res α) → Option (Prog Op Res α) → Prop) := by
  have hsome : ∀ p : Prog Op Res α, Acc Prog.Next (some p) := by
    intro p
    induction p with
    | done a =>
      refine ⟨_, fun q h => ?_⟩
      obtain ⟨o, k, r, hp, -⟩ := h
      cases hp
    | op o k ih =>
      refine ⟨_, fun q h => ?_⟩
      obtain ⟨o', k', r, hp, rfl⟩ := h
      cases hp
      exact ih r
  refine ⟨fun p => ?_⟩
  cases p with
  | none =>
    refine ⟨_, fun q h => ?_⟩
    obtain ⟨o, k, r, hp, -⟩ := h
    cases hp
  | some p => exact hsome p

/-- One element of a list replaced, as multisets. -/
theorem coe_set_add {ι : Type} {l : List ι} {i : ℕ} {a b : ι} (h : l[i]? = some a) :
    (↑(l.set i b) : Multiset ι) + {a} = ↑l + {b} := by
  obtain ⟨hi, rfl⟩ := List.getElem?_eq_some_iff.mp h
  have hset : (l.set i b).Perm (b :: l.eraseIdx i) := List.set_perm_cons_eraseIdx hi b
  have hself : l.Perm (l[i] :: l.eraseIdx i) := (List.getElem_cons_eraseIdx_perm hi).symm
  rw [Multiset.coe_eq_coe.mpr hset, Multiset.coe_eq_coe.mpr hself, ← Multiset.cons_coe,
    ← Multiset.cons_coe, ← Multiset.singleton_add, ← Multiset.singleton_add]
  abel

variable [DecidableEq Row] {M : System S L Row Op Res In Call E α}

/-- No run of operations goes on forever. -/
theorem World.wellFounded_steps :
    WellFounded fun w' w : World S L Op Res Call α => w.Steps M w' := by
  refine Subrelation.wf ?_ (InvImage.wf (fun w : World S L Op Res Call α =>
    (↑(w.threads.map Thread.prog) : Multiset (Option (Prog Op Res α))))
    Prog.wellFounded_next.cutExpand)
  rintro w' w ⟨i, inp, hact⟩
  cases World.transition_of_act hact with
  | @step _ _ t o k r l' s' ht hp hx =>
    refine ⟨{some (k r)}, t.prog, fun q hq => ?_, ?_⟩
    · rw [Multiset.mem_singleton.mp hq]
      exact ⟨o, k, r, hp, rfl⟩
    · dsimp only
      rw [List.map_set]
      refine coe_set_add ?_
      rw [List.getElem?_map, ht, Option.map_some]

/-- Whichever call goes next, and whatever the outside supplies to it: as long as calls go on, they
come to `P`, and until then one of them can go on. -/
inductive Inevitably (M : System S L Row Op Res In Call E α) (P : World S L Op Res Call α → Prop) :
    World S L Op Res Call α → Prop
  | now {w : World S L Op Res Call α} : P w → Inevitably M P w
  | later {w : World S L Op Res Call α} : (∃ w', w.Steps M w') →
      (∀ w', w.Steps M w' → Inevitably M P w') → Inevitably M P w

/-- Where some call can always go on, the end comes. -/
theorem Inevitably.of_progress {J P : World S L Op Res Call α → Prop}
    (step : ∀ w w', J w → w.Steps M w' → J w') (progress : ∀ w, J w → ¬ P w → ∃ w', w.Steps M w')
    {w : World S L Op Res Call α} (h : J w) : Inevitably M P w := by
  induction w using (World.wellFounded_steps (M := M)).induction with
  | _ w ih =>
    by_cases hP : P w
    · exact .now hP
    · exact .later (progress w h hP) fun w' hs => ih w' hs (step w w' h hs)

/-- An operation of a call leaves every other call where it is, and none of them dies. -/
theorem World.Steps.thread {w w' : World S L Op Res Call α} (h : w.Steps M w') {j : ℕ}
    {t : Thread L Op Res Call α} (ht : w.threads[j]? = some t) (hp : t.prog ≠ none) :
    ∃ t', w'.threads[j]? = some t' ∧ t'.call = t.call ∧ t'.prog ≠ none := by
  obtain ⟨i, inp, hact⟩ := h
  cases World.transition_of_act hact with
  | @step _ _ u o k r l' s' hu hpu hx =>
    by_cases hij : i = j
    · subst hij
      obtain rfl := Option.some.inj (hu.symm.trans ht)
      exact ⟨_, List.getElem?_set_self (List.getElem?_eq_some_iff.mp hu).1, rfl, by simp⟩
    · exact ⟨t, by rw [List.getElem?_set_ne hij]; exact ht, rfl, hp⟩

end Interleaving
