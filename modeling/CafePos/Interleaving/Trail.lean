import CafePos.Interleaving.World

/-!
# Runs that remember, and the operation that decided an answer

A `Trail` is a run together with every action it consists of, each in the world it was taken
in; so one may speak of what a call found *during* the run and not only of what is there at its
end. Besides the actions, something outside the system may change the shared state, along a
relation `D`.

* `operations i vs` — the operations call `i` performed, with its session and the state it
  performed each of them in;
* `Prog.decides` — among the operations of a kind `ρ`, the last one decides the answer of the
  program: `Ψ o l s` is what it may answer after it has performed `o` with session `l` in
  state `s`, and `Φ` what it may answer if it performs none;
* `Trail.decided` — such a condition on the program of a call is one on its answer and the
  operations on the trail.
-/

namespace Interleaving

variable {S L Row Op In Call E α β γ : Type} {Res : Op → Type}

/-! ## Trails -/

/-- A run with its actions, each in the world it was taken in. -/
inductive Trail [DecidableEq Row] (M : System S L Row Op Res In Call E α)
    (P : Permit S L Op Call E) (D : S → S → Prop) (w₀ : World S L Op Res Call α) :
    List (World S L Op Res Call α × Act In Call E) → World S L Op Res Call α → Prop
  | refl : Trail M P D w₀ [] w₀
  | tail {vs : List (World S L Op Res Call α × Act In Call E)} {w w' : World S L Op Res Call α}
      {a : Act In Call E} : Trail M P D w₀ vs w → P.Allows w a → w.act M a = some w' →
      Trail M P D w₀ (vs ++ [(w, a)]) w'
  /-- something outside the system changes the state -/
  | disturb {vs : List (World S L Op Res Call α × Act In Call E)} {w : World S L Op Res Call α}
      {s : S} : Trail M P D w₀ vs w → D w.shared s → Trail M P D w₀ vs ⟨s, w.threads⟩

/-- The operation that call `i` performs by this action, with its session and the state. -/
def World.operation (i : ℕ) (w : World S L Op Res Call α) :
    Act In Call E → Option (Op × L × S)
  | .step j _ =>
    if j = i then
      match w.threads[i]? with
      | some t =>
        match t.prog with
        | some (.op o _) => some (o, t.session, w.shared)
        | _ => none
      | none => none
    else none
  | _ => none

/-- The operations call `i` performed. -/
def operations (i : ℕ) (vs : List (World S L Op Res Call α × Act In Call E)) :
    List (Op × L × S) :=
  vs.filterMap fun x => x.1.operation i x.2

theorem operations_append (i : ℕ) (vs : List (World S L Op Res Call α × Act In Call E))
    (w : World S L Op Res Call α) (a : Act In Call E) :
    operations i (vs ++ [(w, a)]) = operations i vs ++ (w.operation i a).toList := by
  rw [operations, List.filterMap_append]
  cases h : w.operation i a with
  | none => simp [operations, h]
  | some x => simp [operations, h]

theorem World.operation_self {w : World S L Op Res Call α} {i : ℕ} {inp : In}
    {t : Thread L Op Res Call α} {o : Op} {k : Res o → Prog Op Res α}
    (ht : w.threads[i]? = some t) (hp : t.prog = some (.op o k)) :
    w.operation i (.step i inp : Act In Call E) = some (o, t.session, w.shared) := by
  simp [World.operation, ht, hp]

theorem World.operation_ne {w : World S L Op Res Call α} {i j : ℕ} {inp : In} (h : j ≠ i) :
    w.operation i (.step j inp : Act In Call E) = none := by
  simp [World.operation, h]

/-- An operation is performed by a call that is under way. -/
theorem World.operation_eq_some {w : World S L Op Res Call α} {i : ℕ} {a : Act In Call E} {o : Op}
    {l : L} {s : S} (h : w.operation i a = some (o, l, s)) : ∃ inp t k, a = .step i inp ∧
      w.threads[i]? = some t ∧ t.prog = some (.op o k) ∧ l = t.session ∧ s = w.shared := by
  cases a with
  | step j inp =>
    simp only [World.operation] at h
    split at h
    · rename_i hj
      subst hj
      split at h
      · rename_i t ht
        split at h
        · rename_i o' k hp
          obtain ⟨rfl, rfl, rfl⟩ := Option.some.inj h |> Prod.mk.inj |>.imp_right Prod.mk.inj
          exact ⟨inp, t, k, rfl, ht, hp, rfl, rfl⟩
        · cases h
      · cases h
    · cases h
  | start c => cases h
  | crash j => cases h
  | world e => cases h

namespace Trail

variable [DecidableEq Row] {M : System S L Row Op Res In Call E α} {P : Permit S L Op Call E}
  {D : S → S → Prop} {w₀ w : World S L Op Res Call α}
  {vs : List (World S L Op Res Call α × Act In Call E)}

/-- Without disturbance a trail is a run. -/
theorem runs (h : Trail M P (fun _ _ => False) w₀ vs w) : Runs M P w₀ w := by
  induction h with
  | refl => exact .refl
  | tail _ ha hs ih => exact ih.tail ha hs
  | disturb _ hD => exact hD.elim

/-- Every action was permitted, in a world that a trail leads to. -/
theorem allows (h : Trail M P D w₀ vs w) {v : World S L Op Res Call α} {a : Act In Call E}
    (hv : (v, a) ∈ vs) : P.Allows v a ∧ ∃ us, Trail M P D w₀ us v := by
  induction h with
  | refl => cases hv
  | tail h' ha _ ih =>
    rcases List.mem_append.mp hv with hold | hnew
    · exact ih hold
    · obtain ⟨rfl, rfl⟩ := Prod.mk.inj (List.mem_singleton.mp hnew)
      exact ⟨ha, _, h'⟩
  | disturb _ _ ih => exact ih hv

/-- A call that has not started has performed nothing. -/
theorem operations_eq_nil (h : Trail M P D w₀ vs w) {i : ℕ} (hi : w.threads.length ≤ i) :
    operations i vs = [] := by
  induction h with
  | refl => rfl
  | @tail vs v w' a _ _ hs ih =>
    -- the list of calls never gets shorter
    have hlen : v.threads.length ≤ w'.threads.length := by
      cases World.transition_of_act hs with
      | start c => simp
      | step => simp
      | crash => simp
      | world => simp
    have hnone : v.operation i a = none := by
      rw [Option.eq_none_iff_forall_ne_some]
      rintro ⟨o, l, s⟩ hop
      obtain ⟨inp, t, k, -, ht, -⟩ := World.operation_eq_some hop
      have hlt := (List.getElem?_eq_some_iff.mp ht).1
      omega
    rw [operations_append, ih (hlen.trans hi), hnone]
    rfl
  | disturb _ _ ih => exact ih hi

end Trail

/-- A sequence of actions each of which passes a check, with the worlds they are taken in. -/
def World.trailIf [DecidableEq Row] (M : System S L Row Op Res In Call E α)
    (passes : World S L Op Res Call α → Act In Call E → Bool) (w : World S L Op Res Call α) :
    List (Act In Call E) →
      Option (List (World S L Op Res Call α × Act In Call E) × World S L Op Res Call α)
  | [] => some ([], w)
  | a :: as =>
    if passes w a then
      (w.act M a).bind fun w' => (w'.trailIf M passes as).map fun x => ((w, a) :: x.1, x.2)
    else none

/-- A sequence of actions that pass a check is a trail, if what passes is permitted. -/
theorem Trail.of_trailIf [DecidableEq Row] {M : System S L Row Op Res In Call E α}
    {P : Permit S L Op Call E} {D : S → S → Prop}
    {passes : World S L Op Res Call α → Act In Call E → Bool}
    (hpasses : ∀ w a, passes w a = true → P.Allows w a) {w₀ w w' : World S L Op Res Call α}
    {vs us : List (World S L Op Res Call α × Act In Call E)} (h : Trail M P D w₀ vs w)
    {as : List (Act In Call E)} (hr : w.trailIf M passes as = some (us, w')) :
    Trail M P D w₀ (vs ++ us) w' := by
  induction as generalizing w vs us with
  | nil =>
    obtain ⟨rfl, rfl⟩ := Prod.mk.inj (Option.some.inj hr)
    rw [List.append_nil]
    exact h
  | cons a as ih =>
    rw [World.trailIf] at hr
    split at hr
    · rename_i ha
      obtain ⟨w₁, hact, hr'⟩ := Option.bind_eq_some_iff.mp hr
      obtain ⟨⟨us', w₂⟩, hrest, heq⟩ := Option.map_eq_some_iff.mp hr'
      obtain ⟨rfl, rfl⟩ := Prod.mk.inj heq
      have hcat : vs ++ (w, a) :: us' = vs ++ [(w, a)] ++ us' := by simp
      rw [hcat]
      exact ih (h.tail (hpasses w a ha) hact) hrest
    · cases hr

/-- `G` holds between the states of any two worlds of a trail, in their order. -/
structure Trail.Respects [DecidableEq Row] (M : System S L Row Op Res In Call E α)
    (P : Permit S L Op Call E) (D : S → S → Prop) (w₀ : World S L Op Res Call α)
    (G : S → S → Prop) : Prop where
  refl : ∀ {vs w}, Trail M P D w₀ vs w → G w.shared w.shared
  trans : ∀ {s₁ s₂ s₃}, G s₁ s₂ → G s₂ s₃ → G s₁ s₃
  act : ∀ {vs w w' a}, Trail M P D w₀ vs w → P.Allows w a → w.act M a = some w' →
    G w.shared w'.shared
  disturb : ∀ {vs w s}, Trail M P D w₀ vs w → D w.shared s → G w.shared s

/-! ## The operation that decides -/

section decides

variable {M : Machine S L Row Op Res In} {G : S → S → Prop} {ρ : Op → Bool}
  {Ψ : Op → L → S → β → L → S → Prop}

/-- The program answers within `Φ`, or, if it performs an operation of the kind `ρ`, within
what the last of these leaves it. Between two operations the state moves along `G`. -/
def Prog.decides (M : Machine S L Row Op Res In) (G : S → S → Prop) (ρ : Op → Bool)
    (Ψ : Op → L → S → β → L → S → Prop) :
    Prog Op Res β → (β → L → S → Prop) → L → S → Prop
  | .done a, Φ, l, s => Φ a l s
  | .op o k, Φ, l, s₀ => ∀ inp locked s r l' s', G s₀ s →
      M.exec o inp locked l s = some (r, l', s') →
      (k r).decides M G ρ Ψ (if ρ o then Ψ o l s else Φ) l' s'

/-- A program that answers within less answers within more. -/
theorem Prog.decides_mono {Ψ' : Op → L → S → β → L → S → Prop} {Φ Φ' : β → L → S → Prop}
    (hΨ : ∀ o l s a l' s', ρ o = true → Ψ' o l s a l' s' → Ψ o l s a l' s')
    (hΦ : ∀ a l s, Φ' a l s → Φ a l s) {m : Prog Op Res β} {l : L} {s : S}
    (h : m.decides M G ρ Ψ' Φ' l s) : m.decides M G ρ Ψ Φ l s := by
  induction m generalizing Φ Φ' l s with
  | done a => exact hΦ a l s h
  | op o k ih =>
    intro inp locked s₁ r l' s' hG hx
    refine ih r ?_ (h inp locked s₁ r l' s' hG hx)
    intro a l'' s'' ha
    split at ha
    · rename_i hρ
      rw [if_pos hρ]
      exact hΨ o l s₁ a l'' s'' hρ ha
    · rename_i hρ
      rw [if_neg hρ]
      exact hΦ a l'' s'' ha

/-- Sequencing. -/
theorem Prog.decides_bind {Ψ : Op → L → S → γ → L → S → Prop} {Φ : γ → L → S → Prop}
    {m : Prog Op Res β} {f : β → Prog Op Res γ} {l : L} {s : S}
    (h : m.decides M G ρ (fun o l s b l' s' => (f b).decides M G ρ Ψ (Ψ o l s) l' s')
      (fun b l' s' => (f b).decides M G ρ Ψ Φ l' s') l s) : (m >>= f).decides M G ρ Ψ Φ l s := by
  induction m generalizing Φ l s with
  | done a => exact h
  | op o k ih =>
    intro inp locked s₁ r l' s' hG hx
    refine ih r (Prog.decides_mono (fun _ _ _ _ _ _ _ hd => hd) ?_
      (h inp locked s₁ r l' s' hG hx))
    intro b l'' s'' hb
    split at hb
    · rename_i hρ
      rw [if_pos hρ]
      exact hb
    · rename_i hρ
      rw [if_neg hρ]
      exact hb

/-- What the operations performed so far leave a program to answer. -/
def verdict (ρ : Op → Bool) (Ψ : Op → L → S → β → L → S → Prop) (Φ : β → L → S → Prop) :
    List (Op × L × S) → β → L → S → Prop :=
  List.foldl (fun Φ x => if ρ x.1 then Ψ x.1 x.2.1 x.2.2 else Φ) Φ

/-- No operation of the kind was performed, or one decided. -/
theorem verdict_cases {Φ : β → L → S → Prop} {ops : List (Op × L × S)} {a : β} {l : L} {s : S}
    (h : verdict ρ Ψ Φ ops a l s) : ((∀ x ∈ ops, ρ x.1 = false) ∧ Φ a l s) ∨
      ∃ o l₀ s₀, (o, l₀, s₀) ∈ ops ∧ ρ o = true ∧ Ψ o l₀ s₀ a l s := by
  induction ops using List.reverseRecOn with
  | nil => exact Or.inl ⟨fun _ hx => absurd hx List.not_mem_nil, h⟩
  | append_singleton ops x ih =>
    rw [verdict, List.foldl_append, List.foldl_cons, List.foldl_nil] at h
    split at h
    · rename_i hρ
      exact Or.inr ⟨x.1, x.2.1, x.2.2, List.mem_append_right _ (List.mem_singleton.mpr rfl), hρ, h⟩
    · rename_i hρ
      rcases ih h with ⟨hnone, hΦ⟩ | ⟨o, l₀, s₀, hmem, ho, hΨ⟩
      · refine Or.inl ⟨fun y hy => ?_, hΦ⟩
        rcases List.mem_append.mp hy with hold | hnew
        · exact hnone y hold
        · rw [List.mem_singleton.mp hnew]
          exact Bool.eq_false_iff.mpr hρ
      · exact Or.inr ⟨o, l₀, s₀, List.mem_append_left _ hmem, ho, hΨ⟩

end decides

section world

variable [DecidableEq Row] {M : System S L Row Op Res In Call E α} {P : Permit S L Op Call E}
  {D : S → S → Prop} {G : S → S → Prop} {w₀ w : World S L Op Res Call α}
  {vs : List (World S L Op Res Call α × Act In Call E)} {c : Call} {ρ : Op → Bool}
  {Ψ : Op → L → S → α → L → S → Prop} {Φ : α → L → S → Prop}

/-- Along a trail, what is left of a call answers within what its operations left it. -/
theorem Trail.decided_prog (hG : Trail.Respects M P D w₀ G)
    (hstart : ∀ s, (M.program c).decides M.machine G ρ Ψ Φ M.machine.idle s)
    (h : Trail M P D w₀ vs w) (h₀ : w₀.threads = []) {i : ℕ} {t : Thread L Op Res Call α}
    {p : Prog Op Res α} (ht : w.threads[i]? = some t) (hc : t.call = c) (hp : t.prog = some p) :
    ∃ s, G s w.shared ∧
      p.decides M.machine G ρ Ψ (verdict ρ Ψ Φ (operations i vs)) t.session s := by
  induction h generalizing t p with
  | refl =>
    rw [h₀] at ht
    cases ht
  | disturb htrail hD ih =>
    obtain ⟨s, hs, hd⟩ := ih ht hc hp
    exact ⟨s, hG.trans hs (hG.disturb htrail hD), hd⟩
  | @tail vs v w' a htrail ha hs ih =>
    rw [operations_append]
    have hmove : G v.shared w'.shared := hG.act htrail ha hs
    have hend : G w'.shared w'.shared := hG.refl (htrail.tail ha hs)
    -- the calls the action leaves alone
    have hsame : v.threads[i]? = some t → v.operation i a = none →
        ∃ s, G s w'.shared ∧ p.decides M.machine G ρ Ψ
          (verdict ρ Ψ Φ (operations i vs ++ (v.operation i a).toList)) t.session s := by
      intro hold hnone
      rw [hnone, Option.toList_none, List.append_nil]
      obtain ⟨s, hs, hd⟩ := ih hold hc hp
      exact ⟨s, hG.trans hs hmove, hd⟩
    cases World.transition_of_act hs with
    | start c' =>
      by_cases hi : i < v.threads.length
      · rw [List.getElem?_append_left hi] at ht
        exact hsame ht rfl
      · rw [List.getElem?_append_right (Nat.not_lt.mp hi)] at ht
        obtain ⟨hlt, rfl⟩ := List.getElem?_eq_some_iff.mp ht
        rw [List.getElem_singleton] at hc hp ⊢
        rw [htrail.operations_eq_nil (Nat.not_lt.mp hi)]
        subst hc
        obtain rfl := Option.some.inj hp
        exact ⟨v.shared, hmove, hstart v.shared⟩
    | @step j inp u o k r l' s' hj hu hx =>
      by_cases hij : j = i
      · subst hij
        rw [List.getElem?_set_self (List.getElem?_eq_some_iff.mp hj).1] at ht
        obtain rfl := Option.some.inj ht
        obtain rfl := Option.some.inj hp
        rw [World.operation_self hj hu, Option.toList_some, verdict, List.foldl_append]
        obtain ⟨s, hs, hd⟩ := ih hj hc hu
        exact ⟨s', hend, hd inp _ _ r l' s' hs hx⟩
      · rw [List.getElem?_set_ne hij] at ht
        exact hsame ht (World.operation_ne hij)
    | @crash j u hj hrun =>
      by_cases hij : j = i
      · subst hij
        rw [List.getElem?_set_self (List.getElem?_eq_some_iff.mp hj).1] at ht
        obtain rfl := Option.some.inj ht
        cases hp
      · rw [List.getElem?_set_ne hij] at ht
        exact hsame ht rfl
    | world _ => exact hsame ht rfl

/-- An answered call: it performed no operation of the kind and answered within `Φ`, or an
operation that it performed decided its answer. -/
theorem Trail.decided (hG : Trail.Respects M P D w₀ G)
    (hstart : ∀ s, (M.program c).decides M.machine G ρ Ψ Φ M.machine.idle s)
    (h : Trail M P D w₀ vs w) (h₀ : w₀.threads = []) {i : ℕ} {t : Thread L Op Res Call α} {a : α}
    (ht : w.threads[i]? = some t) (hc : t.call = c) (ha : t.Answered a) :
    ∃ s, G s w.shared ∧ (((∀ x ∈ operations i vs, ρ x.1 = false) ∧ Φ a t.session s) ∨
      ∃ o l₀ s₀, (o, l₀, s₀) ∈ operations i vs ∧ ρ o = true ∧ Ψ o l₀ s₀ a t.session s) := by
  obtain ⟨s, hs, hd⟩ := h.decided_prog hG hstart h₀ ht hc ha
  exact ⟨s, hs, verdict_cases hd⟩

end world

end Interleaving
