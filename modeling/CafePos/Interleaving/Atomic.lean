import CafePos.Interleaving.RelyGuarantee

/-!
# Services without transactions, and services that throw

A service whose statements each commit by themselves takes no rows: every operation happens at
once (`Machine.atomic`). A call that may throw is a program in `ExceptT`; `Spec.Ensures` is its
weakest precondition, with one postcondition for what it returns and one for what it throws.
-/

namespace Interleaving

variable {S L Row Op In Call E ε α β : Type} {Res : Op → Type}

/-- A machine whose operations never wait for each other. -/
def Machine.atomic (idle : L) (exec : (o : Op) → In → L → S → Option (Res o × L × S)) :
    Machine S L Empty Op Res In where
  idle
  held _ := []
  abort l := l
  exec o inp _ l s := exec o inp l s
  keeps _ _ _ := True
  idle_held := rfl
  abort_held _ := rfl
  keeps_refl _ _ := trivial
  keeps_trans _ _ _ _ _ _ := trivial
  exec_held _ x := x.elim
  exec_keeps _ _ x := x.elim

/-- The call `m`, begun with session `l` in state `s`, returns into `Q` or throws into `T`. -/
def Spec.Ensures (G : Spec S L Op Call E) (M : Machine S L Row Op Res In) (c : Call)
    (m : ExceptT ε (Prog Op Res) α) (Q : α → L → S → Prop) (T : ε → L → S → Prop) (l : L) (s : S) :
    Prop :=
  G.wp M c (fun r l s => match r with
    | .ok a => Q a l s
    | .error e => T e l s) m.run l s

namespace Spec.Ensures

variable {G : Spec S L Op Call E} {M : Machine S L Row Op Res In} {c : Call}
  {Q : α → L → S → Prop} {T : ε → L → S → Prop} {l : L} {s : S}

theorem pure {a : α} (h : Q a l s) :
    G.Ensures M c (Pure.pure a : ExceptT ε (Prog Op Res) α) Q T l s := h

theorem throw {e : ε} (h : T e l s) :
    G.Ensures M c (MonadExcept.throw e : ExceptT ε (Prog Op Res) α) Q T l s := h

theorem bind {m : ExceptT ε (Prog Op Res) β} {f : β → ExceptT ε (Prog Op Res) α}
    (h : G.Ensures M c m (fun b l s => G.Ensures M c (f b) Q T l s) T l s) :
    G.Ensures M c (m >>= f) Q T l s := by
  refine wp_bind (wp_mono (fun r l' s' _ hr => ?_) h)
  cases r with
  | ok b => exact hr
  | error e => exact hr

theorem ite {b : Prop} [Decidable b] {m m' : ExceptT ε (Prog Op Res) α}
    (h : b → G.Ensures M c m Q T l s) (h' : ¬ b → G.Ensures M c m' Q T l s) :
    G.Ensures M c (if b then m else m') Q T l s := by
  split
  · exact h ‹_›
  · exact h' ‹_›

/-- A call whose result is wrapped into an answer. -/
theorem answers {m : ExceptT ε (Prog Op Res) β} {f : β → α} {Q : β → L → S → Prop}
    {P : Except ε α → L → S → Prop} (h : G.Ensures M c m Q T l s)
    (hok : ∀ b l s, Q b l s → P (.ok (f b)) l s) (herr : ∀ e l s, T e l s → P (.error e) l s) :
    G.wp M c P (f <$> m).run l s := by
  refine wp_bind (wp_mono (fun r l' s' _ hr => ?_) h)
  cases r with
  | ok b => exact hok b l' s' hr
  | error e => exact herr e l' s' hr

/-- One operation: however it ends, it stays inside the guarantee, and ends in `Q`. -/
theorem perform {o : Op} {Q : Res o → L → S → Prop}
    (h : ∀ s₁ inp locked r l' s₂, G.After M l s s₁ → G.permit.step c o l s₁ →
      M.exec o inp locked l s₁ = some (r, l', s₂) → G.gua c o l s₁ l' s₂ ∧ Q r l' s₂) :
    G.Ensures M c (ExceptT.lift (Prog.perform o)) Q T l s :=
  fun s₁ hs₁ hp inp locked r l' s₂ _ hx => h s₁ inp locked r l' s₂ hs₁ hp hx

end Spec.Ensures

/-! ## Counting calls -/

/-- One call moves: what it was counted for, and what it is counted for now. -/
theorem Thread.countP_set {ts : List (Thread L Op Res Call α)} {i : ℕ}
    {t : Thread L Op Res Call α} (t' : Thread L Op Res Call α) (ht : ts[i]? = some t)
    (p : Thread L Op Res Call α → Bool) :
    (ts.set i t').countP p + (p t).toNat = ts.countP p + (p t').toNat := by
  obtain ⟨hi, rfl⟩ := List.getElem?_eq_some_iff.mp ht
  have hmem : ts[i] ∈ ts := List.getElem_mem hi
  rw [List.countP_set hi]
  cases hp : p ts[i] with
  | false => cases p t' <;> simp
  | true =>
    have hpos : 0 < ts.countP p := List.countP_pos_iff.mpr ⟨_, hmem, hp⟩
    cases p t' <;> simp <;> omega

/-! ## Sessions as a function of the call's number -/

/-- The session of call `i`; a call that has not started is idle. -/
def World.sessionAt (idle : L) (w : World S L Op Res Call α) (i : ℕ) : L :=
  ((w.threads[i]?).map Thread.session).getD idle

theorem World.sessionAt_eq (idle : L) {w : World S L Op Res Call α} {i : ℕ}
    {t : Thread L Op Res Call α} (ht : w.threads[i]? = some t) :
    w.sessionAt idle i = t.session := by
  simp [sessionAt, ht]

theorem World.sessionAt_start {idle : L} {s : S} {ts : List (Thread L Op Res Call α)} {c : Call}
    {p : Option (Prog Op Res α)} :
    (World.mk s (ts ++ [⟨c, idle, p⟩])).sessionAt idle = (World.mk s ts).sessionAt idle := by
  funext i
  simp only [sessionAt, List.getElem?_append]
  split
  · rfl
  · rename_i h
    rw [List.getElem?_eq_none (Nat.not_lt.mp h)]
    cases i - ts.length <;> simp

theorem World.sessionAt_set {idle l' : L} {s s' : S} {ts : List (Thread L Op Res Call α)} {i : ℕ}
    {t : Thread L Op Res Call α} {c : Call} {p : Option (Prog Op Res α)}
    (ht : ts[i]? = some t) :
    (World.mk s' (ts.set i ⟨c, l', p⟩)).sessionAt idle =
      Function.update ((World.mk s ts).sessionAt idle) i l' := by
  funext j
  by_cases hj : j = i
  · subst hj
    have hget : (ts.set j ⟨c, l', p⟩)[j]? = some ⟨c, l', p⟩ :=
      List.getElem?_set_self (List.getElem?_eq_some_iff.mp ht).1
    rw [Function.update_self, sessionAt, hget]
    rfl
  · rw [Function.update_of_ne hj]
    simp only [sessionAt, List.getElem?_set_ne (Ne.symm hj)]

/-- The invariant rule for a property of the state and of the sessions, where a call that dies
leaves its session as it is: one operation of one call at a time. -/
theorem Sound.sessions_invariant [DecidableEq Row] {G : Spec S L Op Call E}
    {M : System S L Row Op Res In Call E α} {base : S} {n : ℕ}
    {post : ℕ → Call → α → L → S → Prop} {w w' : World S L Op Res Call α}
    (hstart : Starts G M base n post) (hworld : Happens G M)
    (habort : ∀ l, M.machine.abort l = l) {J : (ℕ → L) → S → Prop}
    (step : ∀ (j : ℕ → L) i c o s l' s', J j s → G.permit.step c o (j i) s →
      G.gua c o (j i) s l' s' → J (Function.update j i l') s')
    (world : ∀ j e s s', J j s → M.world e s = some s' → J j s')
    (h : Sound G M base n post w) (hJ : J (w.sessionAt M.machine.idle) w.shared)
    (hr : Runs M G.permit w w') : J (w'.sessionAt M.machine.idle) w'.shared := by
  refine h.invariant hstart hworld (J := fun v => J (v.sessionAt M.machine.idle) v.shared)
    ?_ ?_ ?_ ?_ hJ hr
  · intro v c hv _
    rw [World.sessionAt_start]
    exact hv
  · intro v i t o k r l' s' _ hv ht _ hp hg
    rw [World.sessionAt_set (s := v.shared) ht]
    rw [← World.sessionAt_eq M.machine.idle ht] at hp hg
    exact step _ i t.call o v.shared l' s' hv hp hg
  · intro v i t hv ht _ _
    rw [World.sessionAt_set (s := v.shared) ht, habort,
      ← World.sessionAt_eq M.machine.idle ht, Function.update_eq_self]
    exact hv
  · exact fun v e s' _ hv _ hs => world _ e _ s' hv hs

end Interleaving
