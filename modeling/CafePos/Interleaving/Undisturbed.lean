import CafePos.Interleaving.Alone

/-!
# A call nobody disturbs, whatever the outside supplies

`Prog.ends` is the weakest precondition of a program that runs while nobody else does
anything: whatever the outside supplies to each of its operations, within a condition `φ` on
one supply, no operation waits and the program ends in `Q`. It speaks of termination too, and
`Prog.ends_traced` reads it off as a statement about `Prog.traced`.
-/

namespace Interleaving

variable {S L Row Op In β γ : Type} {Res : Op → Type} {M : Machine S L Row Op Res In}
  {φ : In → Prop}

/-- Alone, and supplied with what satisfies `φ`, the program ends in `Q`. -/
def Prog.ends (M : Machine S L Row Op Res In) (φ : In → Prop) (Q : β → L → S → Prop) :
    Prog Op Res β → L → S → Prop
  | .done a, l, s => Q a l s
  | .op o k, l, s => ∀ inp, φ inp → ∃ r l' s', M.exec o inp (fun _ => false) l s =
      some (r, l', s') ∧ (k r).ends M φ Q l' s'

/-- A weaker goal is easier to reach. -/
theorem Prog.ends_mono {Q Q' : β → L → S → Prop} (hQ : ∀ a l s, Q a l s → Q' a l s)
    {m : Prog Op Res β} {l : L} {s : S} (h : m.ends M φ Q l s) : m.ends M φ Q' l s := by
  induction m generalizing l s with
  | done a => exact hQ a l s h
  | op o k ih =>
    intro inp hinp
    obtain ⟨r, l', s', hx, hk⟩ := h inp hinp
    exact ⟨r, l', s', hx, ih r hk⟩

/-- Sequencing. -/
theorem Prog.ends_bind {Q : γ → L → S → Prop} {m : Prog Op Res β} {f : β → Prog Op Res γ} {l : L}
    {s : S} (h : m.ends M φ (fun b l s => (f b).ends M φ Q l s) l s) :
    (m >>= f).ends M φ Q l s := by
  induction m generalizing l s with
  | done a => exact h
  | op o k ih =>
    intro inp hinp
    obtain ⟨r, l', s', hx, hk⟩ := h inp hinp
    exact ⟨r, l', s', hx, ih r hk⟩

/-- What a program ends in, it ends in along every sequence of supplies. -/
theorem Prog.ends_traced {Q : β → L → S → Prop} {m : Prog Op Res β} {l : L} {s : S}
    (h : m.ends M φ Q l s) {inp : ℕ → In} (hinp : ∀ n, φ (inp n)) :
    ∃ ops a l' s', m.traced M (fun _ => false) inp l s = some (ops, a, l', s') ∧ Q a l' s' := by
  induction m generalizing l s inp with
  | done a => exact ⟨[], a, l, s, rfl, h⟩
  | op o k ih =>
    obtain ⟨r, l₁, s₁, hx, hk⟩ := h (inp 0) (hinp 0)
    obtain ⟨ops, a, l', s', ht, hq⟩ := ih r hk fun n => hinp (n + 1)
    refine ⟨o :: ops, a, l', s', ?_, hq⟩
    rw [Prog.traced, hx, Option.bind_some, ht, Option.map_some]

section world

variable [DecidableEq Row] {Call E α : Type} {M : System S L Row Op Res In Call E α}

/-- If nobody else holds a row, call `i` can go on to its answer, and nothing else changes. -/
theorem Runs.alone_eq {p : Prog Op Res α} {w : World S L Op Res Call α} {i : ℕ}
    {t : Thread L Op Res Call α} {inp : In} {a : α} {l' : L} {s' : S}
    (ht : w.threads[i]? = some t) (hp : t.prog = some p)
    (hfree : ∀ x, ¬ w.locked M i x = true)
    (ha : p.alone M.machine inp t.session w.shared = some (a, l', s')) :
    Runs M .all w ⟨s', w.threads.set i ⟨t.call, l', some (.done a)⟩⟩ := by
  induction p generalizing w t with
  | done b =>
    obtain ⟨rfl, rfl, rfl⟩ := Option.some.inj ha |> Prod.mk.inj |>.imp_right Prod.mk.inj
    have hset : w.threads.set i ⟨t.call, t.session, some (.done b)⟩ = w.threads := by
      obtain ⟨hi, ht'⟩ := List.getElem?_eq_some_iff.mp ht
      rw [← hp, ← ht', List.set_getElem_self hi]
    rw [hset]
    exact .refl
  | op o k ih =>
    obtain ⟨⟨r, l₁, s₁⟩, hr, hk⟩ := Option.bind_eq_some_iff.mp ha
    have hlocked : w.locked M i = fun _ => false :=
      funext fun x => Bool.eq_false_iff.mpr (hfree x)
    have hact : w.act M (.step i inp) =
        some ⟨s₁, w.threads.set i ⟨t.call, l₁, some (k r)⟩⟩ := by
      simp only [World.act, ht, hp, World.stepThread, hlocked, hr, Option.map_some]
    have hset : (w.threads.set i ⟨t.call, l₁, some (k r)⟩)[i]? =
        some ⟨t.call, l₁, some (k r)⟩ :=
      List.getElem?_set_self (List.getElem?_eq_some_iff.mp ht).1
    have hrest := ih r (w := ⟨s₁, w.threads.set i ⟨t.call, l₁, some (k r)⟩⟩) hset rfl
      (fun x hx => hfree x (World.locked_set x hx)) hk
    rw [List.set_set] at hrest
    exact (Runs.refl.tail (allows_all w (.step i inp)) hact).trans hrest

end world

end Interleaving
