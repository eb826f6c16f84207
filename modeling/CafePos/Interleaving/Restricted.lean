import CafePos.Interleaving.RelyGuarantee

/-!
# Programs that keep to some operations, and changes from outside

A program that performs only operations of a kind, whatever the outside answers, needs no proof of
its own: `Spec.wp_of_only` carries over it whatever each of the operations carries.

`Sound.disturb` lets the shared state change in a way that is neither an action of a call nor one
of the system's own, as long as it stays inside `rely` and leaves alone the rows that are held.
-/

namespace Interleaving

variable {S L Row Op In Call E α β γ : Type} {Res : Op → Type}

/-- Whatever the outside answers, the program performs only operations in `p`. -/
def Prog.Only (p : Op → Prop) : Prog Op Res β → Prop
  | .done _ => True
  | .op o k => p o ∧ ∀ r, (k r).Only p

/-- Sequencing. -/
theorem Prog.Only.bind {p : Op → Prop} {m : Prog Op Res β} {f : β → Prog Op Res γ}
    (hm : m.Only p) (hf : ∀ b, (f b).Only p) : (m >>= f).Only p := by
  induction m with
  | done b => exact hf b
  | op o k ih => exact ⟨hm.1, fun r => ih r (hm.2 r)⟩

/-- What every operation in `p` carries, a program of such operations carries. -/
theorem Spec.wp_of_only {G : Spec S L Op Call E} {M : Machine S L Row Op Res In} {p : Op → Prop}
    {I : L → S → Prop} {c : Call}
    (hop : ∀ o l s s₁ inp locked r l' s₂, p o → I l s → G.After M l s s₁ →
      M.exec o inp locked l s₁ = some (r, l', s₂) → G.gua c o l s₁ l' s₂ ∧ I l' s₂)
    {m : Prog Op Res β} (hm : m.Only p) {l : L} {s : S} (hI : I l s) :
    G.wp M c (fun _ => I) m l s := by
  induction m generalizing l s with
  | done b => exact hI
  | op o k ih =>
    intro s₁ hs₁ _ inp locked r l' s₂ _ hx
    obtain ⟨hg, hI'⟩ := hop o l s s₁ inp locked r l' s₂ hm.1 hI hs₁ hx
    exact ⟨hg, ih r (hm.2 r) hI'⟩

/-- Somebody else changes the state. -/
theorem Sound.disturb {G : Spec S L Op Call E} {M : System S L Row Op Res In Call E α} {base : S}
    {n : ℕ} {post : ℕ → Call → α → L → S → Prop} {w : World S L Op Res Call α}
    (h : Sound G M base n post w) {s : S} (hinv : G.inv s) (hrely : G.rely w.shared s)
    (hkeeps : ∀ t ∈ w.threads, ∀ x ∈ M.machine.held t.session, M.machine.keeps x w.shared s) :
    Sound G M base n post ⟨s, w.threads⟩ where
  inv := hinv
  since := G.rely_trans h.since hrely
  size := h.size
  apart := h.apart
  ok ht := (h.ok ht).after ⟨hrely, hinv, hkeeps _ (List.mem_of_getElem? ht)⟩

end Interleaving
