import CafePos.Interleaving.RelyGuarantee

/-!
# A call that runs alone

What a program does while nobody else does anything and nobody holds a row: then it never
waits, and a run of the world carries it out (`Runs.alone`). This is how one shows that
something *can* happen next, from a world about which little is known.
-/

namespace Interleaving

variable {S L Row Op In Call E α β γ : Type} {Res : Op → Type}

/-- Run a program to its end; the outside supplies `inp` to every operation. -/
def Prog.alone (M : Machine S L Row Op Res In) (inp : In) :
    Prog Op Res β → L → S → Option (β × L × S)
  | .done a, l, s => some (a, l, s)
  | .op o k, l, s => (M.exec o inp (fun _ => false) l s).bind fun r =>
      (k r.1).alone M inp r.2.1 r.2.2

/-- Sequencing. -/
theorem Prog.alone_bind {M : Machine S L Row Op Res In} {inp : In} {m : Prog Op Res β}
    {f : β → Prog Op Res γ} {l l₁ : L} {s s₁ : S} {b : β}
    (hm : m.alone M inp l s = some (b, l₁, s₁)) :
    (m >>= f).alone M inp l s = (f b).alone M inp l₁ s₁ := by
  induction m generalizing l s with
  | done a =>
    obtain ⟨rfl, rfl, rfl⟩ := Option.some.inj hm |> Prod.mk.inj |>.imp_right Prod.mk.inj
    rfl
  | op o k ih =>
    obtain ⟨r, hr, hk⟩ := Option.bind_eq_some_iff.mp hm
    rw [Prog.op_bind, Prog.alone, hr]
    exact ih r.1 hk

/-- The same, while others hold rows, with what the outside supplies to each operation in turn,
and with the operations that were performed. -/
def Prog.traced (M : Machine S L Row Op Res In) (locked : Row → Bool) :
    (ℕ → In) → Prog Op Res β → L → S → Option (List Op × β × L × S)
  | _, .done a, l, s => some ([], a, l, s)
  | inp, .op o k, l, s => (M.exec o (inp 0) locked l s).bind fun r =>
      ((k r.1).traced M locked (fun n => inp (n + 1)) r.2.1 r.2.2).map fun t => (o :: t.1, t.2)

/-- Sequencing: the operations of the one follow those of the other. -/
theorem Prog.traced_bind {M : Machine S L Row Op Res In} {locked : Row → Bool} {inp : ℕ → In}
    {m : Prog Op Res β} {f : β → Prog Op Res γ} {l l₁ : L} {s s₁ : S} {b : β} {ops : List Op}
    (hm : m.traced M locked inp l s = some (ops, b, l₁, s₁)) :
    (m >>= f).traced M locked inp l s =
      ((f b).traced M locked (fun n => inp (n + ops.length)) l₁ s₁).map fun t =>
        (ops ++ t.1, t.2) := by
  induction m generalizing ops inp l s with
  | done a =>
    obtain ⟨rfl, rfl, rfl, rfl⟩ := Option.some.inj hm |> Prod.mk.inj
      |>.imp_right fun h => Prod.mk.inj h |>.imp_right Prod.mk.inj
    simp
  | op o k ih =>
    simp only [Prog.traced, Option.bind_eq_some_iff, Option.map_eq_some_iff] at hm
    obtain ⟨r, hr, ⟨ops', c⟩, ht, heq⟩ := hm
    obtain ⟨rfl, rfl⟩ := Prod.mk.inj heq
    rw [Prog.op_bind, Prog.traced, hr, Option.bind_some, ih r.1 ht, Option.map_map]
    simp only [List.length_cons, ← Nat.add_assoc]
    rfl

variable [DecidableEq Row] {M : System S L Row Op Res In Call E α}

/-- What the others hold does not depend on what call `i` does. -/
theorem World.locked_set {w : World S L Op Res Call α} {i : ℕ} {t : Thread L Op Res Call α}
    {s : S} (x : Row) :
    (World.mk s (w.threads.set i t)).locked M i x = true → w.locked M i x = true := by
  rw [World.locked_eq_true, World.locked_eq_true]
  rintro ⟨j, u, hu, hj, hx⟩
  rw [List.getElem?_set_ne (Ne.symm hj)] at hu
  exact ⟨j, u, hu, hj, hx⟩

/-- If nobody else holds a row, call `i` can go on to its answer. -/
theorem Runs.alone {p : Prog Op Res α} {w : World S L Op Res Call α} {i : ℕ}
    {t : Thread L Op Res Call α} {inp : In} {a : α} {l' : L} {s' : S}
    (ht : w.threads[i]? = some t) (hp : t.prog = some p)
    (hfree : ∀ x, ¬ w.locked M i x = true)
    (ha : p.alone M.machine inp t.session w.shared = some (a, l', s')) :
    ∃ w', Runs M .all w w' ∧ w'.shared = s' ∧
      w'.threads[i]? = some ⟨t.call, l', some (.done a)⟩ := by
  induction p generalizing w t with
  | done b =>
    obtain ⟨rfl, rfl, rfl⟩ := Option.some.inj ha |> Prod.mk.inj |>.imp_right Prod.mk.inj
    exact ⟨w, .refl, rfl, by rw [ht, ← hp]⟩
  | op o k ih =>
    obtain ⟨⟨r, l₁, s₁⟩, hr, hk⟩ := Option.bind_eq_some_iff.mp ha
    have hlocked : w.locked M i = fun _ => false :=
      funext fun x => Bool.eq_false_iff.mpr (hfree x)
    have hact : w.act M (.step i inp) =
        some ⟨s₁, w.threads.set i ⟨t.call, l₁, some (k r)⟩⟩ := by
      simp only [World.act, ht, hp, World.stepThread, hlocked, hr, Option.map_some]
    have hset : (w.threads.set i ⟨t.call, l₁, some (k r)⟩)[i]? =
        some ⟨t.call, l₁, some (k r)⟩ :=
      List.getElem?_set_self (List.getElem?_eq_some_iff.mp ht).1
    obtain ⟨w', hrun, hs', ht'⟩ := ih r (w := ⟨s₁, w.threads.set i ⟨t.call, l₁, some (k r)⟩⟩)
      hset rfl (fun x hx => hfree x (World.locked_set x hx)) hk
    exact ⟨w', (Runs.refl.tail (allows_all w (.step i inp)) hact).trans hrun, hs', ht'⟩

/-- A new call, if nobody holds a row. -/
theorem Runs.start_alone {w : World S L Op Res Call α} {c : Call} {inp : In} {a : α} {l' : L}
    {s' : S} (hfree : ∀ t ∈ w.threads, M.machine.held t.session = [])
    (ha : (M.program c).alone M.machine inp M.machine.idle w.shared = some (a, l', s')) :
    ∃ w' t, Runs M .all w w' ∧ t ∈ w'.threads ∧ t.call = c ∧ t.Answered a := by
  have hact : w.act M (.start c) =
      some ⟨w.shared, w.threads ++ [⟨c, M.machine.idle, some (M.program c)⟩]⟩ := rfl
  have hnew : (w.threads ++ [⟨c, M.machine.idle, some (M.program c)⟩])[w.threads.length]? =
      some ⟨c, M.machine.idle, some (M.program c)⟩ := List.getElem?_concat_length
  have hunlocked : ∀ x, ¬ World.locked M ⟨w.shared, w.threads ++
      [⟨c, M.machine.idle, some (M.program c)⟩]⟩ w.threads.length x = true := by
    intro x hx
    obtain ⟨j, u, hu, hj, hxu⟩ := World.locked_eq_true.mp hx
    rcases List.mem_append.mp (List.mem_of_getElem? hu) with hu' | hu'
    · rw [hfree u hu'] at hxu
      cases hxu
    · rw [List.mem_singleton.mp hu', M.machine.idle_held] at hxu
      cases hxu
  obtain ⟨w', hrun, -, ht'⟩ := Runs.alone (M := M) hnew rfl hunlocked ha
  exact ⟨w', _, (Runs.refl.tail (allows_all w (.start c)) hact).trans hrun,
    List.mem_of_getElem? ht', rfl, rfl⟩

end Interleaving
