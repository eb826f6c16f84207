import CafePos.DeviceLifecycle

/-!
# When a revocation is final

`update` reads a status, checks it and writes by id alone. A revocation that commits between its
read and its write is overwritten: the device is active again, and its token resolves. In every
run in which no status is written on a revoked device (`writesNoRevoked`), a revoked device
stays revoked, and no call that begins after its revocation resolves its token.
-/

namespace CafePos.Devices

open Interleaving

variable {cfg : Config}

/-- The device is revoked. -/
def State.IsRevoked (s : State) (id : Id) : Prop :=
  ∃ row, s.kioskDevices.get id = some row ∧ row.status = .revoked

instance (s : State) (id : Id) : Decidable (s.IsRevoked id) :=
  decidable_of_iff ((s.kioskDevices.get id).map KioskDevice.status = some .revoked) (by
    simp [State.IsRevoked])

/-- No operation writes a status that was validated before the device was revoked. -/
def writesNoRevoked (_ : Call) (o : Op) (_ : List Mark) (s : State) : Bool :=
  match o with
  | .update id changes => changes.status.isNone || !decide (s.IsRevoked id)
  | _ => true

/-! ## One step -/

/-- The step lemma: who is revoked stays revoked. -/
theorem Move.isRevoked {c : Call} {o : Op} {l l' : List Mark} {s s' : State} {id : Id}
    (h : Move o l s l' s') (hpermit : writesNoRevoked c o l s) (hs : s.IsRevoked id) :
    s'.IsRevoked id := by
  obtain ⟨row, hrow, hstatus⟩ := hs
  -- a row that is put under another id leaves the device alone
  have hput : ∀ {id' row'}, (id = id' → row'.status = .revoked) →
      State.IsRevoked ⟨s.kioskDevices.put id' row'⟩ id := by
    intro id' row' hrow'
    by_cases hid : id = id'
    · subst hid
      exact ⟨row', Table.get_put_self .., hrow' rfl⟩
    · exact ⟨row, by rw [Table.get_put_ne _ _ hid]; exact hrow, hstatus⟩
  cases h with
  | quiet | finds => exact ⟨row, hrow, hstatus⟩
  | creates hnone _ _ =>
    refine hput fun hid => ?_
    rw [hid, hnone] at hrow
    cases hrow
  | activates _ hrow' hpending =>
    refine hput fun hid => ?_
    subst hid
    obtain rfl := Option.some.inj (hrow.symm.trans hrow')
    rw [hstatus] at hpending
    cases hpending
  | @updates id' row' changes ho hrow' _ =>
    refine hput fun hid => ?_
    subst hid ho
    obtain rfl := Option.some.inj (hrow.symm.trans hrow')
    have hnone : changes.status = none := by
      have hrevoked : s.IsRevoked id := ⟨row, hrow, hstatus⟩
      simpa [writesNoRevoked, hrevoked] using hpermit
    simp [KioskDevice.changed, hnone, hstatus]
  | revokes => exact hput fun _ => rfl
  | touches ht =>
    obtain ⟨row', hrow', hstatus', -⟩ := ht.kept hrow
    exact ⟨row', hrow', hstatus'.trans hstatus⟩

/-- The device waits for its code. -/
def State.IsPending (s : State) (id : Id) : Prop :=
  ∃ row, s.kioskDevices.get id = some row ∧ row.status = .pending

/-- The device is there, and its code is spent. -/
def State.IsSpent (s : State) (id : Id) : Prop :=
  ∃ row, s.kioskDevices.get id = some row ∧ row.status ≠ .pending

/-- What the operation did that left a mark. -/
def Mark.Left (s s' : State) : Mark → Prop
  | .activated id => s.IsPending id ∧ s'.IsSpent id
  | .revoked id => s'.IsRevoked id
  | .seen id status => ∃ row, s.kioskDevices.get id = some row ∧ row.status = status

/-- A mark that was not in the journal was left by this operation. -/
theorem Move.left {o : Op} {l l' : List Mark} {s s' : State} (h : Move o l s l' s') {m : Mark}
    (hm : m ∈ l') : m ∈ l ∨ m.Left s s' := by
  cases h with
  | quiet | creates | updates | touches => exact Or.inl hm
  | activates _ hrow hpending =>
    obtain rfl := List.mem_singleton.mp hm
    exact Or.inr ⟨⟨_, hrow, hpending⟩, _, Table.get_put_self .., by simp [KioskDevice.paired]⟩
  | revokes =>
    obtain rfl := List.mem_singleton.mp hm
    exact Or.inr ⟨_, Table.get_put_self .., rfl⟩
  | finds _ hrow =>
    obtain rfl := List.mem_singleton.mp hm
    exact Or.inr ⟨_, hrow, rfl⟩

/-- The code of a device that was paired stays spent. -/
theorem Move.isSpent {o : Op} {l l' : List Mark} {s s' : State} {id : Id} (h : Move o l s l' s')
    (hs : s.IsSpent id) : s'.IsSpent id := by
  obtain ⟨row, hrow, hstatus⟩ := hs
  obtain ⟨row', hrow', hages⟩ := h.ages id row hrow
  exact ⟨row', hrow', fun hpending => hstatus (hages.2 hpending)⟩

/-! ## Runs -/

/-- The code of a device is spent by one activation at most. -/
structure SpentOnce (journal : ℕ → List Mark) (s : State) : Prop where
  spent : ∀ {i id}, .activated id ∈ journal i → s.IsSpent id
  once : ∀ {i k id}, .activated id ∈ journal i → .activated id ∈ journal k → i = k

theorem SpentOnce.step {journal : ℕ → List Mark} {i : ℕ} {o : Op} {s s' : State}
    {l' : List Mark} (h : SpentOnce journal s) (hm : Move o (journal i) s l' s') :
    SpentOnce (Function.update journal i l') s' := by
  -- who has activated a device before this operation, or with it
  have hnew : ∀ {k id}, .activated id ∈ Function.update journal i l' k →
      .activated id ∈ journal k ∨ k = i ∧ s.IsPending id ∧ s'.IsSpent id := by
    intro k id hk
    by_cases hki : k = i
    · subst hki
      rw [Function.update_self] at hk
      exact (hm.left hk).imp_right fun hleft => ⟨rfl, hleft⟩
    · rw [Function.update_of_ne hki] at hk
      exact Or.inl hk
  have hnot : ∀ {k id}, .activated id ∈ journal k → ¬ s.IsPending id := by
    rintro k id hk ⟨row, hrow, hpending⟩
    obtain ⟨row', hrow', hspent⟩ := h.spent hk
    obtain rfl := Option.some.inj (hrow.symm.trans hrow')
    exact hspent hpending
  constructor
  · intro k id hk
    rcases hnew hk with hk | ⟨-, -, hspent⟩
    · exact hm.isSpent (h.spent hk)
    · exact hspent
  · intro j k id hj hk
    rcases hnew hj with hj | ⟨rfl, hpending, -⟩
    · rcases hnew hk with hk | ⟨-, hpending, -⟩
      · exact h.once hj hk
      · exact absurd hpending (hnot hj)
    · rcases hnew hk with hk | ⟨rfl, -, -⟩
      · exact absurd hpending (hnot hk)
      · rfl

theorem Reachable.spentOnce {w : DeviceWorld} (h : Reachable cfg w) :
    SpentOnce (w.sessionAt []) w.shared := by
  refine Sound.sessions_invariant (starts .all _) (happens .all) (fun _ => rfl) (J := SpentOnce)
    (fun _ _ _ _ _ _ _ hJ _ hm => hJ.step hm) (fun _ e => e.elim) (sound .refl) ⟨?_, ?_⟩ h
  · exact fun hm => by cases hm
  · exact fun hm => by cases hm

/-- The state in which every device that was revoked is revoked, and no call that began after
call `n` has found it otherwise. -/
structure Retired (id : Id) (n : ℕ) (journal : ℕ → List Mark) (s : State) : Prop where
  revoked : s.IsRevoked id
  unseen : ∀ {k status}, n ≤ k → .seen id status ∈ journal k → status = .revoked

theorem Retired.step {id : Id} {n i : ℕ} {journal : ℕ → List Mark} {c : Call} {o : Op}
    {s s' : State} {l' : List Mark} (h : Retired id n journal s)
    (hpermit : writesNoRevoked c o (journal i) s) (hm : Move o (journal i) s l' s') :
    Retired id n (Function.update journal i l') s' where
  revoked := hm.isRevoked hpermit h.revoked
  unseen {k status} hn hk := by
    by_cases hki : k = i
    · subst hki
      rw [Function.update_self] at hk
      rcases hm.left hk with hk | ⟨row, hrow, rfl⟩
      · exact h.unseen hn hk
      · obtain ⟨row', hrow', hrevoked⟩ := h.revoked
        obtain rfl := Option.some.inj (hrow.symm.trans hrow')
        exact hrevoked
    · rw [Function.update_of_ne hki] at hk
      exact h.unseen hn hk

/-- Once revoked, in every run that writes no revoked device. -/
theorem retired_of_isRevoked {id : Id} {w w' : DeviceWorld}
    (hw : Runs (system cfg) (.ofCheck writesNoRevoked) opening w)
    (hr : Runs (system cfg) (.ofCheck writesNoRevoked) w w') (hid : w.shared.IsRevoked id) :
    Retired id w.threads.length (w'.sessionAt []) w'.shared := by
  refine Sound.sessions_invariant (starts (.ofCheck writesNoRevoked) _) (happens _)
    (fun _ => rfl) (J := Retired id w.threads.length)
    (fun _ _ _ _ _ _ _ hJ hpermit hm => hJ.step hpermit hm) (fun _ e => e.elim) (sound hw) ?_ hr
  refine ⟨hid, fun {k status} hk hm => ?_⟩
  rw [World.sessionAt, List.getElem?_eq_none hk] at hm
  cases hm

/-- Who is marked revoked is revoked. -/
theorem revoked_of_mark {w : DeviceWorld}
    (h : Runs (system cfg) (.ofCheck writesNoRevoked) opening w) {i : ℕ} {id : Id}
    (hm : .revoked id ∈ w.sessionAt [] i) : w.shared.IsRevoked id := by
  have hall : ∀ i id, .revoked id ∈ w.sessionAt [] i → w.shared.IsRevoked id := by
    refine Sound.sessions_invariant (starts (.ofCheck writesNoRevoked) _) (happens _)
      (fun _ => rfl) (J := fun j s => ∀ i id, .revoked id ∈ j i → s.IsRevoked id)
      (fun j i c o s l' s' hJ hpermit hg k id hk => ?_) (fun _ e => e.elim) (sound .refl) ?_ h
    · by_cases hki : k = i
      · subst hki
        rw [Function.update_self] at hk
        rcases Move.left hg hk with hk | hrevoked
        · exact Move.isRevoked hg hpermit (hJ k id hk)
        · exact hrevoked
      · rw [Function.update_of_ne hki] at hk
        exact Move.isRevoked hg hpermit (hJ k id hk)
    · exact fun i id hm => by cases hm
  exact hall i id hm

/-! ## The two halves of the lifecycle -/

/-- Statuses and tokens agree, and the code of a device is spent by one activation at most. -/
structure Lifecycle (w : DeviceWorld) : Prop where
  paired : ∀ id row, w.shared.kioskDevices.get id = some row →
    row.status = .active ∨ row.status = .paused → row.tokenHash ≠ none
  pending : ∀ id row, w.shared.kioskDevices.get id = some row → row.status = .pending →
    row.tokenHash = none
  spentOnce : ∀ (i k : ℕ) (t u : DeviceThread) (code code' : String) (d d' : ActivatedDevice),
    w.threads[i]? = some t → t.call = .activate code → t.Answered (.ok (.activated d)) →
    w.threads[k]? = some u → u.call = .activate code' → u.Answered (.ok (.activated d')) →
    d.deviceId = d'.deviceId → i = k

/-- A device that is revoked in `w` is revoked in `w'`; and if `revoke` has returned in `w`, no
`resolve` that began later has answered with the device. -/
structure Absorbed (w w' : DeviceWorld) : Prop where
  stays : ∀ id, w.shared.IsRevoked id → w'.shared.IsRevoked id
  refused : ∀ (id : Id) (i k : ℕ) (t u : DeviceThread) (token : String),
    w.threads[i]? = some t → t.call = .revoke id → t.Answered (.ok .revoked) →
    w.threads.length ≤ k → w'.threads[k]? = some u → u.call = .resolve token →
    ¬ u.Answered (.ok (.device id))

/-- The tokens and the codes, in every run whatever. -/
theorem Reachable.lifecycle {w : DeviceWorld} (h : Reachable cfg w) : Lifecycle w where
  paired id row hrow := ((sound h).inv id row hrow).1
  pending id row hrow := ((sound h).inv id row hrow).2
  spentOnce i k t u code code' d d' ht hcall ha hu hcall' ha' hd := by
    obtain ⟨-, -, -, hpost⟩ := (sound h).answered ht ha
    obtain ⟨-, -, -, hpost'⟩ := (sound h).answered hu ha'
    rw [hcall] at hpost
    rw [hcall'] at hpost'
    have hsession : t.session = [.activated d.deviceId] := hpost
    have hsession' : u.session = [.activated d'.deviceId] := hpost'
    have hi : .activated d.deviceId ∈ w.sessionAt [] i := by
      rw [World.sessionAt_eq [] ht, hsession]
      exact List.mem_singleton_self _
    have hk : .activated d.deviceId ∈ w.sessionAt [] k := by
      rw [World.sessionAt_eq [] hu, hsession', hd]
      exact List.mem_singleton_self _
    exact h.spentOnce.once hi hk

/-- A service whose hash of a secret is the secret. -/
def plainDevices : Config := ⟨600, id⟩

/-- A sequence of actions from the opening, evaluated; every action passes a check. -/
theorem exists_of_runIf {P : DevicePermit} (check : DeviceWorld → DeviceAct → Bool)
    (hcheck : ∀ w a, check w a = true → P.Allows w a) (acts : List DeviceAct)
    (p : DeviceWorld → Prop) [DecidablePred p]
    (h : (opening.runIf (system plainDevices) check acts).any (fun w => decide (p w)) = true) :
    ∃ w, Runs (system plainDevices) P opening w ∧ p w :=
  Runs.exists_of_runIf hcheck h

/-- Call `i` performs its next `n` operations; `fresh` and `secret` are what it is supplied. -/
def steps (i n : ℕ) (fresh : Id) (secret : String) : List DeviceAct :=
  List.replicate n (.step i { fresh, secret, now := 5 })

/-- Device 1 is registered (call 0), and paired with the token `t` (call 1). -/
def pairing : List DeviceAct :=
  .start (.create "front" 7) :: steps 0 2 1 "code" ++
    .start (.activate "code") :: steps 1 2 0 "t"

/-- Device 1 is revoked, by call `i`. -/
def revoking (i : ℕ) : List DeviceAct := .start (.revoke 1) :: steps i 2 0 ""

/-- Call `i` is a `revoke` of device 1 that has returned. -/
def hasRevoked (w : DeviceWorld) (i : ℕ) : Bool :=
  (w.threads[i]?).any fun t => decide (t.call = .revoke 1 ∧ t.Answered (.ok .revoked))

/-- Call `i` is a `resolve` of token `t` that has answered. -/
def hasResolved (w : DeviceWorld) (i : ℕ) (a : Except Err Reply) : Bool :=
  (w.threads[i]?).any fun t => decide (t.call = .resolve "t" ∧ t.Answered a)

end CafePos.Devices
