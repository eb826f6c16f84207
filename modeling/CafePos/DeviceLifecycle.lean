import CafePos.Devices

/-!
# The life of a device

A device is created pending, paired once, paused and resumed, and revoked. `Move` says what one
operation of a call can do to its journal and to the table. The pairing of statuses and tokens
holds in every run. That a revoked device stays revoked needs a condition: `update` writes a
status it validated earlier, and a revocation may have come in between (`writesNoRevoked`).
-/

namespace CafePos.Devices

open Interleaving

variable {cfg : Config}

/-- The worlds the system can reach. -/
def Reachable (cfg : Config) (w : DeviceWorld) : Prop := Runs (system cfg) .all opening w

/-! ## What one operation does -/

/-- The row, but for when the device was last seen. -/
def KioskDevice.unseen (row : KioskDevice) : KioskDevice := { row with lastSeenAt := none }

/-- The tables have the same rows, but for when the devices were last seen. -/
def Touched (t t' : Table Id KioskDevice) : Prop :=
  ∀ id, (t'.get id).map KioskDevice.unseen = (t.get id).map KioskDevice.unseen

/-- What one operation does to the journal of its call and to the table. -/
inductive Move (o : Op) (l : List Mark) (s : State) : List Mark → State → Prop
  /-- nothing -/
  | quiet : Move o l s l s
  /-- a device is registered -/
  | creates {id : Id} {row : KioskDevice} : s.kioskDevices.get id = none →
      row.status = .pending → row.tokenHash = none →
      Move o l s l ⟨s.kioskDevices.put id row⟩
  /-- a pending device is paired -/
  | activates {id : Id} {row : KioskDevice} {tokenHash : String} : l = [] →
      s.kioskDevices.get id = some row → row.status = .pending →
      Move o l s [.activated id] ⟨s.kioskDevices.put id (row.paired tokenHash)⟩
  /-- a device is renamed, paused or resumed -/
  | updates {id : Id} {row : KioskDevice} {changes : UpdateDeviceInput} :
      o = .update id changes → s.kioskDevices.get id = some row →
      (changes.status ≠ none → row.tokenHash ≠ none) →
      Move o l s l ⟨s.kioskDevices.put id (row.changed changes)⟩
  /-- a device is revoked -/
  | revokes {id : Id} {row : KioskDevice} : l = [] → s.kioskDevices.get id = some row →
      Move o l s [.revoked id] ⟨s.kioskDevices.put id { row with status := .revoked }⟩
  /-- a device is found by its token -/
  | finds {id : Id} {row : KioskDevice} : l = [] → s.kioskDevices.get id = some row →
      Move o l s [.seen id row.status] s
  /-- devices are seen -/
  | touches {t : Table Id KioskDevice} : Touched s.kioskDevices t → Move o l s l ⟨t⟩

/-- A device that takes orders, or pauses, has a token; one that was never paired has none. -/
def KioskDevice.Paired (row : KioskDevice) : Prop :=
  (row.status = .active ∨ row.status = .paused → row.tokenHash ≠ none) ∧
    (row.status = .pending → row.tokenHash = none)

/-- Every device is. -/
def Paired (s : State) : Prop := ∀ id row, s.kioskDevices.get id = some row → row.Paired

/-- Devices stay, tokens stay, and nobody becomes pending. -/
def KioskDevice.Ages (row row' : KioskDevice) : Prop :=
  (row.tokenHash ≠ none → row'.tokenHash ≠ none) ∧ (row'.status = .pending → row.status = .pending)

theorem KioskDevice.Ages.refl (row : KioskDevice) : row.Ages row := ⟨id, id⟩

theorem KioskDevice.Ages.trans {row row' row'' : KioskDevice} (h : row.Ages row')
    (h' : row'.Ages row'') : row.Ages row'' := ⟨h'.1 ∘ h.1, h.2 ∘ h'.2⟩

namespace Touched

variable {t t' : Table Id KioskDevice} {id : Id} {row : KioskDevice}

theorem symm (h : Touched t t') : Touched t' t := fun id => (h id).symm

/-- A row that was there is there, and has its status and its token. -/
theorem kept (h : Touched t t') (hrow : t.get id = some row) : ∃ row', t'.get id = some row' ∧
    row'.status = row.status ∧ row'.tokenHash = row.tokenHash := by
  have hid := h id
  rw [hrow, Option.map_some, Option.map_eq_some_iff] at hid
  obtain ⟨row', hrow', heq⟩ := hid
  have hstatus : row'.unseen.status = row.unseen.status := by rw [heq]
  have htoken : row'.unseen.tokenHash = row.unseen.tokenHash := by rw [heq]
  exact ⟨row', hrow', hstatus, htoken⟩

/-- One row at a time. -/
theorem foldl (now : Instant) (ids : List Id) (t : Table Id KioskDevice) :
    Touched t (ids.foldl (fun t id => match t.get id with
      | some row => t.put id { row with lastSeenAt := some now }
      | none => t) t) := by
  induction ids generalizing t with
  | nil => exact fun _ => rfl
  | cons id ids ih =>
    intro id'
    rw [List.foldl_cons, ih]
    cases hid : t.get id with
    | none => rfl
    | some row =>
      by_cases heq : id' = id
      · subst heq
        simp [hid, KioskDevice.unseen]
      · simp [Table.get_put_ne, heq]

end Touched

/-- Putting a row that is paired as it should be. -/
theorem Paired.put {s : State} {id : Id} {row : KioskDevice} (hs : Paired s) (hrow : row.Paired) :
    Paired ⟨s.kioskDevices.put id row⟩ := by
  intro id' row' hrow'
  rw [Table.get_put] at hrow'
  split at hrow'
  · obtain rfl := Option.some.inj hrow'
    exact hrow
  · exact hs id' row' hrow'

/-- A move keeps every device paired as it should be. -/
theorem Move.paired {o : Op} {l l' : List Mark} {s s' : State} (h : Move o l s l' s')
    (hs : Paired s) : Paired s' := by
  cases h with
  | quiet | finds => exact hs
  | creates _ hstatus htoken => exact hs.put (by simp [KioskDevice.Paired, hstatus, htoken])
  | activates => exact hs.put (by simp [KioskDevice.Paired, KioskDevice.paired])
  | @updates id row changes _ hrow hpaired =>
    refine hs.put ?_
    cases hc : changes.status with
    | none => simpa [KioskDevice.Paired, KioskDevice.changed, hc] using hs id row hrow
    | some p =>
      have htoken := hpaired (by simp [hc])
      cases p <;> simp [KioskDevice.Paired, KioskDevice.changed, hc, Pausing.status, htoken]
  | revokes => exact hs.put (by simp [KioskDevice.Paired])
  | touches ht =>
    intro id row' hrow'
    obtain ⟨row, hrow, hstatus, htoken⟩ := ht.symm.kept hrow'
    have hold := hs id row hrow
    rwa [KioskDevice.Paired, hstatus, htoken] at hold

/-- A move only ages devices. -/
theorem Move.ages {o : Op} {l l' : List Mark} {s s' : State} (h : Move o l s l' s') :
    s.kioskDevices.Grows KioskDevice.Ages s'.kioskDevices := by
  cases h with
  | quiet | finds => exact .refl KioskDevice.Ages.refl _
  | creates hnone _ _ =>
    refine .put KioskDevice.Ages.refl fun row hrow => ?_
    rw [hnone] at hrow
    cases hrow
  | activates _ hrow hstatus =>
    refine .put KioskDevice.Ages.refl fun row' hrow' => ?_
    simp [KioskDevice.Ages, KioskDevice.paired]
  | @updates id row changes _ hrow _ =>
    refine .put KioskDevice.Ages.refl fun row' hrow' => ?_
    obtain rfl := Option.some.inj (hrow.symm.trans hrow')
    refine ⟨fun h => h, fun hpending => ?_⟩
    cases hc : changes.status with
    | none => simpa [KioskDevice.changed, hc] using hpending
    | some p => cases p <;> simp [KioskDevice.changed, hc, Pausing.status] at hpending
  | revokes _ hrow =>
    refine .put KioskDevice.Ages.refl fun row' hrow' => ?_
    obtain rfl := Option.some.inj (hrow.symm.trans hrow')
    exact ⟨fun h => h, fun h => by cases h⟩
  | touches ht =>
    intro id row hrow
    obtain ⟨row', hrow', hstatus, htoken⟩ := ht.kept hrow
    exact ⟨row', hrow', by simp [htoken], by simp [hstatus]⟩

/-- What is proved of every call, in the runs of a permit. -/
def spec (P : DevicePermit) : Spec State (List Mark) Op Call Empty where
  inv := Paired
  rely s t := s.kioskDevices.Grows KioskDevice.Ages t.kioskDevices
  gua _ o l s l' s' := Move o l s l' s'
  permit := P
  rely_refl _ := .refl KioskDevice.Ages.refl _
  rely_trans h h' := h.trans KioskDevice.Ages.trans h'
  gua_rely _ h := h.ages
  gua_inv _ hs h := h.paired hs

/-- What the answer of a call says of its journal. -/
def Post : Call → Except Err Reply → List Mark → Prop
  | .activate _, .ok (.activated device), l => l = [.activated device.deviceId]
  | .revoke id, .ok _, l => l = [.revoked id]
  | .resolve _, .ok (.device id), l => ∃ status, status ≠ .revoked ∧ l = [.seen id status]
  | _, _, _ => True

/-! ## The calls -/

/-- The operations that are about no device's status. -/
def Op.isQuiet : Op → Bool
  | now | generatePairingCode | generateSecret | findByCode _ | status _ | announce _ => true
  | _ => false

theorem exec_quiet {o : Op} {inp : Input} {l l' : List Mark} {s s' : State} {r : o.Res}
    (ho : o.isQuiet) (hx : exec inp l s o = some (r, l', s')) : l' = l ∧ s' = s := by
  cases o with
  | insertDevice | activate | update | revoke | findByToken | touch => cases ho
  | _ =>
    obtain ⟨-, rfl, rfl⟩ := Option.some.inj hx |> Prod.mk.inj |>.imp_right Prod.mk.inj
    exact ⟨rfl, rfl⟩

section calls

variable {P : DevicePermit} {α : Type} {c : Call} {T : Err → List Mark → State → Prop}
  {l : List Mark} {s : State}

/-- An operation that does nothing. -/
theorem ensures_quiet {o : Op} {Q : o.Res → List Mark → State → Prop} (ho : o.isQuiet)
    (h : ∀ r s, Q r l s) : (spec P).Ensures machine c (perform o) Q T l s := by
  refine .perform fun s₁ inp locked r l' s₂ _ _ hx => ?_
  obtain ⟨rfl, rfl⟩ := exec_quiet ho hx
  exact ⟨.quiet, h r s₂⟩

theorem ensures_insertDevice {name pairingCodeHash : String} {ttl : ℤ} {registeredBy : Id}
    {Q : Id × KioskDevice → List Mark → State → Prop} (h : ∀ r s, Q r l s) :
    (spec P).Ensures machine c (perform (.insertDevice name pairingCodeHash ttl registeredBy))
      Q T l s := by
  refine .perform fun s₁ inp locked r l' s₂ _ _ hx => ?_
  change exec inp l s₁ (.insertDevice name pairingCodeHash ttl registeredBy) = _ at hx
  simp only [exec] at hx
  split at hx
  · cases hx
  · rename_i hnone
    obtain ⟨rfl, rfl, rfl⟩ := Option.some.inj hx |> Prod.mk.inj |>.imp_right Prod.mk.inj
    exact ⟨.creates hnone rfl rfl, h _ _⟩

theorem ensures_activate {pairingCodeHash tokenHash : String}
    {Q : Except Unit (Option (Id × String)) → List Mark → State → Prop}
    (hnone : ∀ s, Q (.ok none) [] s) (herr : ∀ s, Q (.error ()) [] s)
    (hsome : ∀ id name s, Q (.ok (some (id, name))) [.activated id] s) :
    (spec P).Ensures machine c (perform (.activate pairingCodeHash tokenHash)) Q T [] s := by
  refine .perform fun s₁ inp locked r l' s₂ _ _ hx => ?_
  change exec inp [] s₁ (.activate pairingCodeHash tokenHash) = _ at hx
  simp only [exec] at hx
  split at hx
  · obtain ⟨rfl, rfl, rfl⟩ := Option.some.inj hx |> Prod.mk.inj |>.imp_right Prod.mk.inj
    exact ⟨.quiet, hnone _⟩
  · rename_i id row hrows
    have hmem := Table.mem_select.mp (hrows ▸ List.mem_singleton_self (id, row))
    split at hx
    · obtain ⟨rfl, rfl, rfl⟩ := Option.some.inj hx |> Prod.mk.inj |>.imp_right Prod.mk.inj
      exact ⟨.quiet, herr _⟩
    · obtain ⟨rfl, rfl, rfl⟩ := Option.some.inj hx |> Prod.mk.inj |>.imp_right Prod.mk.inj
      have hpending : row.status = .pending := by
        have := hmem.2
        simp only [KioskDevice.awaits, Bool.and_eq_true, beq_iff_eq] at this
        exact this.1.2
      exact ⟨.activates rfl hmem.1 hpending, hsome id _ _⟩
  · obtain ⟨rfl, rfl, rfl⟩ := Option.some.inj hx |> Prod.mk.inj |>.imp_right Prod.mk.inj
    exact ⟨.quiet, herr _⟩

/-- The device has a token. -/
def State.HasToken (s : State) (id : Id) : Prop :=
  ∃ row, s.kioskDevices.get id = some row ∧ row.tokenHash ≠ none

/-- The status of a device: if the device is paired, it has a token from now on. -/
theorem ensures_status {id : Id} {Q : Option DeviceStatus → List Mark → State → Prop}
    (h : ∀ r s, (r = some .active ∨ r = some .paused → s.HasToken id) → Q r l s) :
    (spec P).Ensures machine c (perform (.status id)) Q T l s := by
  refine .perform fun s₁ inp locked r l' s₂ hs₁ _ hx => ?_
  obtain ⟨rfl, rfl, rfl⟩ := Option.some.inj hx |> Prod.mk.inj |>.imp_right Prod.mk.inj
  refine ⟨.quiet, h _ _ fun hstatus => ?_⟩
  cases hrow : s₁.kioskDevices.get id with
  | none => simp [hrow] at hstatus
  | some row =>
    refine ⟨row, hrow, (hs₁.inv id row hrow).1 ?_⟩
    simpa [hrow] using hstatus

/-- The write of `update`: the device had a token if its status is written. -/
theorem ensures_update {id : Id} {changes : UpdateDeviceInput}
    {Q : Option KioskDevice → List Mark → State → Prop}
    (hs : changes.status ≠ none → s.HasToken id) (h : ∀ r s, Q r l s) :
    (spec P).Ensures machine c (perform (.update id changes)) Q T l s := by
  refine .perform fun s₁ inp locked r l' s₂ hs₁ _ hx => ?_
  change exec inp l s₁ (.update id changes) = _ at hx
  simp only [exec] at hx
  split at hx
  · rename_i row hrow
    obtain ⟨rfl, rfl, rfl⟩ := Option.some.inj hx |> Prod.mk.inj |>.imp_right Prod.mk.inj
    refine ⟨.updates rfl hrow fun hc => ?_, h _ _⟩
    obtain ⟨row₀, hrow₀, htoken⟩ := hs hc
    exact (hs₁.rely.rel hrow₀ hrow).1 htoken
  · obtain ⟨rfl, rfl, rfl⟩ := Option.some.inj hx |> Prod.mk.inj |>.imp_right Prod.mk.inj
    exact ⟨.quiet, h _ _⟩

theorem ensures_revoke {id : Id} {Q : Bool → List Mark → State → Prop}
    (hfalse : ∀ s, Q false [] s) (htrue : ∀ s, Q true [.revoked id] s) :
    (spec P).Ensures machine c (perform (.revoke id)) Q T [] s := by
  refine .perform fun s₁ inp locked r l' s₂ _ _ hx => ?_
  change exec inp [] s₁ (.revoke id) = _ at hx
  simp only [exec] at hx
  split at hx
  · rename_i row hrow
    obtain ⟨rfl, rfl, rfl⟩ := Option.some.inj hx |> Prod.mk.inj |>.imp_right Prod.mk.inj
    exact ⟨.revokes rfl hrow, htrue _⟩
  · obtain ⟨rfl, rfl, rfl⟩ := Option.some.inj hx |> Prod.mk.inj |>.imp_right Prod.mk.inj
    exact ⟨.quiet, hfalse _⟩

theorem ensures_findByToken {tokenHash : String}
    {Q : Option (Id × KioskDevice) → List Mark → State → Prop} (hnone : ∀ s, Q none [] s)
    (hsome : ∀ id row s, Q (some (id, row)) [.seen id row.status] s) :
    (spec P).Ensures machine c (perform (.findByToken tokenHash)) Q T [] s := by
  refine .perform fun s₁ inp locked r l' s₂ _ _ hx => ?_
  obtain ⟨rfl, rfl, rfl⟩ := Option.some.inj hx |> Prod.mk.inj |>.imp_right Prod.mk.inj
  cases hrow : s₁.byToken tokenHash with
  | none => exact ⟨.quiet, hnone _⟩
  | some q =>
    have hget := (Table.mem_select.mp (List.mem_of_head? hrow)).1
    exact ⟨.finds rfl hget, hsome q.1 q.2 _⟩

theorem ensures_touch {ids : List Id} {Q : Unit → List Mark → State → Prop} (h : ∀ s, Q () l s) :
    (spec P).Ensures machine c (perform (.touch ids)) Q T l s := by
  refine .perform fun s₁ inp locked r l' s₂ _ _ hx => ?_
  obtain ⟨rfl, rfl, rfl⟩ := Option.some.inj hx |> Prod.mk.inj |>.imp_right Prod.mk.inj
  exact ⟨.touches (.foldl inp.now ids _), h _⟩

theorem create_ensures (name : String) (registeredBy : Id) :
    (spec P).Ensures machine c (create cfg name registeredBy) (fun _ _ _ => True)
      (fun _ _ _ => True) [] s := by
  refine .bind (ensures_quiet rfl fun pairingCode s => ?_)
  exact .bind (ensures_insertDevice fun created s => .pure trivial)

theorem activate_ensures (pairingCode : String) :
    (spec P).Ensures machine c (activate cfg pairingCode)
      (fun device l _ => l = [.activated device.deviceId]) (fun _ _ _ => True) [] s := by
  refine .bind (ensures_quiet rfl fun deviceToken s => ?_)
  refine .bind (ensures_activate (fun s => ?_) (fun s => .throw trivial) fun id name s => .pure rfl)
  -- no row matched: two more reads, to say why
  refine .bind (ensures_quiet rfl fun device s => ?_)
  refine .bind (ensures_quiet rfl fun now s => ?_)
  split
  · exact .throw trivial
  · exact .throw trivial

theorem update_ensures (id : Id) (changes : UpdateDeviceInput) :
    (spec P).Ensures machine c (update id changes) (fun _ _ _ => True) (fun _ _ _ => True)
      [] s := by
  have hcheck : (spec P).Ensures machine c (checkPaired id changes)
      (fun _ l s => l = [] ∧ (changes.status ≠ none → s.HasToken id)) (fun _ _ _ => True) [] s := by
    unfold checkPaired
    split
    · rename_i hnone
      exact .pure ⟨rfl, fun h => absurd hnone h⟩
    · refine .bind (ensures_status fun current s htoken => ?_)
      cases current with
      | none => exact .throw trivial
      | some current =>
        dsimp only
        split
        · exact .throw trivial
        · rename_i hcurrent
          refine .pure ⟨rfl, fun _ => htoken ?_⟩
          cases current <;> simp at hcurrent ⊢
  refine .bind (Spec.wp_mono (fun r l' s' _ hr => ?_) hcheck)
  cases r with
  | error e => exact hr
  | ok _ =>
    obtain ⟨rfl, htoken⟩ := hr
    refine .bind (ensures_update htoken fun updated s => ?_)
    cases updated with
    | none => exact .throw trivial
    | some updated => exact .pure trivial

theorem revoke_ensures (id : Id) :
    (spec P).Ensures machine c (revoke id) (fun _ l _ => l = [.revoked id])
      (fun _ _ _ => True) [] s := by
  refine .bind (ensures_revoke (fun s => .throw trivial) fun s => ?_)
  exact .bind (ensures_quiet rfl fun _ s => .pure rfl)

theorem resolve_ensures (token : String) :
    (spec P).Ensures machine c (resolve cfg token)
      (fun id l _ => ∃ status, status ≠ .revoked ∧ l = [.seen id status])
      (fun _ _ _ => True) [] s := by
  refine .bind (ensures_findByToken (fun s => .throw trivial) fun id row s => ?_)
  dsimp only
  split
  · exact .throw trivial
  · rename_i hstatus
    refine .bind (.bind (ensures_quiet rfl fun now s => ?_))
    refine .ite (fun _ => ?_) fun _ => ?_
    · exact .pure (.pure ⟨row.status, hstatus, rfl⟩)
    · exact ensures_touch fun s => .pure ⟨row.status, hstatus, rfl⟩

theorem markSeen_ensures (ids : List Id) :
    (spec P).Ensures machine c (markSeen ids) (fun _ _ _ => True) (fun _ _ _ => True) [] s := by
  refine .ite (fun _ => ?_) fun _ => ?_
  · exact .pure trivial
  · exact ensures_touch fun s => trivial

end calls

/-- Every call stays inside `Move`, and ends as `Post` says. -/
theorem starts (P : DevicePermit) (base : State) :
    Starts (spec P) (system cfg) base 0 (fun _ c a l _ => Post c a l) := by
  intro i c s _ _ _ _
  cases c with
  | create name registeredBy =>
    exact (create_ensures name registeredBy).answers (fun _ _ _ _ => trivial) fun _ _ _ _ => trivial
  | activate pairingCode =>
    exact (activate_ensures pairingCode).answers (fun _ _ _ h => h) fun _ _ _ _ => trivial
  | update id changes =>
    exact (update_ensures id changes).answers (fun _ _ _ _ => trivial) fun _ _ _ _ => trivial
  | revoke id =>
    exact (revoke_ensures id).answers (fun _ _ _ h => h) fun _ _ _ _ => trivial
  | resolve token =>
    exact (resolve_ensures token).answers (fun _ _ _ h => h) fun _ _ _ _ => trivial
  | markSeen ids =>
    exact (markSeen_ensures ids).answers (fun _ _ _ _ => trivial) fun _ _ _ _ => trivial

theorem happens (P : DevicePermit) : Happens (spec P) (system cfg) := fun e => e.elim

theorem sound {P : DevicePermit} {w : DeviceWorld} (h : Runs (system cfg) P opening w) :
    Sound (spec P) (system cfg) opening.shared 0 (fun _ c a l _ => Post c a l) w := by
  refine Sound.runs (starts P _) (happens P) (.initial fun id row hrow => ?_) h
  cases hrow

end CafePos.Devices
