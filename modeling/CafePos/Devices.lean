import CafePos.Interleaving.Atomic
import CafePos.Interleaving.Table
import CafePos.Schema

/-!
# Kiosk devices

`DevicesService.create`, `activate`, `update` and `revoke`, and `DeviceTokenService.resolve`
and `markSeen` (`identity/devices`). `activate` and `revoke` are single guarded statements;
`update` reads a status, checks it, and then writes by id alone.
-/

namespace CafePos.Devices

open Interleaving

/-! ## The data model -/

/-- A row of `kiosk_devices`. -/
structure KioskDevice where
  name : String
  tokenHash : Option String
  pairingCodeHash : Option String
  pairingExpiresAt : Option Instant
  status : DeviceStatus
  lastSeenAt : Option Instant
  registeredBy : Id
  createdAt : Instant
  deriving DecidableEq

/-- The table. -/
structure State where
  kioskDevices : Table Id KioskDevice

/-- What a statement of a call did. -/
inductive Mark where
  /-- a pairing code was exchanged for a token -/
  | activated (id : Id)
  /-- a device was revoked -/
  | revoked (id : Id)
  /-- a device was found by its token -/
  | seen (id : Id) (status : DeviceStatus)
  deriving DecidableEq

/-- The environment variable the service reads, and SHA-256. -/
structure Config where
  pairingCodeTtlSeconds : ℤ
  hashSecret : String → String

/-- The statuses that `update` may set. -/
inductive Pausing where
  | active | paused
  deriving DecidableEq

/-- As a device status. -/
def Pausing.status : Pausing → DeviceStatus
  | .active => .active
  | .paused => .paused

/-- `UpdateDeviceInput`. -/
structure UpdateDeviceInput where
  name : Option String
  status : Option Pausing
  deriving DecidableEq

/-! ## Operations -/

/-- What a call asks of the outside. -/
inductive Op where
  /-- `Date.now()` -/
  | now
  /-- `generatePairingCode()` -/
  | generatePairingCode
  /-- `generateSecret()` -/
  | generateSecret
  /-- `INSERT INTO kiosk_devices RETURNING` the summary -/
  | insertDevice (name pairingCodeHash : String) (ttl : ℤ) (registeredBy : Id)
  /-- `UPDATE kiosk_devices SET status, token_hash, pairing_code_hash, pairing_expires_at WHERE
  pairing_code_hash AND status = 'PENDING' AND pairing_expires_at > now() RETURNING id, name` -/
  | activate (pairingCodeHash tokenHash : String)
  /-- `kiosk_devices`, by `pairing_code_hash` -/
  | findByCode (pairingCodeHash : String)
  /-- `kiosk_devices.status`, by id -/
  | status (id : Id)
  /-- `UPDATE kiosk_devices SET changes WHERE id RETURNING` the summary -/
  | update (id : Id) (changes : UpdateDeviceInput)
  /-- `UPDATE kiosk_devices SET status = 'REVOKED' WHERE id RETURNING id` -/
  | revoke (id : Id)
  /-- `revocations.revokeDevice`, which may fail -/
  | announce (id : Id)
  /-- `kiosk_devices`, by `token_hash` -/
  | findByToken (tokenHash : String)
  /-- `UPDATE kiosk_devices SET last_seen_at WHERE id IN ids` -/
  | touch (ids : List Id)

/-- What an operation returns. -/
def Op.Res : Op → Type
  | now => Instant
  | generatePairingCode => String
  | generateSecret => String
  | insertDevice .. => Id × KioskDevice
  | activate .. => Except Unit (Option (Id × String))
  | findByCode _ => Option KioskDevice
  | status _ => Option DeviceStatus
  | update .. => Option KioskDevice
  | revoke _ => Bool
  | announce _ => Bool
  | findByToken _ => Option (Id × KioskDevice)
  | touch _ => Unit

/-- What the outside supplies to one operation. -/
structure Input where
  /-- the id `primaryId()` generates -/
  fresh : Id := 0
  /-- the clock -/
  now : Instant := 0
  /-- eight random letters, or 256 random bits -/
  secret : String := ""
  /-- Redis answers -/
  reachable : Bool := true

/-- The code matches, the device waits for it, and the deadline has not passed. -/
def KioskDevice.awaits (row : KioskDevice) (pairingCodeHash : String) (now : Instant) : Bool :=
  row.pairingCodeHash == some pairingCodeHash && row.status == .pending &&
    row.pairingExpiresAt.any fun t => decide (now < t)

/-- The row with its changes. -/
def KioskDevice.changed (row : KioskDevice) (changes : UpdateDeviceInput) : KioskDevice :=
  { row with
    name := changes.name.getD row.name
    status := (changes.status.map Pausing.status).getD row.status }

/-- The row after its code was accepted. -/
def KioskDevice.paired (row : KioskDevice) (tokenHash : String) : KioskDevice :=
  { row with
    status := .active
    tokenHash := some tokenHash
    pairingCodeHash := none
    pairingExpiresAt := none }

/-- The row with a token; `token_hash` is unique. -/
def State.byToken (s : State) (tokenHash : String) : Option (Id × KioskDevice) :=
  (s.kioskDevices.select fun _ row => row.tokenHash == some tokenHash).head?

/-- Perform one operation. -/
def exec (inp : Input) (l : List Mark) (s : State) : (o : Op) → Option (o.Res × List Mark × State)
  | .now => some (inp.now, l, s)
  | .generatePairingCode => some (inp.secret, l, s)
  | .generateSecret => some (inp.secret, l, s)
  | .insertDevice name pairingCodeHash ttl registeredBy =>
    match s.kioskDevices.get inp.fresh with
    | some _ => none
    | none =>
      let row : KioskDevice := ⟨name, none, some pairingCodeHash, some (inp.now + ttl * 1000),
        .pending, none, registeredBy, inp.now⟩
      some ((inp.fresh, row), l, ⟨s.kioskDevices.put inp.fresh row⟩)
  | .activate pairingCodeHash tokenHash =>
    match s.kioskDevices.select fun _ row => row.awaits pairingCodeHash inp.now with
    | [] => some (.ok none, l, s)
    | [(id, row)] =>
      if (s.byToken tokenHash).isSome then some (.error (), l, s)
      else some (.ok (some (id, row.name)), l ++ [.activated id],
        ⟨s.kioskDevices.put id (row.paired tokenHash)⟩)
    -- two rows would get one token
    | _ :: _ :: _ => some (.error (), l, s)
  | .findByCode pairingCodeHash => some (((s.kioskDevices.select fun _ row =>
      row.pairingCodeHash == some pairingCodeHash).head?.map Prod.snd), l, s)
  | .status id => some ((s.kioskDevices.get id).map KioskDevice.status, l, s)
  | .update id changes =>
    match s.kioskDevices.get id with
    | some row =>
      some (some (row.changed changes), l, ⟨s.kioskDevices.put id (row.changed changes)⟩)
    | none => some (none, l, s)
  | .revoke id =>
    match s.kioskDevices.get id with
    | some row => some (true, l ++ [.revoked id],
        ⟨s.kioskDevices.put id { row with status := .revoked }⟩)
    | none => some (false, l, s)
  | .announce _ => some (inp.reachable, l, s)
  | .findByToken tokenHash => some (s.byToken tokenHash,
      l ++ ((s.byToken tokenHash).map fun q => Mark.seen q.1 q.2.status).toList, s)
  | .touch ids => some ((), l, ⟨ids.foldl (fun t id => match t.get id with
      | some row => t.put id { row with lastSeenAt := some inp.now }
      | none => t) s.kioskDevices⟩)

/-- The meaning of the operations. -/
def machine : Machine State (List Mark) Empty Op Op.Res Input :=
  .atomic [] fun o inp l s => exec inp l s o

/-! ## The services -/

/-- What a call can throw. -/
inductive Err where
  /-- `ResourceNotFoundError` -/
  | resourceNotFound (resource : String) (id : Id)
  /-- `PairingCodeInvalidError` -/
  | pairingCodeInvalid
  /-- `PairingCodeExpiredError` -/
  | pairingCodeExpired
  /-- `DeviceNotPairedError` -/
  | deviceNotPaired
  /-- `TokenInvalidError` -/
  | tokenInvalid
  /-- `DeviceRevokedError` -/
  | deviceRevoked
  /-- the driver's error for a taken `token_hash` -/
  | uniqueViolation
  deriving DecidableEq

/-- A service call. -/
abbrev Service (α : Type) : Type := ExceptT Err (Prog Op Op.Res) α

/-- Perform one operation. -/
def perform (o : Op) : Service o.Res := ExceptT.lift (Prog.perform o)

/-- `DeviceSummary`. -/
structure DeviceSummary where
  id : Id
  name : String
  status : DeviceStatus
  lastSeenAt : Option Instant
  createdAt : Instant
  deriving DecidableEq

/-- `SUMMARY_COLUMNS`. -/
def toSummary (id : Id) (row : KioskDevice) : DeviceSummary :=
  ⟨id, row.name, row.status, row.lastSeenAt, row.createdAt⟩

/-- `DevicesService.create`: the device, and the code that pairs it. -/
def create (cfg : Config) (name : String) (registeredBy : Id) : Service (DeviceSummary × String) := do
  let pairingCode : String ← perform .generatePairingCode
  let created : Id × KioskDevice ← perform (.insertDevice name (cfg.hashSecret pairingCode)
    cfg.pairingCodeTtlSeconds registeredBy)
  pure (toSummary created.1 created.2, pairingCode)

/-- `explainFailedPairing`. -/
def explainFailedPairing {α : Type} (codeHash : String) : Service α := do
  let device : Option KioskDevice ← perform (.findByCode codeHash)
  let now : Instant ← perform .now
  if device.any fun d => d.status == .pending && d.pairingExpiresAt.any fun t => decide (t ≤ now)
  then throw .pairingCodeExpired
  else throw .pairingCodeInvalid

/-- `ActivatedDevice`. -/
structure ActivatedDevice where
  deviceId : Id
  name : String
  deviceToken : String
  deriving DecidableEq

/-- `DevicesService.activate`. -/
def activate (cfg : Config) (pairingCode : String) : Service ActivatedDevice := do
  let deviceToken : String ← perform .generateSecret
  let codeHash := cfg.hashSecret pairingCode
  match ← (perform (.activate codeHash (cfg.hashSecret deviceToken)) :
      Service (Except Unit (Option (Id × String)))) with
  | .error _ => throw .uniqueViolation
  | .ok none => explainFailedPairing codeHash
  | .ok (some activated) => pure ⟨activated.1, activated.2, deviceToken⟩

/-- The check of `update`: only a paired device is paused or resumed. -/
def checkPaired (id : Id) (changes : UpdateDeviceInput) : Service Unit :=
  match changes.status with
  | none => pure ()
  | some _ => do
    match ← (perform (.status id) : Service (Option DeviceStatus)) with
    | none => throw (.resourceNotFound "device" id)
    | some current =>
      if current ≠ .active ∧ current ≠ .paused then throw .deviceNotPaired else pure ()

/-- `DevicesService.update`. -/
def update (id : Id) (changes : UpdateDeviceInput) : Service DeviceSummary := do
  checkPaired id changes
  match ← (perform (.update id changes) : Service (Option KioskDevice)) with
  | none => throw (.resourceNotFound "device" id)
  | some updated => pure (toSummary id updated)

/-- `DevicesService.revoke`: what Redis does not hear is only logged. -/
def revoke (id : Id) : Service Unit := do
  match ← (perform (.revoke id) : Service Bool) with
  | false => throw (.resourceNotFound "device" id)
  | true => do
    let _ ← perform (.announce id)
    pure ()

/-- `LAST_SEEN_REFRESH_MS`. -/
def lastSeenRefreshMs : ℤ := 60000

/-- `touchLastSeen`: at most once a minute. -/
def touchLastSeen (id : Id) (lastSeenAt : Option Instant) : Service Unit := do
  let now : Instant ← perform .now
  if lastSeenAt.any fun t => decide (now - t < lastSeenRefreshMs) then pure ()
  else perform (.touch [id])

/-- `DeviceTokenService.resolve`: the device behind a token. -/
def resolve (cfg : Config) (token : String) : Service Id := do
  match ← (perform (.findByToken (cfg.hashSecret token)) :
      Service (Option (Id × KioskDevice))) with
  | none => throw .tokenInvalid
  | some device =>
    if device.2.status = .revoked then throw .deviceRevoked
    else do
      touchLastSeen device.1 device.2.lastSeenAt
      pure device.1

/-- `DeviceTokenService.markSeen`. -/
def markSeen (ids : List Id) : Service Unit :=
  if ids.isEmpty then pure () else perform (.touch ids)

/-! ## The system -/

/-- A call. -/
inductive Call where
  | create (name : String) (registeredBy : Id)
  | activate (pairingCode : String)
  | update (id : Id) (changes : UpdateDeviceInput)
  | revoke (id : Id)
  | resolve (token : String)
  | markSeen (ids : List Id)
  deriving DecidableEq

/-- What a call returns. -/
inductive Reply where
  | created (summary : DeviceSummary) (pairingCode : String)
  | activated (device : ActivatedDevice)
  | updated (summary : DeviceSummary)
  | revoked
  | device (id : Id)
  | marked
  deriving DecidableEq

/-- What a call does. -/
def program (cfg : Config) : Call → Prog Op Op.Res (Except Err Reply)
  | .create name registeredBy =>
    ((fun r : DeviceSummary × String => Reply.created r.1 r.2) <$>
      create cfg name registeredBy).run
  | .activate pairingCode => (Reply.activated <$> activate cfg pairingCode).run
  | .update id changes => (Reply.updated <$> update id changes).run
  | .revoke id => ((fun _ : Unit => Reply.revoked) <$> revoke id).run
  | .resolve token => (Reply.device <$> resolve cfg token).run
  | .markSeen ids => ((fun _ : Unit => Reply.marked) <$> markSeen ids).run

/-- The system: any number of calls, and nothing that happens by itself. -/
def system (cfg : Config) :
    System State (List Mark) Empty Op Op.Res Input Call Empty (Except Err Reply) where
  machine := machine
  program := program cfg
  world e := e.elim
  world_keeps {e} := e.elim

/-- A world of the system. -/
abbrev DeviceWorld : Type := World State (List Mark) Op Op.Res Call (Except Err Reply)

/-- A call, under way or answered. -/
abbrev DeviceThread : Type := Thread (List Mark) Op Op.Res Call (Except Err Reply)

/-- An action of the system. -/
abbrev DeviceAct : Type := Act Input Call Empty

/-- A condition on runs of the system. -/
abbrev DevicePermit : Type := Permit State (List Mark) Op Call Empty

/-- No device, nobody calling. -/
def opening : DeviceWorld := .initial ⟨∅⟩

end CafePos.Devices
