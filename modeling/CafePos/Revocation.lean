import CafePos.Interleaving.Atomic
import CafePos.Interleaving.Table
import CafePos.Schema

/-!
# Revocation: the denylist and the kill channel

`RevocationService` (`identity/revocation/revocation.service.ts`), who calls it, and the two
gateways that act on it (`realtime/kds.gateway.ts`, `realtime/kiosk.gateway.ts`). A staff token is
denied by its user or by its own id, under keys that expire; a device is refused by its row. A
socket is checked once, at its handshake, and filed in the rooms that a kill message addresses in
a later step; every instance handles the messages in the order of their publication.

Redis is available, so nothing is retried. Two things are remembered that no code reads: whether
an access token was named by a revocation since it was minted (`AccessToken.revoked`), and which
credentials there were when a revocation was applied (`Message.victims`).
-/

namespace CafePos.Revocation

open Interleaving

/-! ## The data model -/

/-- `Revocation`: what a message names. -/
inductive Named where
  | user (userId : Id)
  | token (jti : Id)
  | device (deviceId : Id)
  deriving DecidableEq

/-- `userKey` and `tokenKey`. -/
inductive DenyKey where
  | user (userId : Id)
  | token (jti : Id)
  deriving DecidableEq

/-- An access token that was minted. -/
structure AccessToken where
  userId : Id
  /-- `exp`, in milliseconds -/
  expiresAt : Instant
  /-- it was named by a revocation since -/
  revoked : Bool
  deriving DecidableEq

/-- What a socket was authenticated with. -/
inductive Credential where
  | token (jti : Id)
  | device (deviceId : Id)
  deriving DecidableEq

/-- A socket that its instance holds. -/
structure Socket where
  inst : ℕ
  credential : Credential
  /-- it is filed in its rooms -/
  joined : Bool
  deriving DecidableEq

/-- A message of the kill channel, with its number. -/
structure Message where
  named : Named
  number : ℕ
  /-- the credentials there were when the revocation was applied -/
  victims : List Credential
  deriving DecidableEq

/-- What is read of a row of `users`. -/
structure User where
  isActive : Bool
  deriving DecidableEq

/-- Redis, the tables, the sockets and the messages on their way. -/
structure State where
  clock : Instant
  denylist : Table DenyKey Instant
  tokens : Table Id AccessToken
  users : Table Id User
  /-- the devices, and whether they are revoked -/
  devices : Table Id Bool
  sockets : Table Id Socket
  /-- the messages each instance has not handled yet -/
  inbox : List (ℕ × Message)
  /-- the messages each instance has handled -/
  handled : List (ℕ × Message)
  /-- how many messages were published -/
  published : ℕ

/-- The instances, and the lifetime of an access token. -/
structure Config where
  instances : List ℕ
  /-- `ACCESS_TOKEN_TTL_SECONDS` -/
  ttlSeconds : ℕ

/-- What a call has done. -/
inductive Note where
  /-- nothing yet -/
  | blank
  /-- a revocation is applied -/
  | applied (named : Named) (victims : List Credential)
  /-- and announced -/
  | published (message : Message)
  deriving DecidableEq

/-! ## Operations -/

/-- What a call asks of the outside. -/
inductive Op where
  /-- `users`, by id -/
  | findUser (userId : Id)
  /-- `accessTokens.issue` -/
  | issue (userId : Id)
  /-- the transaction of `UsersService.update` -/
  | updateUser (userId : Id) (isActive : Bool)
  /-- `SET key '1' EX ttlSeconds` -/
  | set (key : DenyKey)
  /-- `UPDATE kiosk_devices SET status = 'REVOKED' WHERE id RETURNING id` -/
  | revokeDevice (deviceId : Id)
  /-- `PUBLISH` on the kill channel -/
  | publish (named : Named)
  /-- `MGET userKey tokenKey` -/
  | isRevoked (userId jti : Id)
  /-- `KdsGateway.authenticate` -/
  | authenticateStaff (inst : ℕ) (jti : Id)
  /-- `KioskGateway.authenticate` -/
  | authenticateDevice (inst : ℕ) (deviceId : Id)
  /-- `client.join` -/
  | join (socketId : Id)

/-- What an operation returns. -/
def Op.Res : Op → Type
  | findUser _ => Option User
  | issue _ => Id
  | updateUser .. => Unit
  | set _ => Unit
  | revokeDevice _ => Bool
  | publish _ => Unit
  | isRevoked .. => Bool
  | authenticateStaff .. => Option Id
  | authenticateDevice .. => Option Id
  | join _ => Unit

/-- What the outside supplies to one operation. -/
structure Input where
  /-- the id that is generated -/
  fresh : Id := 0

/-- The message names the credential. -/
def Named.names (tokens : Table Id AccessToken) : Named → Credential → Bool
  | .user userId, .token jti => (tokens.get jti).any fun token => token.userId == userId
  | .token jti, .token jti' => jti == jti'
  | .device deviceId, .device deviceId' => deviceId == deviceId'
  | _, _ => false

/-- The key names the token. -/
def DenyKey.names (jti : Id) (token : AccessToken) : DenyKey → Bool
  | .user userId => token.userId == userId
  | .token jti' => jti == jti'

/-- What a key says, as a message. -/
def DenyKey.named : DenyKey → Named
  | .user userId => .user userId
  | .token jti => .token jti

/-- The tokens that a key names. -/
def victims (tokens : Table Id AccessToken) (key : DenyKey) : List Credential :=
  (tokens.select fun jti token => key.names jti token).map fun q => .token q.1

/-- The lifetime of a token and of a key, in milliseconds. -/
def Config.lifetime (cfg : Config) : Instant := cfg.ttlSeconds * 1000

/-- `exp`: the clock of a token counts whole seconds. -/
def Config.expiry (cfg : Config) (now : Instant) : Instant := now / 1000 * 1000 + cfg.lifetime

/-- A key is there, for a user or for a token. -/
def State.isRevoked (s : State) (userId jti : Id) : Bool :=
  (s.denylist.get (.user userId)).isSome || (s.denylist.get (.token jti)).isSome

/-- `KdsGateway.authenticate` lets the token in: it has not expired, and is not revoked. -/
def State.admitsToken (s : State) (jti : Id) : Bool :=
  (s.tokens.get jti).any fun token =>
    decide (s.clock < token.expiresAt) && !s.isRevoked token.userId jti

/-- `DeviceTokenService.resolve` lets the device in. -/
def State.admitsDevice (s : State) (deviceId : Id) : Bool :=
  s.devices.get deviceId == some false

/-- The token, once a key is set. -/
def AccessToken.marked (token : AccessToken) (key : DenyKey) (jti : Id) : AccessToken :=
  { token with revoked := token.revoked || key.names jti token }

/-- Every token that a key names was revoked. -/
def State.mark (s : State) (key : DenyKey) : Table Id AccessToken :=
  s.tokens.mapKeyed fun jti token => token.marked key jti

/-- The socket of an authenticated handshake. -/
def State.welcome (s : State) (socketId : Id) (inst : ℕ) (credential : Credential) : State :=
  { s with sockets := s.sockets.put socketId ⟨inst, credential, false⟩ }

/-- The victims a call has noted. -/
def Note.victims : Note → List Credential
  | applied _ victims => victims
  | _ => []

/-- Perform one operation. -/
def exec (cfg : Config) (inp : Input) (l : Note) (s : State) :
    (o : Op) → Option (o.Res × Note × State)
  | .findUser userId => some (s.users.get userId, l, s)
  | .issue userId =>
    -- nobody has named this token before
    if (s.tokens.get inp.fresh).isSome || (s.denylist.get (.token inp.fresh)).isSome then none
    else some (inp.fresh, l, { s with
      tokens := s.tokens.put inp.fresh ⟨userId, cfg.expiry s.clock, false⟩ })
  | .updateUser userId isActive => some ((), l, { s with users := s.users.put userId ⟨isActive⟩ })
  | .set key => some ((), .applied key.named (victims s.tokens key), { s with
      denylist := s.denylist.put key (s.clock + cfg.lifetime)
      tokens := s.mark key })
  | .revokeDevice deviceId =>
    match s.devices.get deviceId with
    | some _ => some (true, .applied (.device deviceId) [.device deviceId], { s with
        devices := s.devices.put deviceId true })
    | none => some (false, l, s)
  | .publish named =>
    let message : Message := ⟨named, s.published, l.victims⟩
    some ((), .published message, { s with
      inbox := s.inbox ++ cfg.instances.map fun n => (n, message)
      published := s.published + 1 })
  | .isRevoked userId jti => some (s.isRevoked userId jti, l, s)
  | .authenticateStaff inst jti =>
    if s.admitsToken jti && (s.sockets.get inp.fresh).isNone then
      some (some inp.fresh, l, s.welcome inp.fresh inst (.token jti))
    else if s.admitsToken jti then none
    else some (none, l, s)
  | .authenticateDevice inst deviceId =>
    if s.admitsDevice deviceId && (s.sockets.get inp.fresh).isNone then
      some (some inp.fresh, l, s.welcome inp.fresh inst (.device deviceId))
    else if s.admitsDevice deviceId then none
    else some (none, l, s)
  | .join socketId =>
    match s.sockets.get socketId with
    | some socket => some ((), l, { s with
        sockets := s.sockets.put socketId { socket with joined := true } })
    | none => some ((), l, s)

/-- The meaning of the operations. -/
def machine (cfg : Config) : Machine State Note Empty Op Op.Res Input :=
  .atomic .blank fun o inp l s => exec cfg inp l s o

/-! ## The services -/

/-- What a call can throw. -/
inductive Err where
  /-- `InvalidCredentialsError` -/
  | invalidCredentials
  /-- `ResourceNotFoundError` -/
  | resourceNotFound
  /-- a handshake is refused -/
  | unauthorized
  deriving DecidableEq

/-- A service call. -/
abbrev Service (α : Type) : Type := ExceptT Err (Prog Op Op.Res) α

/-- Perform one operation. -/
def perform (o : Op) : Service o.Res := ExceptT.lift (Prog.perform o)

/-- `announce`: the key is written before it is announced. -/
def announce (key : DenyKey) : Service Unit := do
  perform (.set key)
  perform (.publish key.named)

/-- `revokeUser`. -/
def revokeUser (userId : Id) : Service Unit := announce (.user userId)

/-- `revokeToken`. -/
def revokeToken (jti : Id) : Service Unit := announce (.token jti)

/-- `login` and `refresh`, from the user's row on: an active user gets a token. -/
def issuePair (userId : Id) : Service Unit := do
  match ← (perform (.findUser userId) : Service (Option User)) with
  | none => throw .invalidCredentials
  | some user =>
    if !user.isActive then throw .invalidCredentials
    else do
      let _ ← perform (.issue userId)
      pure ()

/-- `UsersService.update`, on the path that changes what somebody may do. -/
def updateUser (userId : Id) (isActive : Bool) : Service Unit := do
  perform (.updateUser userId isActive)
  revokeUser userId

/-- `AuthService.logout`, once the family is revoked. -/
def logout (jti : Id) : Service Unit := revokeToken jti

/-- `DevicesService.revoke`: the row, then the open sockets. -/
def revokeDevice (deviceId : Id) : Service Unit := do
  match ← (perform (.revokeDevice deviceId) : Service Bool) with
  | false => throw .resourceNotFound
  | true => perform (.publish (.device deviceId))

/-- A handshake: the middleware authenticates, `handleConnection` files the socket. -/
def handshake (authenticate : Service (Option Id)) : Service Unit := do
  match ← authenticate with
  | none => throw .unauthorized
  | some socketId => perform (.join socketId)

/-- A handshake on the `kds` namespace. -/
def connectKds (inst : ℕ) (jti : Id) : Service Unit :=
  handshake (perform (.authenticateStaff inst jti))

/-- A handshake on the `kiosk` namespace. -/
def connectKiosk (inst : ℕ) (deviceId : Id) : Service Unit :=
  handshake (perform (.authenticateDevice inst deviceId))

/-! ## The system -/

/-- A call. -/
inductive Call where
  | login (userId : Id)
  | refresh (userId : Id)
  | updateUser (userId : Id) (isActive : Bool)
  | logout (jti : Id)
  | isRevoked (userId jti : Id)
  | revokeDevice (deviceId : Id)
  | connectKds (inst : ℕ) (jti : Id)
  | connectKiosk (inst : ℕ) (deviceId : Id)
  deriving DecidableEq

/-- What a call does; only a question has an answer. -/
def program : Call → Prog Op Op.Res (Except Err Bool)
  | .login userId | .refresh userId => ((fun _ : Unit => true) <$> issuePair userId).run
  | .updateUser userId isActive => ((fun _ : Unit => true) <$> updateUser userId isActive).run
  | .logout jti => ((fun _ : Unit => true) <$> logout jti).run
  | .isRevoked userId jti => (perform (.isRevoked userId jti)).run
  | .revokeDevice deviceId => ((fun _ : Unit => true) <$> revokeDevice deviceId).run
  | .connectKds inst jti => ((fun _ : Unit => true) <$> connectKds inst jti).run
  | .connectKiosk inst deviceId => ((fun _ : Unit => true) <$> connectKiosk inst deviceId).run

/-- What happens by itself. -/
inductive Event where
  /-- time passes, and Redis drops what has expired -/
  | tick (elapsed : ℕ)
  /-- an instance handles the next message of the kill channel -/
  | handle (inst : ℕ)
  /-- a client goes away -/
  | hangUp (socketId : Id)
  deriving DecidableEq

/-- The socket is in a room that the message addresses, on this instance. -/
def Socket.killedBy (tokens : Table Id AccessToken) (inst : ℕ) (named : Named)
    (socket : Socket) : Bool :=
  socket.inst == inst && socket.joined && named.names tokens socket.credential

/-- The next message of an instance. -/
def State.next (s : State) (inst : ℕ) : Option Message :=
  (s.inbox.find? fun q => q.1 == inst).map Prod.snd

/-- `disconnectSockets` on the local members of the room. -/
def State.handle (s : State) (inst : ℕ) (message : Message) : State :=
  { s with
    sockets := s.sockets.keep fun _ socket => !socket.killedBy s.tokens inst message.named
    inbox := s.inbox.eraseP fun q => q.1 == inst
    handled := s.handled ++ [(inst, message)] }

/-- The effect of an event. -/
def happen (s : State) : Event → Option State
  | .tick elapsed => some { s with
      clock := s.clock + elapsed
      denylist := s.denylist.keep fun _ expiresAt => decide (s.clock + elapsed ≤ expiresAt) }
  | .handle inst => (s.next inst).map (s.handle inst)
  | .hangUp socketId => some { s with sockets := s.sockets.keep fun id _ => id != socketId }

/-- Any number of calls on any number of instances. -/
def system (cfg : Config) :
    System State Note Empty Op Op.Res Input Call Event (Except Err Bool) where
  machine := machine cfg
  program := program
  world e s := happen s e
  world_keeps {_ _ _} _ x := x.elim

/-- A world of the system. -/
abbrev RevocationWorld : Type := World State Note Op Op.Res Call (Except Err Bool)

/-- A call, under way or answered. -/
abbrev RevocationThread : Type := Thread Note Op Op.Res Call (Except Err Bool)

/-- An action of the system. -/
abbrev RevocationAct : Type := Act Input Call Event

/-- Users and devices, and nothing else yet. -/
def opening (users : Table Id User) (devices : Table Id Bool) : RevocationWorld :=
  .initial ⟨0, ∅, ∅, users, devices, ∅, [], [], 0⟩

end CafePos.Revocation
