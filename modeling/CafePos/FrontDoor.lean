import CafePos.Auth
import CafePos.Devices
import CafePos.Throttle

/-!
# The guards in front of every route

`AuthenticationGuard`, `IdentityThrottlerGuard` and `RolesGuard` (`identity/guards`,
`identity/rate-limit/identity-throttler.guard.ts`), in the order in which `identity.module.ts`
registers them, and what they rest on: `AccessTokenService`, `DeviceTokenService.resolve` and the
counters in Redis. Each `await` is an operation of its own. Besides requests there are the calls
that decide what a request may do: the sign-ins that mint tokens, and the updates of users and
devices.

The JWT library is a table of what was signed: a token verifies if it is there and has not expired.
Tokens of other kinds may be signed with the same secret, which is what `type` is for.
-/

namespace CafePos.FrontDoor

open Interleaving
open Auth (UserRole)
open Throttle (Counter RateLimitRule ThrottleRecord)

/-! ## Principals -/

/-- `PrincipalRole`. -/
inductive PrincipalRole where
  | staff (role : UserRole)
  | kiosk
  deriving DecidableEq

/-- `Principal`. -/
inductive Principal where
  | staff (userId : Id) (role : UserRole) (tokenId : Id)
  | device (deviceId : Id)
  deriving DecidableEq

/-- `principal.role`. -/
def Principal.role : Principal → PrincipalRole
  | .staff _ role _ => .staff role
  | .device _ => .kiosk

/-- A role, as `users.role` and the tokens spell it. -/
def roleText : UserRole → String
  | .admin => "ADMIN"
  | .manager => "MANAGER"
  | .cashier => "CASHIER"
  | .barista => "BARISTA"

/-- `isUserRole`, and the role. -/
def userRole (text : String) : Option UserRole :=
  [UserRole.admin, .manager, .cashier, .barista].find? fun role => roleText role == text

@[simp] theorem userRole_roleText (role : UserRole) : userRole (roleText role) = some role := by
  cases role <;> decide

/-- `STAFF_TOKEN_TYPE`. -/
def staffTokenType : String := "staff"

/-- `StaffClaims`; `exp` in milliseconds. -/
structure StaffClaims where
  sub : Id
  role : String
  type : String
  jti : Id
  exp : Instant
  deriving DecidableEq

/-! ## Routes -/

/-- `RateLimitRuleName`. -/
inductive RateLimitRuleName where
  | staffGeneral | login | deviceActivation
  deriving DecidableEq

/-- `RATE_LIMITS`. -/
def RateLimitRuleName.rule : RateLimitRuleName → RateLimitRule
  | staffGeneral => .staffGeneral
  | login => .login
  | deviceActivation => .deviceActivation

/-- `onBackendFailure` is `refuse`. -/
def RateLimitRuleName.refuses : RateLimitRuleName → Bool
  | staffGeneral => false
  | login | deviceActivation => true

/-- What the decorators of a handler and of its controller say: `@Public`, `@Roles` and
`@RateLimit`. -/
structure Route where
  handler : String
  isPublic : Bool
  roles : Option (List PrincipalRole)
  rateLimit : Option RateLimitRuleName
  deriving DecidableEq

/-- The rule a route runs on. -/
def Route.ruleOf (route : Route) : RateLimitRuleName := route.rateLimit.getD .staffGeneral

/-! ## The state -/

/-- What is read of a row of `users`. -/
structure User where
  role : UserRole
  isActive : Bool
  deriving DecidableEq

/-- What is read of a row of `kiosk_devices`. -/
structure Device where
  tokenHash : Option String
  status : DeviceStatus
  lastSeenAt : Option Instant
  deriving DecidableEq

/-- The clock, the tables, what was signed, and the counters of each route. -/
structure State where
  clock : Instant
  users : Table Id User
  devices : Table Id Device
  signed : Table String StaffClaims
  counters : Table (String × String) Counter

/-- `ACCESS_TOKEN_TTL_SECONDS`, and SHA-256 (`hashSecret`). -/
structure Config where
  ttlSeconds : ℕ
  hashSecret : String → String

/-- The lifetime of a token, in milliseconds. -/
def Config.lifetime (cfg : Config) : Instant := cfg.ttlSeconds * 1000

/-- `exp` of a token that is signed now: it counts whole seconds. -/
def Config.expiry (cfg : Config) (now : Instant) : Instant := now / 1000 * 1000 + cfg.lifetime

/-- What a call has read; no guard reads it. -/
inductive Note where
  /-- nothing yet -/
  | blank
  /-- a sign-in has read the user's row -/
  | read (user : Option User)
  /-- a token was verified at this time -/
  | verified (time : Instant) (claims : StaffClaims)
  /-- a device was found by its token -/
  | found (deviceId : Id) (device : Device)
  deriving DecidableEq

/-! ## Operations -/

/-- Why `verifyAsync` rejects. -/
inductive JwtError where
  | expired | invalid
  deriving DecidableEq

/-- What a call asks of the outside. -/
inductive Op where
  /-- `Date.now()` -/
  | now
  /-- `jwt.verifyAsync` -/
  | verify (token : String)
  /-- `kiosk_devices`, by `token_hash` -/
  | deviceByHash (tokenHash : String)
  /-- `UPDATE kiosk_devices SET last_seen_at = now WHERE id` -/
  | touch (deviceId : Id)
  /-- `storage.increment`, on the key of the route and the caller -/
  | increment (name : RateLimitRuleName) (handler tracker : String)
  /-- `users`, by id -/
  | userById (userId : Id)
  /-- `jwt.signAsync` -/
  | sign (userId : Id) (role : UserRole)
  /-- an update of `users` -/
  | updateUser (userId : Id) (user : User)
  /-- an update of `kiosk_devices` -/
  | updateDevice (deviceId : Id) (device : Device)

/-- What an operation returns. -/
def Op.Res : Op → Type
  | now => Instant
  | verify _ => Except JwtError StaffClaims
  | deviceByHash _ => Option (Id × Device)
  | touch _ => Unit
  | increment .. => Except Unit ThrottleRecord
  | userById _ => Option User
  | sign .. => String
  | updateUser .. => Unit
  | updateDevice .. => Unit

/-- What the outside supplies to one operation. -/
structure Input where
  /-- the signed token -/
  jwt : String := ""
  /-- `jti` -/
  fresh : Id := 0
  /-- Redis answers -/
  reachable : Bool := true

/-- Perform one operation. -/
def exec (cfg : Config) (inp : Input) (l : Note) (s : State) :
    (o : Op) → Option (o.Res × Note × State)
  | .now => some (s.clock, l, s)
  | .verify token =>
    match s.signed.get token with
    | none => some (.error .invalid, l, s)
    | some claims =>
      if s.clock < claims.exp then some (.ok claims, .verified s.clock claims, s)
      else some (.error .expired, l, s)
  | .deviceByHash tokenHash =>
    match (s.devices.select fun _ device => device.tokenHash == some tokenHash).head? with
    | none => some (none, l, s)
    | some q => some (some q, .found q.1 q.2, s)
  | .touch deviceId =>
    match s.devices.get deviceId with
    | none => some ((), l, s)
    | some device => some ((), l, { s with
        devices := s.devices.put deviceId { device with lastSeenAt := some s.clock } })
  | .increment name handler tracker =>
    if inp.reachable then
      let result := Throttle.increment name.rule s.clock (s.counters.get (handler, tracker))
      some (.ok result.2, l, { s with counters := s.counters.put (handler, tracker) result.1 })
    else some (.error (), l, s)
  | .userById userId => some (s.users.get userId, .read (s.users.get userId), s)
  | .sign userId role =>
    -- a JWT is three segments, and nobody has it yet
    if (s.signed.get inp.jwt).isSome || !inp.jwt.toList.contains '.' then none
    else some (inp.jwt, l, { s with
      signed := s.signed.put inp.jwt
        ⟨userId, roleText role, staffTokenType, inp.fresh, cfg.expiry s.clock⟩ })
  | .updateUser userId user => some ((), l, { s with users := s.users.put userId user })
  | .updateDevice deviceId device =>
    some ((), l, { s with devices := s.devices.put deviceId device })

/-- The meaning of the operations. -/
def machine (cfg : Config) : Machine State Note Empty Op Op.Res Input :=
  .atomic .blank fun o inp l s => exec cfg inp l s o

/-! ## The guards -/

/-- What a call can throw. -/
inductive Err where
  /-- `TokenInvalidError` -/
  | tokenInvalid
  /-- `TokenExpiredError` -/
  | tokenExpired
  /-- `DeviceRevokedError` -/
  | deviceRevoked
  /-- `DependencyUnavailableError` -/
  | dependencyUnavailable
  /-- `RateLimitedError` -/
  | rateLimited (retryAfterSeconds : ℤ)
  /-- `ForbiddenRoleError` -/
  | forbiddenRole (allowed : List PrincipalRole)
  /-- the plain `Error` for a route that declares no policy -/
  | undeclaredPolicy
  /-- `InvalidCredentialsError` -/
  | invalidCredentials
  deriving DecidableEq

/-- A service call. -/
abbrev Service (α : Type) : Type := ExceptT Err (Prog Op Op.Res) α

/-- Perform one operation. -/
def perform (o : Op) : Service o.Res := ExceptT.lift (Prog.perform o)

/-- `bearerTokenOf`: what `/^bearer\s+(\S+)$/i` captures. -/
def bearerTokenOf (authorization : Option String) : Option String :=
  let text := (authorization.getD "").toList
  let rest := text.drop 6
  let token := rest.dropWhile Char.isWhitespace
  if (text.take 6).map Char.toLower = "bearer".toList ∧ token.length < rest.length ∧ token ≠ [] ∧
      token.all (fun c => !c.isWhitespace) then
    some (String.ofList token)
  else none

/-- `AccessTokenService.verify`. -/
def verify (token : String) : Service Principal := do
  match ← (perform (.verify token) : Service (Except JwtError StaffClaims)) with
  | .error .expired => throw .tokenExpired
  | .error .invalid => throw .tokenInvalid
  | .ok claims =>
    if claims.type ≠ staffTokenType then throw .tokenInvalid
    else match userRole claims.role with
      | none => throw .tokenInvalid
      | some role => pure (.staff claims.sub role claims.jti)

/-- `touchLastSeen`. -/
def touchLastSeen (deviceId : Id) (lastSeenAt : Option Instant) : Service Unit := do
  let now : Instant ← perform .now
  if lastSeenAt.any fun seen => decide (now - seen < Devices.lastSeenRefreshMs) then pure ()
  else perform (.touch deviceId)

/-- `DeviceTokenService.resolve`. -/
def resolve (cfg : Config) (token : String) : Service Principal := do
  match ← (perform (.deviceByHash (cfg.hashSecret token)) : Service (Option (Id × Device))) with
  | none => throw .tokenInvalid
  | some (deviceId, device) =>
    if device.status = .revoked then throw .deviceRevoked
    else do
      touchLastSeen deviceId device.lastSeenAt
      pure (.device deviceId)

/-- `AuthenticationGuard`: a token with a dot in it is a JWT. -/
def authenticate (cfg : Config) (route : Route) (authorization : Option String) :
    Service (Option Principal) :=
  if route.isPublic then pure none
  else match bearerTokenOf authorization with
    | none => throw .tokenInvalid
    | some token =>
      if token.toList.contains '.' then some <$> verify token else some <$> resolve cfg token

/-- `getTracker`. -/
def trackerOf (principal : Option Principal) (ip : Option String) : String :=
  match principal with
  | some (.staff userId _ _) => "user:" ++ toString userId
  | some (.device deviceId) => "device:" ++ toString deviceId
  | none => "ip:" ++ ip.getD "unknown"

/-- `timeToBlockExpire || timeToExpire`. -/
def retryAfter (record : ThrottleRecord) : ℤ :=
  if record.timeToBlockExpire = 0 then record.timeToExpire else record.timeToBlockExpire

/-- `IdentityThrottlerGuard`: what an unreachable counter means depends on the rule. -/
def throttle (route : Route) (principal : Option Principal) (ip : Option String) :
    Service Unit := do
  match ← (perform (.increment route.ruleOf route.handler (trackerOf principal ip)) :
      Service (Except Unit ThrottleRecord)) with
  | .error _ => if route.ruleOf.refuses then throw .dependencyUnavailable else pure ()
  | .ok record => if record.isBlocked then throw (.rateLimited (retryAfter record)) else pure ()

/-- `RolesGuard`. -/
def checkRole (route : Route) (principal : Option Principal) : Service Unit :=
  if route.isPublic then pure ()
  else match route.roles with
    | none => throw .undeclaredPolicy
    | some allowed =>
      if principal.any fun p => decide (p.role ∈ allowed) then pure ()
      else throw (.forbiddenRole allowed)

/-- A request, up to where its handler begins: the principal it is handled for. -/
def request (cfg : Config) (route : Route) (authorization ip : Option String) :
    Service (Option Principal) := do
  let principal ← authenticate cfg route authorization
  throttle route principal ip
  checkRole route principal
  pure principal

/-- `login` and `refresh`, from the user's row on: an active user gets a token for its role. -/
def signIn (userId : Id) : Service String := do
  match ← (perform (.userById userId) : Service (Option User)) with
  | none => throw .invalidCredentials
  | some user =>
    if user.isActive then perform (.sign userId user.role) else throw .invalidCredentials

/-! ## The system -/

/-- A call. -/
inductive Call where
  | request (route : Route) (authorization ip : Option String)
  | signIn (userId : Id)
  | updateUser (userId : Id) (user : User)
  | updateDevice (deviceId : Id) (device : Device)
  deriving DecidableEq

/-- What a call returns. -/
inductive Reply where
  /-- the handler begins -/
  | handled (principal : Option Principal)
  | signedIn (token : String)
  | updated
  deriving DecidableEq

/-- What a call is answered. -/
abbrev Answer : Type := Except Err Reply

/-- What a call does. -/
def program (cfg : Config) : Call → Prog Op Op.Res Answer
  | .request route authorization ip =>
    (Reply.handled <$> request cfg route authorization ip).run
  | .signIn userId => (Reply.signedIn <$> signIn userId).run
  | .updateUser userId user =>
    ((fun _ : Unit => Reply.updated) <$> perform (.updateUser userId user)).run
  | .updateDevice deviceId device =>
    ((fun _ : Unit => Reply.updated) <$> perform (.updateDevice deviceId device)).run

/-- What happens by itself. -/
inductive Event where
  /-- time passes, and Redis drops the counters that have expired -/
  | tick (elapsed : ℕ)
  /-- a token of another kind is signed with the same secret -/
  | signOther (token : String) (claims : StaffClaims)
  deriving DecidableEq

/-- The effect of an event. -/
def happen (s : State) : Event → Option State
  | .tick elapsed => some { s with
      clock := s.clock + elapsed
      counters := s.counters.keep fun _ counter => counter.lives (s.clock + elapsed) }
  | .signOther token claims =>
    if claims.type = staffTokenType || (s.signed.get token).isSome then none
    else some { s with signed := s.signed.put token claims }

/-- Any number of calls on any number of instances. -/
def system (cfg : Config) : System State Note Empty Op Op.Res Input Call Event Answer where
  machine := machine cfg
  program := program cfg
  world e s := happen s e
  world_keeps {_ _ _} _ x := x.elim

/-- A world of the system. -/
abbrev DoorWorld : Type := World State Note Op Op.Res Call Answer

/-- A call, under way or answered. -/
abbrev DoorThread : Type := Thread Note Op Op.Res Call Answer

/-- An action of the system. -/
abbrev DoorAct : Type := Act Input Call Event

/-- Users and devices, and nothing else yet. -/
def opening (users : Table Id User) (devices : Table Id Device) : DoorWorld :=
  .initial ⟨0, users, devices, ∅, ∅⟩

end CafePos.FrontDoor
