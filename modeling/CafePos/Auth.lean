import CafePos.Interleaving.Atomic
import CafePos.Interleaving.Table
import CafePos.Batches
import CafePos.Schema

/-!
# Staff sessions

`AuthService.login`, `refresh` and `logout` (`identity/auth/auth.service.ts`), and the
retention job that deletes stale refresh tokens. There is no transaction: every `await` is an
operation of its own, and other calls run between any two of them. The journal of a call
(`Mark`) records what its statements did; no service reads it.
-/

namespace CafePos.Auth

open Interleaving

/-! ## The data model -/

/-- `userRoles`. -/
inductive UserRole where
  | admin | manager | cashier | barista
  deriving DecidableEq

/-- A row of `users`, as the services read it. -/
structure User where
  id : Id
  email : String
  displayName : String
  role : UserRole
  passwordHash : String
  isActive : Bool

/-- A row of `refresh_tokens`. -/
structure RefreshToken where
  userId : Id
  tokenHash : String
  familyId : Id
  expiresAt : Instant
  revokedAt : Option Instant
  deriving DecidableEq

/-- The table, and every id that `uuidv7` has generated. -/
structure State where
  refreshTokens : Table Id RefreshToken
  uuids : List Id

/-- What a statement of a call did. -/
inductive Mark where
  /-- login began a family -/
  | opened (familyId : Id)
  /-- refresh retired a token -/
  | retired (id familyId : Id)
  /-- a token was inserted -/
  | issued (id familyId : Id)
  /-- a token of the family was looked up -/
  | found (familyId : Id)
  /-- a family was revoked -/
  | revoked (familyId : Id)
  deriving DecidableEq

/-- The environment variable the service reads, and SHA-256 (`hashSecret`). -/
structure Config where
  refreshTokenTtlSeconds : ℤ
  hashSecret : String → String

/-! ## Operations -/

/-- What a call asks of the outside. -/
inductive Op where
  /-- `Date.now()` -/
  | now
  /-- `UPDATE refresh_tokens SET revoked_at WHERE token_hash AND revoked_at IS NULL
  RETURNING *` -/
  | retire (tokenHash : String)
  /-- `refresh_tokens`, by `token_hash` -/
  | findToken (tokenHash : String)
  /-- `UPDATE refresh_tokens SET revoked_at WHERE family_id AND revoked_at IS NULL` -/
  | revokeFamily (familyId : Id)
  /-- `INSERT INTO refresh_tokens` -/
  | insertToken (userId : Id) (tokenHash : String) (familyId : Id) (ttl : ℤ)
  /-- delete at most `limit` tokens that expired or were revoked 30 days ago -/
  | deleteStale (limit : ℕ)
  /-- `users`, by email -/
  | userByEmail (email : String)
  /-- `users`, by id -/
  | userById (id : Id)
  /-- `loginAttempts.assertNotLockedOut` -/
  | assertNotLockedOut (email : String)
  /-- `loginAttempts.recordFailure` -/
  | recordFailure (email : String)
  /-- `loginAttempts.clear` -/
  | clearFailures (email : String)
  /-- `passwords.verify` -/
  | verifyPassword (passwordHash password : String)
  /-- `uuidv7()` -/
  | uuid
  /-- `accessTokens.issue` -/
  | issueAccess (userId : Id) (role : UserRole)
  /-- `generateSecret()` -/
  | generateSecret
  /-- `revocations.revokeToken`, which may fail -/
  | revokeToken (tokenId : String)

/-- What an operation returns. -/
def Op.Res : Op → Type
  | now => Instant
  | retire _ => Option (Id × RefreshToken)
  | findToken _ => Option (Id × RefreshToken)
  | revokeFamily _ => Unit
  | insertToken .. => Except Unit Unit
  | deleteStale _ => ℕ
  | userByEmail _ => Option User
  | userById _ => Option User
  | assertNotLockedOut _ => Except ℕ Unit
  | recordFailure _ => Unit
  | clearFailures _ => Unit
  | verifyPassword .. => Bool
  | uuid => Id
  | issueAccess .. => String × ℕ
  | generateSecret => String
  | revokeToken _ => Bool

/-- What the outside supplies to one operation. -/
structure Input where
  /-- the next id of `uuidv7` -/
  fresh : Id := 0
  /-- the clock -/
  now : Instant := 0
  /-- the row of `users` -/
  user : Option User := none
  /-- the account is not locked out -/
  lockout : Except ℕ Unit := .ok ()
  /-- the password is right -/
  verified : Bool := true
  /-- the signed access token and its lifetime -/
  access : String × ℕ := ("", 0)
  /-- 256 random bits -/
  secret : String := ""
  /-- Redis answers -/
  reachable : Bool := true

/-- 30 days. -/
def refreshTokenWindow : ℤ := 30 * 24 * 60 * 60 * 1000

/-- The token expired, or was revoked, before the retention window. -/
def RefreshToken.isStale (row : RefreshToken) (now : Instant) : Bool :=
  decide (row.expiresAt < now - refreshTokenWindow) ||
    row.revokedAt.any fun t => decide (t < now - refreshTokenWindow)

/-- The row with a hash; `token_hash` is unique. -/
def State.byHash (s : State) (tokenHash : String) : Option (Id × RefreshToken) :=
  (s.refreshTokens.select fun _ row => row.tokenHash == tokenHash).head?

/-- The row, revoked now if it belongs to the family and still is not. -/
def RefreshToken.revokeIn (row : RefreshToken) (familyId : Id) (now : Instant) : RefreshToken :=
  if row.familyId = familyId ∧ row.revokedAt = none then { row with revokedAt := some now } else row

/-- Perform one operation. -/
def exec (inp : Input) (l : List Mark) (s : State) : (o : Op) → Option (o.Res × List Mark × State)
  | .now => some (inp.now, l, s)
  | .retire tokenHash =>
    match s.byHash tokenHash with
    | some (id, row) =>
      if row.revokedAt = none then
        some (some (id, { row with revokedAt := some inp.now }), l ++ [.retired id row.familyId],
          { s with refreshTokens := s.refreshTokens.put id { row with revokedAt := some inp.now } })
      else some (none, l, s)
    | none => some (none, l, s)
  | .findToken tokenHash => some (s.byHash tokenHash,
      l ++ ((s.byHash tokenHash).map fun q => Mark.found q.2.familyId).toList, s)
  | .revokeFamily familyId => some ((), l ++ [.revoked familyId],
      { s with refreshTokens := s.refreshTokens.mapRows fun row => row.revokeIn familyId inp.now })
  | .insertToken userId tokenHash familyId ttl =>
    if inp.fresh ∈ s.uuids then none
    else
      match s.byHash tokenHash with
      | some _ => some (.error (), l, s)
      | none => some (.ok (), l ++ [.issued inp.fresh familyId],
          { s with
            refreshTokens := s.refreshTokens.put inp.fresh
              ⟨userId, tokenHash, familyId, inp.now + ttl * 1000, none⟩
            uuids := inp.fresh :: s.uuids })
  | .deleteStale limit =>
    let stale := (s.refreshTokens.select fun _ row => row.isStale inp.now).take limit
    some (stale.length, l, { s with
      refreshTokens := s.refreshTokens.keep fun id _ => !(stale.map Prod.fst).contains id })
  | .userByEmail _ => some (inp.user, l, s)
  | .userById _ => some (inp.user, l, s)
  | .assertNotLockedOut _ => some (inp.lockout, l, s)
  | .recordFailure _ => some ((), l, s)
  | .clearFailures _ => some ((), l, s)
  | .verifyPassword .. => some (inp.verified, l, s)
  | .uuid =>
    if inp.fresh ∈ s.uuids then none
    else some (inp.fresh, l ++ [.opened inp.fresh], { s with uuids := inp.fresh :: s.uuids })
  | .issueAccess .. => some (inp.access, l, s)
  | .generateSecret => some (inp.secret, l, s)
  | .revokeToken _ => some (inp.reachable, l, s)

/-- The meaning of the operations. -/
def machine : Machine State (List Mark) Empty Op Op.Res Input :=
  .atomic [] fun o inp l s => exec inp l s o

/-! ## The service -/

/-- What a call can throw. -/
inductive Err where
  /-- `InvalidCredentialsError` -/
  | invalidCredentials
  /-- `TokenInvalidError` -/
  | tokenInvalid
  /-- `TokenExpiredError` -/
  | tokenExpired
  /-- `RefreshTokenReusedError` -/
  | refreshTokenReused
  /-- `RateLimitedError` -/
  | rateLimited (retryAfterSeconds : ℕ)
  /-- the driver's error for a taken `token_hash` -/
  | uniqueViolation
  deriving DecidableEq

/-- A service call. -/
abbrev Service (α : Type) : Type := ExceptT Err (Prog Op Op.Res) α

/-- Perform one operation. -/
def perform (o : Op) : Service o.Res := ExceptT.lift (Prog.perform o)

/-- `TokenPair`. -/
structure TokenPair where
  accessToken : String
  refreshToken : String
  expiresInSeconds : ℕ
  deriving DecidableEq

/-- `issuePair`. -/
def issuePair (cfg : Config) (userId : Id) (role : UserRole) (familyId : Id) :
    Service TokenPair := do
  let access : String × ℕ ← perform (.issueAccess userId role)
  let refreshToken : String ← perform .generateSecret
  match ← (perform (.insertToken userId (cfg.hashSecret refreshToken) familyId
      cfg.refreshTokenTtlSeconds) : Service (Except Unit Unit)) with
  | .error _ => throw .uniqueViolation
  | .ok _ => pure ⟨access.1, refreshToken, access.2⟩

/-- `ABSENT_USER_HASH`. -/
def absentUserHash : String :=
  "$argon2id$v=19$m=19456,t=2,p=1$Ny54wUL1ahJTvTP1ZEvIvw$ehB8O7J0xPlug57LlgrVykj2qEctN0YI6uZtPIyo6V8"

/-- `AuthenticatedUser`. -/
structure AuthenticatedUser where
  id : Id
  email : String
  displayName : String
  role : UserRole
  deriving DecidableEq

/-- `AuthService.login`: a fresh login starts a new family. -/
def login (cfg : Config) (email password : String) : Service (TokenPair × AuthenticatedUser) := do
  match ← (perform (.assertNotLockedOut email) : Service (Except ℕ Unit)) with
  | .error seconds => throw (.rateLimited seconds)
  | .ok _ => do
    let found : Option User ← perform (.userByEmail email)
    let passwordMatches : Bool ←
      perform (.verifyPassword ((found.map User.passwordHash).getD absentUserHash) password)
    match found.filter fun user => user.isActive && passwordMatches with
    | none => do
      let _ ← perform (.recordFailure email)
      throw .invalidCredentials
    | some user => do
      let _ ← perform (.clearFailures email)
      let familyId : Id ← perform .uuid
      let pair ← issuePair cfg user.id user.role familyId
      pure (pair, ⟨user.id, user.email, user.displayName, user.role⟩)

/-- `revokeFamilyOfReplayedToken`: a revoked row that still holds the hash is a replay. -/
def revokeFamilyOfReplayedToken (tokenHash : String) : Service Unit := do
  match ← (perform (.findToken tokenHash) : Service (Option (Id × RefreshToken))) with
  | none => pure ()
  | some replayed => do
    let _ ← perform (.revokeFamily replayed.2.familyId)
    throw .refreshTokenReused

/-- `AuthService.refresh`: the guarded retirement, the user, the child. -/
def refresh (cfg : Config) (token : String) : Service TokenPair := do
  match ← (perform (.retire (cfg.hashSecret token)) : Service (Option (Id × RefreshToken))) with
  | none => do
    revokeFamilyOfReplayedToken (cfg.hashSecret token)
    throw .tokenInvalid
  | some retired => do
    let now : Instant ← perform .now
    if retired.2.expiresAt ≤ now then throw .tokenExpired
    else do
      let found : Option User ← perform (.userById retired.2.userId)
      match found.filter fun user => user.isActive with
      | none => throw .invalidCredentials
      | some user => issuePair cfg user.id user.role retired.2.familyId

/-- `AuthService.logout`: the family dies, and the access token is denied as far as Redis
answers. -/
def logout (cfg : Config) (userId : Id) (tokenId token : String) : Service Unit := do
  match ← (perform (.findToken (cfg.hashSecret token)) :
      Service (Option (Id × RefreshToken))) with
  | none => throw .tokenInvalid
  | some row =>
    if row.2.userId ≠ userId then throw .tokenInvalid
    else do
      let _ ← perform (.revokeFamily row.2.familyId)
      let _ ← perform (.revokeToken tokenId)
      pure ()

/-- `deleteStaleRefreshTokens`. -/
def deleteStaleRefreshTokens : Service ℕ :=
  drainInBatches fun limit => (perform (.deleteStale limit) : Service ℕ)

/-! ## The system -/

/-- A call. -/
inductive Call where
  | login (email password : String)
  | refresh (token : String)
  | logout (userId : Id) (tokenId token : String)
  | deleteStaleRefreshTokens
  deriving DecidableEq

/-- What a call returns. -/
inductive Reply where
  | signedIn (pair : TokenPair) (user : AuthenticatedUser)
  | refreshed (pair : TokenPair)
  | signedOut
  | deleted (count : ℕ)
  deriving DecidableEq

/-- What a call does. -/
def program (cfg : Config) : Call → Prog Op Op.Res (Except Err Reply)
  | .login email password =>
    ((fun r : TokenPair × AuthenticatedUser => Reply.signedIn r.1 r.2) <$>
      login cfg email password).run
  | .refresh token => (Reply.refreshed <$> refresh cfg token).run
  | .logout userId tokenId token =>
    ((fun _ : Unit => Reply.signedOut) <$> logout cfg userId tokenId token).run
  | .deleteStaleRefreshTokens => (Reply.deleted <$> deleteStaleRefreshTokens).run

/-- The system: any number of calls, and nothing that happens by itself. -/
def system (cfg : Config) :
    System State (List Mark) Empty Op Op.Res Input Call Empty (Except Err Reply) where
  machine := machine
  program := program cfg
  world e := e.elim
  world_keeps {e} := e.elim

/-- A world of the system. -/
abbrev AuthWorld : Type := World State (List Mark) Op Op.Res Call (Except Err Reply)

/-- A call, under way or answered. -/
abbrev AuthThread : Type := Thread (List Mark) Op Op.Res Call (Except Err Reply)

/-- An action of the system. -/
abbrev AuthAct : Type := Act Input Call Empty

/-- No token, no id, nobody calling. -/
def opening : AuthWorld := .initial ⟨∅, []⟩

/-- The worlds some run reaches. -/
def Reachable (cfg : Config) (w : AuthWorld) : Prop := Runs (system cfg) .all opening w

end CafePos.Auth
