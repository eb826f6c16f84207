import CafePos.Interleaving.Atomic
import CafePos.Interleaving.Table
import CafePos.Schema

/-!
# Account lockout

`LoginAttemptLimiter` (`identity/rate-limit/login-attempt.limiter.ts`) around the password check
of `AuthService.login`. A failure counter lives in Redis and expires; its three scripts are one
step each, and the password hash is a step between them. What Redis cannot be reached for is a
call that dies.

A counter also remembers how many verifications have failed in its lifetime
(`Counter.failed`), which no script reads.
-/

namespace CafePos.Lockout

open Interleaving

/-! ## The data model -/

/-- What `login` reads of a row of `users`. -/
structure User where
  id : Id
  passwordHash : String
  isActive : Bool
  deriving DecidableEq

/-- A failure counter. -/
structure Counter where
  count : ℕ
  /-- when Redis drops the key; a key without an expiry stays -/
  expiresAt : Option Instant
  /-- the verifications that failed since the counter was created, its creator's included -/
  failed : ℕ
  deriving DecidableEq

/-- The counters, the accounts by address, and the clock of Redis. -/
structure State where
  counters : Table String Counter
  users : Table String User
  clock : Instant

/-- How far a login has come; the key is that of its address. -/
inductive Phase where
  /-- not past the lockout check -/
  | arriving
  /-- past the lockout check -/
  | passed (key : String)
  /-- the password did not match, and the failure is not recorded yet -/
  | rejected (key : String)
  /-- the password matched, and nothing is recorded or cleared yet -/
  | matched (key : String)
  /-- the failure is recorded, or the counter is cleared -/
  | settled
  deriving DecidableEq

/-- argon2id, and the two ways in which an address is compared. -/
structure Config where
  /-- `passwords.verify(hash, password)` -/
  verify : String → String → Bool
  /-- `email.trim().toLowerCase()` -/
  normalize : String → String
  /-- `CITEXT`, which ignores case -/
  citext : String → String

/-- `MAX_FAILURES`. -/
def maxFailures : ℕ := 5

/-- `WINDOW_SECONDS`. -/
def windowSeconds : ℤ := 15 * 60

/-- `ABSENT_USER_HASH`. -/
def absentUserHash : String :=
  "$argon2id$v=19$m=19456,t=2,p=1$Ny54wUL1ahJTvTP1ZEvIvw$" ++
    "ehB8O7J0xPlug57LlgrVykj2qEctN0YI6uZtPIyo6V8"

/-! ## Operations -/

/-- What a login asks of the outside. -/
inductive Op where
  /-- `READ_LOCKOUT_SCRIPT` -/
  | readLockout (key : String)
  /-- `EXPIRE key WINDOW_SECONDS` -/
  | expire (key : String)
  /-- `users`, by address -/
  | findUser (email : String)
  /-- `passwords.verify`, for the address with this key -/
  | verify (key hash password : String)
  /-- `RECORD_FAILURE_SCRIPT` -/
  | recordFailure (key : String)
  /-- `DEL key` -/
  | clear (key : String)

/-- What an operation returns. -/
def Op.Res : Op → Type
  | readLockout _ => ℕ × ℤ
  | expire _ => Unit
  | findUser _ => Option User
  | verify .. => Bool
  | recordFailure _ => Unit
  | clear _ => Unit

/-- `TTL`: −2 without a key, −1 without an expiry, else the rest in seconds, rounded. -/
def ttl (now : Instant) : Option Counter → ℤ
  | none => -2
  | some counter => counter.expiresAt.elim (-1) fun t => (t - now + 500) / 1000

/-- When a window that begins now ends. -/
def State.windowEnd (s : State) : Instant := s.clock + windowSeconds * 1000

/-- `GET key or 0`. -/
def State.count (s : State) (key : String) : ℕ := ((s.counters.get key).map Counter.count).getD 0

/-- A verification fails while a counter lives. -/
def Counter.withFailure (counter : Counter) : Counter :=
  { counter with failed := counter.failed + 1 }

/-- `INCR key`. -/
def Counter.incr (counter : Counter) : Counter := { counter with count := counter.count + 1 }

/-- The counter that `RECORD_FAILURE_SCRIPT` creates: it counts a creator whose password did not
match as the first failure of its lifetime. -/
def State.newCounter (s : State) (l : Phase) (key : String) : Counter :=
  ⟨1, some s.windowEnd, if l = .rejected key then 1 else 0⟩

/-- The counter changed, if there is one. -/
def State.modify (s : State) (key : String) (f : Counter → Counter) : State :=
  match s.counters.get key with
  | some counter => { s with counters := s.counters.put key (f counter) }
  | none => s

/-- Perform one operation. -/
def exec (cfg : Config) (l : Phase) (s : State) : (o : Op) → o.Res × Phase × State
  | .readLockout key => ((s.count key, ttl s.clock (s.counters.get key)),
      if s.count key < maxFailures then .passed key else l, s)
  | .expire key => ((), l, s.modify key fun counter =>
      { counter with expiresAt := some s.windowEnd })
  | .findUser email => (s.users.get (cfg.citext email), l, s)
  | .verify key hash password =>
    if cfg.verify hash password then (true, .matched key, s)
    else (false, .rejected key, s.modify key Counter.withFailure)
  | .recordFailure key =>
    let counter := ((s.counters.get key).map Counter.incr).getD (s.newCounter l key)
    ((), .settled, { s with counters := s.counters.put key counter })
  | .clear key => ((), .settled, { s with counters := s.counters.keep fun k _ => k != key })

/-- The meaning of the operations. -/
def machine (cfg : Config) : Machine State Phase Empty Op Op.Res Unit :=
  .atomic .arriving fun o _ l s => some (exec cfg l s o)

/-! ## The service -/

/-- What a login can throw. -/
inductive Err where
  /-- `RateLimitedError` -/
  | rateLimited (retryAfterSeconds : ℤ)
  /-- `InvalidCredentialsError` -/
  | invalidCredentials
  deriving DecidableEq

/-- A service call. -/
abbrev Service (α : Type) : Type := ExceptT Err (Prog Op Op.Res) α

/-- Perform one operation. -/
def perform (o : Op) : Service o.Res := ExceptT.lift (Prog.perform o)

/-- `keyFor`. -/
def Config.keyFor (cfg : Config) (email : String) : String :=
  "login-failures:" ++ cfg.normalize email

/-- `assertNotLockedOut`: a counter at the limit that has no expiry gets one. -/
def assertNotLockedOut (cfg : Config) (email : String) : Service Unit := do
  let read : ℕ × ℤ ← perform (.readLockout (cfg.keyFor email))
  if read.1 < maxFailures then pure ()
  else if read.2 < 0 then do
    perform (.expire (cfg.keyFor email))
    throw (.rateLimited windowSeconds)
  else throw (.rateLimited read.2)

/-- `AuthService.login`, up to the tokens it issues: who has signed in. -/
def login (cfg : Config) (email password : String) : Service Id := do
  assertNotLockedOut cfg email
  let user : Option User ← perform (.findUser email)
  -- an absent account costs one hash too
  let passwordMatches : Bool ← perform (.verify (cfg.keyFor email)
    ((user.map User.passwordHash).getD absentUserHash) password)
  match user.filter fun user => user.isActive && passwordMatches with
  | none => do
    perform (.recordFailure (cfg.keyFor email))
    throw .invalidCredentials
  | some user => do
    perform (.clear (cfg.keyFor email))
    pure user.id

/-! ## The system -/

/-- A login. -/
structure Call where
  email : String
  password : String
  deriving DecidableEq

/-- What happens by itself. -/
inductive Event where
  /-- time passes, and Redis drops what has expired -/
  | tick (elapsed : ℕ)
  /-- an account is created or changed -/
  | account (email : String) (user : User)

/-- The counter is there at time `now`. -/
def Counter.alive (now : Instant) (counter : Counter) : Bool :=
  counter.expiresAt.all fun t => decide (now ≤ t)

/-- The effect of an event. -/
def happen (cfg : Config) (s : State) : Event → State
  | .tick elapsed => { s with
      clock := s.clock + elapsed
      counters := s.counters.keep fun _ counter => counter.alive (s.clock + elapsed) }
  | .account email user => { s with users := s.users.put (cfg.citext email) user }

/-- Any number of logins, while time passes and accounts change. -/
def system (cfg : Config) :
    System State Phase Empty Op Op.Res Unit Call Event (Except Err Id) where
  machine := machine cfg
  program c := (login cfg c.email c.password).run
  world e s := some (happen cfg s e)
  world_keeps {_ _ _} _ x := x.elim

/-- A world of the system. -/
abbrev LoginWorld : Type := World State Phase Op Op.Res Call (Except Err Id)

/-- A login, under way or answered. -/
abbrev LoginThread : Type := Thread Phase Op Op.Res Call (Except Err Id)

/-- An action of the system. -/
abbrev LoginAct : Type := Act Unit Call Event

/-- No counter, no account, nobody signing in. -/
def opening : LoginWorld := .initial ⟨∅, ∅, 0⟩

end CafePos.Lockout
