import CafePos.Interleaving.Rows
import CafePos.Auth

/-!
# Staff accounts

`UsersService.create` and `update` (`identity/users/users.service.ts`). A change of role or
activity runs in one transaction: it locks the active admins, reads the account, counts the other
admins and writes. Its `SELECT ... FOR UPDATE` chooses its rows on one snapshot and locks them one
by one, in the order of their ids; a row that no longer matches by then is dropped from the
result, which nobody reads, and stays locked, as Postgres has it.
-/

namespace CafePos.Users

open Interleaving
open Auth (UserRole)

/-! ## The data model -/

/-- A row of `users`. -/
structure User where
  email : String
  displayName : String
  role : UserRole
  isActive : Bool
  passwordHash : String
  deriving DecidableEq

/-- An account that can administer the system. -/
def User.isActiveAdmin (user : User) : Bool := user.role == .admin && user.isActive

/-- `CreateUserInput`. -/
structure CreateUserInput where
  email : String
  displayName : String
  role : UserRole
  password : String
  deriving DecidableEq

/-- `UpdateUserInput`. -/
structure UpdateUserInput where
  displayName : Option String := none
  role : Option UserRole := none
  isActive : Option Bool := none
  deriving DecidableEq

/-- The row with its changes. -/
def User.changed (user : User) (changes : UpdateUserInput) : User :=
  { user with
    displayName := changes.displayName.getD user.displayName
    role := changes.role.getD user.role
    isActive := changes.isActive.getD user.isActive }

/-- `StaffAccount`. -/
structure StaffAccount where
  id : Id
  email : String
  displayName : String
  role : UserRole
  isActive : Bool
  deriving DecidableEq

/-- `PUBLIC_COLUMNS`. -/
def publicColumns (id : Id) (user : User) : StaffAccount :=
  ⟨id, user.email, user.displayName, user.role, user.isActive⟩

/-! ## Statements -/

/-- What a call asks of the outside. -/
inductive Query where
  /-- `passwords.hash` -/
  | hash (password : String)
  /-- `INSERT INTO users RETURNING` -/
  | insert (user : User)
  /-- `UPDATE users SET display_name WHERE id RETURNING`, through the pool -/
  | rename (id : Id) (changes : UpdateUserInput)
  /-- the rows of `SELECT id FROM users WHERE role = 'ADMIN' AND is_active ORDER BY id FOR UPDATE`,
  as its snapshot has them -/
  | activeAdmins
  /-- one row of it: its latest version is locked, and matches or not -/
  | lock (id : Id)
  /-- `users.role` and `is_active`, by id -/
  | current (id : Id)
  /-- the number of active admins other than `id` -/
  | countOthers (id : Id)
  /-- `UPDATE users SET changes WHERE id RETURNING` -/
  | update (id : Id) (changes : UpdateUserInput)
  /-- `revocations.revokeUser`, which may fail -/
  | revokeUser (id : Id)

/-- What a statement returns. -/
def Query.Ans : Query → Type
  | hash _ => String
  | insert _ => Except Unit Id
  | rename .. => Option User
  | activeAdmins => List Id
  | lock _ => Bool
  | current _ => Option (UserRole × Bool)
  | countOthers _ => ℕ
  | update .. => Option User
  | revokeUser _ => Bool

/-- What the outside supplies to one statement. -/
structure Input where
  /-- the id `primaryId()` generates -/
  fresh : Id := 0
  /-- a salted hash -/
  hash : String := ""
  /-- Redis answers -/
  reachable : Bool := true

/-- The active admins but for one. -/
def others (users : Table Id User) (id : Id) : List (Id × User) :=
  users.select fun id' user => user.isActiveAdmin && id' != id

/-- An account is changed, if it is there. -/
def updateEffect (users : Table Id User) (id : Id) (changes : UpdateUserInput) :
    Effect (Rows.Write Id User) Id (Option User) :=
  match users.get id with
  | some user => ⟨some (user.changed changes), [.put id (user.changed changes)], []⟩
  | none => ⟨none, [], []⟩

/-- What a statement does. -/
def effect (inp : Input) (users : Table Id User) :
    (q : Query) → Effect (Rows.Write Id User) Id q.Ans
  | .hash _ => ⟨inp.hash, [], []⟩
  | .insert user =>
    -- the primary key and the unique address
    if (users.get inp.fresh).isSome || !(users.select fun _ row => row.email == user.email).isEmpty
    then ⟨.error (), [], []⟩
    else ⟨.ok inp.fresh, [.put inp.fresh user], []⟩
  | .rename id changes => updateEffect users id changes
  | .activeAdmins => ⟨((users.select fun _ user => user.isActiveAdmin).map Prod.fst).insertionSort
      (· ≤ ·), [], []⟩
  | .lock id => ⟨(users.get id).any User.isActiveAdmin, [], [id]⟩
  | .current id => ⟨(users.get id).map fun user => (user.role, user.isActive), [], []⟩
  | .countOthers id => ⟨(others users id).length, [], []⟩
  | .update id changes => updateEffect users id changes
  | .revokeUser _ => ⟨inp.reachable, [], []⟩

/-- What a transaction has learnt since it holds its locks. -/
inductive Stage where
  /-- nothing -/
  | outside
  /-- the account is no active admin -/
  | notAdmin (id : Id)
  /-- the account is an active admin -/
  | admin (id : Id)
  /-- there is another active admin -/
  | others (id : Id)
  /-- the account is written -/
  | written
  deriving DecidableEq

/-- What the count teaches. -/
def learnOthers (stage : Stage) (id : Id) (count : ℕ) : Stage :=
  if count = 0 then stage else .others id

/-- What a statement teaches. -/
def learn (stage : Stage) : (q : Query) → q.Ans → Stage
  | .current id, some current =>
    if current.1 == UserRole.admin && current.2 then .admin id else .notAdmin id
  | .countOthers id, count => learnOthers stage id count
  | .update .., some _ => .written
  | _, _ => stage

/-- The statements and their meaning. -/
def language : Rows.Language Id User Query Query.Ans Input Stage where
  effect q inp users := effect inp users q
  blank := .outside
  learn q a stage := learn stage q a
  onCommit _ := .outside
  onRollback _ := .outside

/-! ## The service -/

/-- What a call can throw. -/
inductive Err where
  /-- `UserEmailExistsError` -/
  | userEmailExists (email : String)
  /-- `ResourceNotFoundError` -/
  | resourceNotFound (resource : String) (id : Id)
  /-- `LastAdminError` -/
  | lastAdmin
  deriving DecidableEq

/-- A service call. -/
abbrev Service (α : Type) : Type := Rows.Service Query.Ans Err α

/-- Send a statement. -/
def send (q : Query) : Service q.Ans := Rows.Service.send q

/-- `UsersService.create`: the unique index decides. -/
def create (input : CreateUserInput) : Service StaffAccount := do
  let passwordHash : String ← send (.hash input.password)
  let user : User := ⟨input.email, input.displayName, input.role, true, passwordHash⟩
  match ← (send (.insert user) : Service (Except Unit Id)) with
  | .ok id => pure (publicColumns id user)
  | .error _ => throw (.userEmailExists input.email)

/-- The rows of the locking `SELECT`, one by one. -/
def lockAll : List Id → Service Unit
  | [] => pure ()
  | id :: ids => do
    let _ ← send (.lock id)
    lockAll ids

/-- `wasAdmin`. -/
def wasAdmin (current : UserRole × Bool) : Bool := current.1 == .admin && current.2

/-- `willBeAdmin`. -/
def willBeAdmin (current : UserRole × Bool) (changes : UpdateUserInput) : Bool :=
  changes.role.getD current.1 == .admin && changes.isActive.getD current.2

/-- `guardLastAdmin`. -/
def guardLastAdmin (id : Id) (current : UserRole × Bool) (changes : UpdateUserInput) :
    Service Unit :=
  if !wasAdmin current then pure ()
  else if willBeAdmin current changes then pure ()
  else do
    let count : ℕ ← send (.countOthers id)
    if count = 0 then throw .lastAdmin else pure ()

/-- The transaction of `update`. -/
def guardedUpdate (id : Id) (changes : UpdateUserInput) : Service (Option User) := do
  let ids : List Id ← send .activeAdmins
  lockAll ids
  match ← (send (.current id) : Service (Option (UserRole × Bool))) with
  | none => throw (.resourceNotFound "user" id)
  | some current => do
    guardLastAdmin id current changes
    send (.update id changes)

/-- `UsersService.update`: what decides who is an admin is changed under locks. What Redis does
not hear is only logged. -/
def update (id : Id) (changes : UpdateUserInput) : Service (Option StaffAccount) :=
  if changes.role.isNone && changes.isActive.isNone then do
    match ← (send (.rename id changes) : Service (Option User)) with
    | none => throw (.resourceNotFound "user" id)
    | some renamed => pure (some (publicColumns id renamed))
  else do
    let updated ← Rows.Service.transaction (guardedUpdate id changes)
    let _ ← send (.revokeUser id)
    pure (updated.map (publicColumns id))

/-! ## The system -/

/-- A call. -/
inductive Call where
  | create (input : CreateUserInput)
  | update (id : Id) (changes : UpdateUserInput)
  deriving DecidableEq

/-- What a call does. -/
def program : Call → Prog (Rows.Op Query) (Rows.Op.Res Query.Ans) (Except Err (Option StaffAccount))
  | .create input => (some <$> create input).run
  | .update id changes => (update id changes).run

/-- The connection of a call. -/
abbrev Conn : Type := Rows.Conn Id User Stage

/-- The system: any number of calls, and nothing that happens by itself. -/
def system : System (Table Id User) Conn Id (Rows.Op Query) (Rows.Op.Res Query.Ans) Input Call Empty
    (Except Err (Option StaffAccount)) where
  machine := Rows.machine language
  program := program
  world e := e.elim
  world_keeps {e} := e.elim

/-- A world of the system. -/
abbrev UserWorld : Type := World (Table Id User) Conn (Rows.Op Query) (Rows.Op.Res Query.Ans) Call
  (Except Err (Option StaffAccount))

/-- A call, under way or answered. -/
abbrev UserThread : Type := Thread Conn (Rows.Op Query) (Rows.Op.Res Query.Ans) Call
  (Except Err (Option StaffAccount))

/-- An action of the system. -/
abbrev UserAct : Type := Act Input Call Empty

end CafePos.Users
