import CafePos.OrderState

/-!
# Requests, configuration and the idempotency store

`orders/idempotency/idempotency.store.ts`: a key is reserved by inserting its row in
the transaction that does the work, before there is a response to store. A second
insert of the key waits for that transaction and then either fails, and its caller
replays, or goes through, and its caller does the work.
-/

namespace CafePos

open Door

/-- `CreateOrderInput`. -/
structure CreateOrderInput where
  channel : OrderChannel
  items : List RequestedItem
  customerName : Option String
  expectedTotalMinor : Option ℤ
  /-- park it instead of checking out -/
  draft : Bool
  deriving DecidableEq

/-- `CreatePaymentInput`. -/
structure CreatePaymentInput where
  method : PaymentMethod
  cashTenderedMinor : Option ℤ
  deriving DecidableEq

/-- The bodies that are fingerprinted. -/
inductive RequestBody where
  | order (input : CreateOrderInput)
  | payment (input : CreatePaymentInput)
  deriving DecidableEq

/-- The environment variables the services read, and the two functions of the platform
they rest on: the local business day of an instant (`businessDayOf`, through the time
zone database) and the fingerprint of a scoped request (`hashRequest`, SHA-256). -/
structure Config where
  vatBasisPoints : ℤ
  currency : String
  orderExpirySeconds : ℤ
  businessDayOf : Instant → String
  hashRequest : String → RequestBody → String

/-- `scopeOf`: a key is bound to whoever presented it. -/
def scopeOf : Principal → String
  | .device deviceId => "device:" ++ toString deviceId
  | .staff userId => "user:" ++ toString userId

/-- `keyExpiry`: 24 hours from now. -/
def keyExpiry : Door Instant := do
  let now : Instant ← perform .now
  pure (now + 24 * 60 * 60 * 1000)

/-- `isUniqueViolation`. -/
def isUniqueViolation : Err → Bool
  | .sql .uniqueViolation => true
  | _ => false

/-- `isKeyAlreadyReserved`. -/
def isKeyAlreadyReserved (e : Err) : Bool := e == .keyAlreadyReserved

/-- `reserveKey`. -/
def reserveKey (key requestHash : String) (expiresAt : Instant) : Door Unit :=
  tryCatch (raising (statement (.insertKey key requestHash expiresAt))) fun error =>
    if isUniqueViolation error then throw .keyAlreadyReserved else throw error

/-- `completeKey`. -/
def completeKey (key : String) (status : ℕ) (body : ResponseBody) : Door Unit :=
  statement (.updateKey key status body)

/-- `completedResponseFor`: what a key has already answered. -/
def completedResponseFor (key : String) : Door (Option (String × ResponseBody)) := do
  match ← (select (.key key) : Door (Option IdempotencyKey)) with
  | none => pure none
  | some stored => pure (stored.responseBody.map fun body => (stored.requestHash, body))

/-- `replayKey`: what the first request answered, or a conflict. -/
def replayKey (key requestHash : String) : Door ResponseBody := do
  match ← (select (.key key) : Door (Option IdempotencyKey)) with
  | none => throw .idempotencyConflict
  | some stored =>
    if stored.requestHash = requestHash then
      match stored.responseBody with
      | none => throw .idempotencyConflict
      | some body => pure body
    else throw .idempotencyConflict

end CafePos
