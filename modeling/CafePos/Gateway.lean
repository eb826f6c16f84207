import CafePos.Interleaving.Table
import Mathlib

/-!
# The payment gateway

Two sides of Stripe. `Gateway` is its own state: the payment intents it holds and
the events it has raised. `toOutcome` is our reading of one event
(`payments/provider/stripe-payment.provider.ts`), over the JSON that the inbox
stored, so that an unreadable payload is a case and not an assumption.

What is assumed of Stripe is what its intents do: an intent is confirmable from its
creation until it succeeds or is cancelled, a declined attempt leaves it confirmable,
and creating an intent again under the same idempotency key returns the first one.
-/

namespace CafePos

open Interleaving

/-! ## JSON as `jsonb` hands it back -/

/-- A JSON value. An absent object member is `none` where a member is read. -/
inductive Json where
  /-- `null` -/
  | null
  /-- `true` or `false` -/
  | bool (b : Bool)
  /-- a number; every finite double is a rational -/
  | num (q : ℚ)
  /-- a string -/
  | str (s : String)
  /-- an array -/
  | arr (xs : List Json)
  /-- an object, its members in the order they were written -/
  | obj (members : List (String × Json))

namespace Json

/-- `value.name`: `none` is JavaScript's `undefined`. The last of two members with
one name wins, as in `JSON.parse`. Reading a member of an array or of a primitive
other than `null` gives `undefined`. -/
def member (name : String) : Json → Option Json
  | obj members => (members.reverse.find? fun m => m.1 == name).map Prod.snd
  | _ => none

/-- `typeof value === 'object' && value !== null`. -/
def isObject : Json → Bool
  | obj _ => true
  | arr _ => true
  | _ => false

/-- `value === n` for a number `n`. -/
def isNumber (n : ℤ) : Option Json → Bool
  | some (num q) => q == (n : ℚ)
  | _ => false

/-- `value === s` for a string `s`. -/
def isString (s : String) : Option Json → Bool
  | some (str t) => t == s
  | _ => false

end Json

/-- `s.toUpperCase()`, on the ASCII letters currency codes are made of. -/
def toUpperCase (s : String) : String := String.ofList (s.toList.map Char.toUpper)

/-- `s.toLowerCase()`, likewise. -/
def toLowerCase (s : String) : String := String.ofList (s.toList.map Char.toLower)

/-! ## What an event means -/

/-- `GatewayOutcome`: the four cases the order pipeline acts on. The members a
payload carries are what was read there, `none` for `undefined`. -/
inductive GatewayOutcome where
  /-- the gateway captured money -/
  | succeeded (intentId amountMinor : Option Json) (currency : String)
  /-- an attempt was declined -/
  | failed (intentId : Option Json) (reason : Option Json)
  /-- the intent was cancelled -/
  | cancelled (intentId : Option Json)
  /-- nothing this system acts on -/
  | ignored

/-- The members `hasEventShape` insists on: a `type` that is a string and a
`data.object` that is an object. -/
def eventShape (payload : Json) : Option (String × Json) :=
  if payload.isObject then
    match payload.member "type", payload.member "data" with
    | some (.str type), some data =>
      if data.isObject then
        match data.member "object" with
        | some object => if object.isObject then some (type, object) else none
        | none => none
      else none
    | _, _ => none
  else none

/-- `intent.currency.toUpperCase()`: a `TypeError` when the currency is not a string. -/
def currencyOf (object : Json) : Option String :=
  match object.member "currency" with
  | some (.str currency) => some (toUpperCase currency)
  | _ => none

/-- `intent.last_payment_error?.message ?? null`. -/
def failureReason (object : Json) : Option Json :=
  match object.member "last_payment_error" with
  | none => none
  | some .null => none
  | some error =>
    match error.member "message" with
    | some .null => none
    | message => message

/-- `toOutcome`: Stripe's event catalog reduced to four cases. `none` stands for the
`TypeError` that a success without a currency throws. -/
def toOutcome (payload : Json) : Option GatewayOutcome :=
  match eventShape payload with
  | none => some .ignored
  | some (type, object) =>
    match type with
    | "payment_intent.succeeded" =>
      (currencyOf object).map (.succeeded (object.member "id") (object.member "amount_received"))
    | "payment_intent.payment_failed" =>
      some (.failed (object.member "id") (failureReason object))
    | "payment_intent.canceled" => some (.cancelled (object.member "id"))
    | _ => some .ignored

/-- A verified, parsed event as `parseWebhook` returns it. -/
structure GatewayEvent where
  /-- dedupes redeliveries -/
  eventId : String
  /-- the gateway's own type string -/
  type : String
  /-- the event, whole -/
  payload : Json

/-! ## Stripe's side -/

/-- Where an intent is. Stripe's unpaid states are one: the customer may confirm. -/
inductive IntentStatus where
  /-- unpaid and not cancelled: its client secret still confirms it -/
  | confirmable
  /-- money was captured -/
  | succeeded
  /-- dead -/
  | canceled
  deriving DecidableEq

/-- What authorises confirming an intent. Stripe's secrets name their intent
(`pi_..._secret_...`). -/
structure ClientSecret where
  /-- the intent it confirms -/
  intent : String
  deriving DecidableEq

/-- A payment intent. -/
structure Intent where
  /-- what is charged -/
  amount : ℤ
  /-- lower case -/
  currency : String
  /-- `metadata.orderId` -/
  orderId : ℕ
  /-- the key it was created under -/
  idempotencyKey : Option String
  /-- where it is -/
  status : IntentStatus

/-- Stripe. -/
structure Gateway where
  /-- the intents, by id -/
  intents : Table String Intent
  /-- the events raised so far -/
  events : List GatewayEvent

namespace Gateway

/-- A gateway that has seen nothing. -/
def empty : Gateway := ⟨∅, []⟩

/-- The intent can still be confirmed by whoever holds its client secret. -/
def Confirmable (g : Gateway) (i : String) : Prop :=
  ∃ it, g.intents.get i = some it ∧ it.status = .confirmable

/-- The payload of a Stripe event about intent `i`. -/
def eventPayload (eventId type i : String) (it : Intent) : Json :=
  .obj [("id", .str eventId), ("type", .str type),
    ("data", .obj [("object", .obj [("id", .str i), ("amount_received", .num it.amount),
      ("currency", .str it.currency)])])]

/-- Raise an event about intent `i`. -/
def raise (g : Gateway) (eventId type i : String) (it : Intent) : Gateway :=
  { g with events := g.events ++ [⟨eventId, type, eventPayload eventId type i it⟩] }

/-- Put intent `i` into another status. -/
def setStatus (g : Gateway) (i : String) (it : Intent) (status : IntentStatus) : Gateway :=
  { g with intents := g.intents.put i { it with status } }

/-- The intent that was created under an idempotency key. -/
def byKey (g : Gateway) (key : Option String) : Option (String × Intent) :=
  match key with
  | none => none
  | some k => (g.intents.select fun _ it => it.idempotencyKey == some k).head?

/-- The customer confirms intent `i`: money is captured and a success is raised. -/
def confirm (g : Gateway) (i eventId : String) : Option Gateway :=
  match g.intents.get i with
  | some it =>
    if it.status = .confirmable then
      some ((g.setStatus i it .succeeded).raise eventId "payment_intent.succeeded" i it)
    else none
  | none => none

/-- An attempt to confirm intent `i` is declined: the intent stays confirmable. -/
def decline (g : Gateway) (i eventId : String) : Option Gateway :=
  match g.intents.get i with
  | some it =>
    if it.status = .confirmable then
      some (g.raise eventId "payment_intent.payment_failed" i it)
    else none
  | none => none

end Gateway

end CafePos
