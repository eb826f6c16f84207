import CafePos.JsonText
import CafePos.OrderState
import CafePos.Text.Base64
import CafePos.Text.Calendar

/-!
# The order list

`OrdersReadService.list` (`orders/query/orders-read.service.ts`) with its cursor
(`orders/query/cursor.ts`). Rows are filtered and ordered over the stored columns; where a page
resumes is what survived of a row in its cursor, and that passed through the driver's `Date`,
`toISOString`, JSON and base64url. Identifiers are UUIDs here, because their text and their order
matter.
-/

namespace CafePos

open Interleaving Text

/-! ## The stored rows -/

/-- A UUID: 128 bits, compared as a number. -/
abbrev Uuid : Type := Fin (2 ^ 128)

instance uuid_neZero : NeZero (2 ^ 128 : ℕ) := ⟨by decide⟩

/-- A row of `orders` with its `created_at`, in microseconds since 1970: the column is
`defaultNow()`, by a clock of a year with four digits. Its total is an `integer`. -/
structure StoredOrder where
  order : Order
  createdAt : ℕ
  createdAt_lt : createdAt < lastInstant * 1000
  totalMinor_int4 : -2 ^ 31 ≤ order.totalMinor ∧ order.totalMinor < 2 ^ 31

/-- The tables the list reads. -/
structure OrderTables where
  orders : Table Uuid StoredOrder
  payments : Table Id Payment

/-- A row with its primary key. -/
abbrev OrderRow : Type := Uuid × StoredOrder

/-- `created_at` as the driver hands it over: a `Date` has milliseconds. -/
def StoredOrder.date (row : StoredOrder) : ℕ := row.createdAt / 1000

/-! ## The query -/

/-- `orderSorts`. -/
inductive OrderSort where
  | createdAtDesc | createdAt | totalMinorDesc | totalMinor
  deriving DecidableEq

namespace OrderSort

/-- The text of a sort. -/
def text : OrderSort → String
  | createdAtDesc => "-createdAt"
  | createdAt => "createdAt"
  | totalMinorDesc => "-totalMinor"
  | totalMinor => "totalMinor"

/-- `sort.endsWith('totalMinor')`. -/
def byTotal : OrderSort → Bool
  | totalMinorDesc => true
  | totalMinor => true
  | _ => false

/-- `sort.startsWith('-')`. -/
def descending : OrderSort → Bool
  | createdAtDesc => true
  | totalMinorDesc => true
  | _ => false

end OrderSort

/-- `z.number().int().min(1).max(MAX_LIMIT)`. -/
abbrev Limit : Type := { n : ℕ // 1 ≤ n ∧ n ≤ 100 }

/-- `OrdersQuery`. -/
structure OrdersQuery where
  status : Option (List OrderStatus)
  channel : Option (List OrderChannel)
  method : Option (List PaymentMethod)
  /-- `new Date(query.from)` -/
  since : Option Instant
  /-- `new Date(query.to)` -/
  until_ : Option Instant
  businessDay : Option String
  q : Option String
  sort : OrderSort
  limit : Limit
  cursor : Option String

/-! ## Filters -/

/-- `escapeLikePrefix`. -/
def escapeLikePrefix (value : List Char) : List Char :=
  value.flatMap fun c => if c = '\\' ∨ c = '%' ∨ c = '_' then ['\\', c] else [c]

/-- `text LIKE pattern`, the backslash being the escape. -/
def like : List Char → List Char → Bool
  | [], text => text.isEmpty
  | p :: pattern, text =>
    if p = '%' then text.tails.any fun rest => like pattern rest
    else
      match text with
      | [] => false
      | c :: text =>
        if p = '_' then like pattern text
        else if p = '\\' then
          match pattern with
          | [] => false
          | e :: pattern => e == c && like pattern text
        else p == c && like pattern text

/-- `filters`; `lower` folds the case of a character as the collation of the database does. -/
def filters (lower : Char → Char) (db : OrderTables) (query : OrdersQuery) (row : OrderRow) :
    Bool :=
  (query.status.all fun statuses => row.2.order.status ∈ statuses) &&
  (query.channel.all fun channels => row.2.order.channel ∈ channels) &&
  (query.method.all fun methods => (db.payments.select fun _ p =>
    p.orderId == row.1.val && p.status == .succeeded && p.method.any (· ∈ methods)) ≠ []) &&
  (query.businessDay.all fun day => row.2.order.businessDay == day) &&
  (match query.since, query.until_ with
    | some since, some until_ =>
      decide (since * 1000 ≤ row.2.createdAt ∧ (row.2.createdAt : ℤ) ≤ until_ * 1000)
    | _, _ => true) &&
  (query.q.all fun q => row.2.order.orderNumber == some q ||
    row.2.order.customerName.any fun name =>
      like ((escapeLikePrefix q.toList ++ ['%']).map lower) (name.toList.map lower))

/-! ## Cursors -/

/-- The fields of a UUID's text. -/
def uuidFields : List Field :=
  [.number 16 8, .literal '-', .number 16 4, .literal '-', .number 16 4, .literal '-',
    .number 16 4, .literal '-', .number 16 12]

/-- The text of a UUID. -/
def uuidText (u : Uuid) : String :=
  String.ofList (print uuidFields [u.val / 16 ^ 24, u.val / 16 ^ 20 % 16 ^ 4,
    u.val / 16 ^ 16 % 16 ^ 4, u.val / 16 ^ 12 % 16 ^ 4, u.val % 16 ^ 12])

/-- `UUID_PATTERN`, and the UUID that Postgres reads in such a text. -/
def parseUuid (text : String) : Option Uuid :=
  match scan uuidFields text.toList with
  | some [a, b, c, d, e] =>
    some (Fin.ofNat _ ((((a * 16 ^ 4 + b) * 16 ^ 4 + c) * 16 ^ 4 + d) * 16 ^ 12 + e))
  | _ => none

/-- The row a page resumes after: one sort value plus the id that breaks ties. -/
structure Cursor where
  value : String
  id : String
  deriving DecidableEq

/-- What the list can throw. -/
inductive ListError where
  /-- `CursorInvalidError` -/
  | cursorInvalid
  /-- the driver's error for a value that a cast refuses -/
  | castFailed
  deriving DecidableEq

/-- `encodeCursor`. -/
def encodeCursor (sort value id : String) : String :=
  String.ofList (toBase64url (Json.stringify [("s", sort), ("v", value), ("i", id)]))

/-- `!Number.isNaN(Date.parse(value))`, for a text of the form of `toISOString`: a day is one of
31, in every month. -/
def dateParses (d : Date) (t : Time) : Bool :=
  (1 ≤ d.month && d.month ≤ 12 && 1 ≤ d.day && d.day ≤ 31) &&
    ((t.hour ≤ 23 && t.minute ≤ 59 && t.second ≤ 59) ||
      (t.hour == 24 && t.minute == 0 && t.second == 0 && t.milli == 0))

/-- `isIssuableValue`. -/
def isIssuableValue (sort : OrderSort) (value : String) : Bool :=
  if sort.byTotal then (scanInt value.toList).any fun n => decide (|n| ≤ 2 ^ 53 - 1)
  else (scanIso value.toList).any fun r => dateParses r.1 r.2

/-- `decodeCursor`. -/
def decodeCursor (raw : String) (sort : OrderSort) : Except ListError Cursor :=
  match Json.parse (fromBase64url raw.toList) with
  | none => throw .cursorInvalid
  | some parsed =>
    if !parsed.isObject then throw .cursorInvalid
    else
      match parsed.member "s", parsed.member "v", parsed.member "i" with
      | some (.str s), some (.str v), some (.str i) =>
        if s ≠ sort.text then throw .cursorInvalid
        else if (parseUuid i).isNone then throw .cursorInvalid
        else if !isIssuableValue sort v then throw .cursorInvalid
        else pure ⟨v, i⟩
      | _, _, _ => throw .cursorInvalid

/-! ## Casts -/

/-- `value::integer`, of a number. -/
def castInteger (n : ℤ) : Except ListError ℤ :=
  if -2 ^ 31 ≤ n ∧ n < 2 ^ 31 then pure n else throw .castFailed

/-- `value::timestamptz`, in microseconds; the date must be one of the calendar. -/
def castTimestamptz (value : String) : Except ListError ℤ :=
  match scanIso value.toList with
  | some (d, t) =>
    if d.Valid ∧ 1 ≤ d.year ∧
        (t.hour ≤ 23 ∨ t.hour = 24 ∧ t.minute = 0 ∧ t.second = 0 ∧ t.milli = 0) ∧
        t.minute ≤ 59 ∧ t.second ≤ 60 then pure (toInstant d t * 1000)
    else throw .castFailed
  | none => throw .castFailed

/-- `id::uuid`. -/
def castUuid (id : String) : Except ListError Uuid :=
  match parseUuid id with
  | some u => pure u
  | none => throw .castFailed

/-! ## The list -/

/-- Where a row stands in a sort: the column, and the id that breaks ties. -/
abbrev Position : Type := ℤ × Uuid

/-- `(a, b) < (c, d)`. -/
def Position.Below (p p' : Position) : Prop := p.1 < p'.1 ∨ p.1 = p'.1 ∧ p.2 < p'.2

instance (p p' : Position) : Decidable (p.Below p') := inferInstanceAs (Decidable (_ ∨ _))

/-- `p` comes before `p'` in the direction of a sort. -/
def Precedes (sort : OrderSort) (p p' : Position) : Prop :=
  if sort.descending then p'.Below p else p.Below p'

instance (sort : OrderSort) (p p' : Position) : Decidable (Precedes sort p p') :=
  inferInstanceAs (Decidable (ite _ _ _))

/-- The `sortColumn` and the id of a row. -/
def position (sort : OrderSort) (row : OrderRow) : Position :=
  (if sort.byTotal then row.2.order.totalMinor else row.2.createdAt, row.1)

/-- `sortValueOf`. -/
def sortValueOf (sort : OrderSort) (row : OrderRow) : String :=
  if sort.byTotal then String.ofList (printInt row.2.order.totalMinor)
  else String.ofList (printIso (dateOf row.2.date) (timeOf row.2.date))

/-- `cursorPredicate`: the position after which the page begins. -/
def cursorPosition (raw : String) (sort : OrderSort) : Except ListError Position := do
  let cursor ← decodeCursor raw sort
  let typed : ℤ ← if sort.byTotal then castInteger ((scanInt cursor.value.toList).getD 0)
    else castTimestamptz cursor.value
  let id ← castUuid cursor.id
  pure (typed, id)

/-- An order on a page. -/
structure ListedOrder where
  summary : OrderSummary
  createdAt : Instant
  deriving DecidableEq

/-- `toOrderSummary`, with the date. -/
def toListed (row : OrderRow) : ListedOrder :=
  ⟨toOrderSummary row.1.val row.2.order, row.2.date⟩

/-- `OrderPage`. -/
structure OrderPage where
  orders : List ListedOrder
  nextCursor : Option String

/-- The rows that pass a filter, in the order of a sort. -/
def OrderTables.sorted (db : OrderTables) (sort : OrderSort) (p : OrderRow → Bool) :
    List OrderRow :=
  (db.orders.select fun id row => p (id, row)).insertionSort fun a b =>
    ¬ Precedes sort (position sort b) (position sort a)

/-- Where the page begins, if the query has a cursor. -/
def startOf (query : OrdersQuery) : Except ListError (Option Position) :=
  match query.cursor with
  | none => pure none
  | some raw => some <$> cursorPosition raw query.sort

/-- The page from there: a row more than asked for tells whether there is a next one. -/
def pageFrom (lower : Char → Char) (db : OrderTables) (query : OrdersQuery)
    (start : Option Position) : OrderPage :=
  let rows := (db.sorted query.sort fun row => filters lower db query row &&
    start.all fun p => Precedes query.sort p (position query.sort row)).take (query.limit + 1)
  let page := rows.take query.limit
  { orders := page.map toListed
    nextCursor := if query.limit < rows.length then
      page.getLast?.map fun last =>
        encodeCursor query.sort.text (sortValueOf query.sort last) (uuidText last.1)
      else none }

/-- `OrdersReadService.list`. -/
def list (lower : Char → Char) (db : OrderTables) (query : OrdersQuery) :
    Except ListError OrderPage := do
  let start ← startOf query
  pure (pageFrom lower db query start)

end CafePos
