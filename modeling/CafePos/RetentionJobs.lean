import CafePos.Auth
import CafePos.Batches
import CafePos.BusinessDays
import CafePos.EventReplay
import CafePos.Interleaving.Atomic
import Mathlib

/-!
# The retention jobs

`retention/retention.service.ts`: four jobs, each a single guarded statement run in batches, two of
them an `UPDATE` and two a `DELETE`. A statement picks its rows as it finds them when it begins
(`WHERE id IN (SELECT … LIMIT)`), and handles those of them that are still there when it gets to
them; in between anything may happen, another instance running the same job included. Whoever
locks two rows the other way around is aborted, and a statement may fail for other reasons too.

A row's number is where it is stored: a row that is deleted and inserted again is another row, which
a statement that began before does not see. `RETENTION`'s intervals are subtracted as Postgres does
it, with the session in UTC.
-/

namespace CafePos.RetentionJobs

open Interleaving Text

/-! ## The policy -/

/-- `RetainedData` -/
inductive RetainedData where
  | customerNames
  | eventPayloads
  | refreshTokens
  | idempotencyKeys
  deriving DecidableEq

/-- A Postgres `interval`: its months, and the rest in milliseconds. -/
structure Interval where
  months : ℕ := 0
  millis : ℕ := 0

/-- `interval + interval` -/
def Interval.add (i j : Interval) : Interval := ⟨i.months + j.months, i.millis + j.millis⟩

/-- An instant some months earlier: on the same day of the month, or on its last. -/
def monthsBefore (t : Instant) (months : ℕ) : Instant :=
  if months = 0 then t
  else
    let d := utcDate t
    let m := d.year * 12 + (d.month - 1) - months
    dateUTC ⟨m / 12, m % 12 + 1, min d.day (daysInMonth (m / 12) (m % 12 + 1))⟩ + t % millisPerDay

/-- `timestamptz - interval` -/
def Interval.before (i : Interval) (t : Instant) : Instant := monthsBefore t i.months - i.millis

/-- Milliseconds of a day. -/
def day : ℕ := 24 * 60 * 60 * 1000

namespace RetainedData

/-- `RETENTION[data].window` -/
def window : RetainedData → Interval
  | customerNames => { millis := 90 * day }
  | eventPayloads => { months := 13 }
  | refreshTokens => { millis := 30 * day }
  | idempotencyKeys => {}

/-- `RETENTION[data].grace` -/
def grace : RetainedData → Interval
  | customerNames => { millis := 2 * day }
  | eventPayloads => { millis := 2 * day }
  | refreshTokens => { millis := 2 * day }
  | idempotencyKeys => { millis := 2 * 60 * 60 * 1000 }

/-- `cutoff` -/
def cutoff (d : RetainedData) (now : Instant) : Instant := d.window.before now

/-- `overdueCutoff` -/
def overdueCutoff (d : RetainedData) (now : Instant) : Instant :=
  (d.window.add d.grace).before now

end RetainedData

/-! ## The rows -/

/-- What the job reads and writes of a row of `orders`. -/
structure NamedOrder where
  customerName : Option String
  createdAt : Instant
  deriving DecidableEq

/-- What the job reads and writes of a row of `payment_events`. -/
structure ReceivedEvent where
  payload : Json
  payloadTrimmedAt : Option Instant
  receivedAt : Instant

namespace RetainedData

/-- The rows of a kind of data. -/
def Row : RetainedData → Type
  | customerNames => NamedOrder
  | eventPayloads => ReceivedEvent
  | refreshTokens => Auth.RefreshToken
  | idempotencyKeys => IdempotencyKey

/-- The `WHERE` of the kind's statement, with the cutoff. -/
def isPast : (d : RetainedData) → Instant → d.Row → Bool
  | customerNames, cutoff, (row : NamedOrder) =>
    row.customerName.isSome && decide (row.createdAt < cutoff)
  | eventPayloads, cutoff, (row : ReceivedEvent) =>
    row.payloadTrimmedAt.isNone && decide (row.receivedAt < cutoff)
  | refreshTokens, cutoff, (row : Auth.RefreshToken) =>
    decide (row.expiresAt < cutoff) || row.revokedAt.any fun t => decide (t < cutoff)
  | idempotencyKeys, cutoff, (row : IdempotencyKey) => decide (row.expiresAt < cutoff)

/-- The row is past its window. -/
def isDue (d : RetainedData) (now : Instant) (row : d.Row) : Bool := d.isPast (d.cutoff now) row

/-- The row is past its window and the grace of its job. -/
def isOverdue (d : RetainedData) (now : Instant) (row : d.Row) : Bool :=
  d.isPast (d.overdueCutoff now) row

/-- The kind's statement is a `DELETE`, not an `UPDATE`. -/
def isDeletion : RetainedData → Bool
  | customerNames => false
  | eventPayloads => false
  | refreshTokens => true
  | idempotencyKeys => true

/-- The `SET` of an `UPDATE` that began at the given time. -/
def cleared : (d : RetainedData) → Instant → d.Row → d.Row
  | customerNames, _, (row : NamedOrder) => { row with customerName := none }
  | eventPayloads, time, (row : ReceivedEvent) =>
    { row with payload := trimPayload row.payload, payloadTrimmedAt := some time }
  | refreshTokens, _, row => row
  | idempotencyKeys, _, row => row

/-- What the rest of the program writes to a row that is there: nothing a job reads, but for tokens
that are revoked, once. -/
def Rewritten : (d : RetainedData) → d.Row → d.Row → Prop
  | customerNames, _, _ => False
  | eventPayloads, _, _ => False
  | refreshTokens, (row : Auth.RefreshToken), (row' : Auth.RefreshToken) =>
    row.revokedAt = none ∧ row' = { row with revokedAt := row'.revokedAt }
  | idempotencyKeys, (row : IdempotencyKey), (row' : IdempotencyKey) =>
    row'.expiresAt = row.expiresAt

instance : ∀ (d : RetainedData) (row row' : d.Row), Decidable (d.Rewritten row row')
  | customerNames, _, _ => inferInstanceAs (Decidable False)
  | eventPayloads, _, _ => inferInstanceAs (Decidable False)
  | refreshTokens, (row : Auth.RefreshToken), (row' : Auth.RefreshToken) =>
    inferInstanceAs (Decidable
      (row.revokedAt = none ∧ row' = { row with revokedAt := row'.revokedAt }))
  | idempotencyKeys, (row : IdempotencyKey), (row' : IdempotencyKey) =>
    inferInstanceAs (Decidable (row'.expiresAt = row.expiresAt))

end RetainedData

/-! ## The database -/

/-- The tables, by where their rows are stored, with the first place that was never used. -/
structure State where
  /-- the database's clock -/
  clock : Instant
  tables : (d : RetainedData) → Table ℕ d.Row
  next : RetainedData → ℕ

/-- The rows past their window. -/
def State.due (s : State) (d : RetainedData) (now : Instant) : List ℕ :=
  ((s.tables d).select fun _ row => d.isDue now row).map Prod.fst

/-- `overdueCounts` -/
def State.overdueCounts (s : State) (now : Instant) (d : RetainedData) : ℕ :=
  ((s.tables d).select fun _ row => d.isOverdue now row).length

/-- Those of a batch that are still there, deleted or updated. -/
def State.take (s : State) (d : RetainedData) (time : Instant) (batch : List ℕ) : State :=
  { s with
    tables := Function.update s.tables d
      (if d.isDeletion then (s.tables d).keep fun id _ => !batch.contains id
      else (s.tables d).mapKeyed fun id row =>
        if batch.contains id then d.cleared time row else row) }

/-- Some order of the rows, which `LIMIT` does not choose: first those that are named. -/
def arranged (order ids : List ℕ) : List ℕ :=
  (order.dedup.filter fun id => ids.contains id) ++ ids.filter fun id => !order.contains id

/-- What a run asks of the outside. -/
inductive Op where
  /-- a statement begins, and finds its rows -/
  | find (d : RetainedData) (limit : ℕ)
  /-- and it handles them, `RETURNING` how many -/
  | take (d : RetainedData) (time : Instant) (batch : List ℕ)
  /-- `metrics.retentionRows.inc` -/
  | report (d : RetainedData) (handled : ℕ)

/-- What an operation returns; `error` is a statement that failed as a whole. -/
def Op.Res : Op → Type
  | find .. => Instant × List ℕ
  | take .. => Except Unit ℕ
  | report .. => Unit

/-- What the outside supplies to one operation. -/
structure Input where
  now : Instant := 0
  /-- rows the database comes to first -/
  order : List ℕ := []
  failed : Bool := false

/-- What a run has done: the rows its statements have returned, what it told the metrics, and
whether a statement of it failed. -/
structure Log where
  taken : RetainedData → ℕ := fun _ => 0
  reported : RetainedData → ℕ := fun _ => 0
  failed : Bool := false

/-- Perform one operation. -/
def exec (inp : Input) (l : Log) (s : State) : (o : Op) → o.Res × Log × State
  | .find d limit =>
    let time := max s.clock inp.now
    ((time, (arranged inp.order (s.due d time)).take limit), l, { s with clock := time })
  | .take d time batch =>
    if inp.failed then (.error (), { l with failed := true }, s)
    else
      let handled := ((s.tables d).select fun id _ => batch.contains id).length
      (.ok handled, { l with taken := l.taken + Pi.single d handled }, s.take d time batch)
  | .report d handled => ((), { l with reported := l.reported + Pi.single d handled }, s)

/-- The meaning of the operations; none waits. -/
def machine : Machine State Log Empty Op Op.Res Input :=
  .atomic {} fun o inp l s => some (exec inp l s o)

/-! ## The service -/

/-- A service call; an error is one of the driver. -/
abbrev Service (α : Type) : Type := ExceptT Unit (Prog Op Op.Res) α

/-- Perform one operation. -/
def perform (o : Op) : Service o.Res := ExceptT.lift (Prog.perform o)

/-- The step of a job: one statement, for at most `limit` rows. -/
def step (d : RetainedData) (limit : ℕ) : Service ℕ := do
  let found ← (perform (.find d limit) : Service (Instant × List ℕ))
  match ← (perform (.take d found.1 found.2) : Service (Except Unit ℕ)) with
  | .ok handled => pure handled
  | .error e => throw e

/-- `clearCustomerNames` -/
def clearCustomerNames : Service ℕ := drainInBatches (step .customerNames)

/-- `trimEventPayloads` -/
def trimEventPayloads : Service ℕ := drainInBatches (step .eventPayloads)

/-- `deleteStaleRefreshTokens` -/
def deleteStaleRefreshTokens : Service ℕ := drainInBatches (step .refreshTokens)

/-- `deleteExpiredIdempotencyKeys` -/
def deleteExpiredIdempotencyKeys : Service ℕ := drainInBatches (step .idempotencyKeys)

/-- `run`: a job that fails is logged, and does not stop the next. -/
def run (d : RetainedData) (job : Service ℕ) : Service Unit :=
  tryCatch (do
    let handled ← job
    perform (.report d handled)) fun _ => pure ()

/-- `runNightly` -/
def runNightly : Service Unit := do
  run .customerNames clearCustomerNames
  run .eventPayloads trimEventPayloads
  run .refreshTokens deleteStaleRefreshTokens

/-- `runHourly` -/
def runHourly : Service Unit := run .idempotencyKeys deleteExpiredIdempotencyKeys

/-! ## The system -/

/-- A run of the scheduler, on any instance. -/
inductive Call where
  | nightly
  | hourly
  deriving DecidableEq

/-- The kinds of data a run looks after, in turn. -/
def Call.data : Call → List RetainedData
  | nightly => [.customerNames, .eventPayloads, .refreshTokens]
  | hourly => [.idempotencyKeys]

/-- What a run does. -/
def program : Call → Prog Op Op.Res (Except Unit Unit)
  | .nightly => runNightly.run
  | .hourly => runHourly.run

/-- What happens by itself. -/
inductive Event where
  /-- time passes -/
  | tick (elapsed : ℕ)
  /-- a row is inserted -/
  | insert (d : RetainedData) (row : d.Row)
  /-- a row is rewritten by the rest of the program -/
  | rewrite (d : RetainedData) (id : ℕ) (row : d.Row)

/-- What it does, where it can happen. -/
def happen (s : State) : Event → Option State
  | .tick elapsed => some { s with clock := s.clock + elapsed }
  | .insert d row => some { s with
      tables := Function.update s.tables d ((s.tables d).put (s.next d) row)
      next := Function.update s.next d (s.next d + 1) }
  | .rewrite d id row => do
    let old ← (s.tables d).get id
    if d.Rewritten old row then
      some { s with tables := Function.update s.tables d ((s.tables d).put id row) }
    else none

/-- The system: any number of runs, and the rest of the program. -/
def system : System State Log Empty Op Op.Res Input Call Event (Except Unit Unit) where
  machine := machine
  program := program
  world e s := happen s e
  world_keeps _ _ := trivial

/-- A world of the system. -/
abbrev JobWorld : Type := World State Log Op Op.Res Call (Except Unit Unit)

/-- Nothing stored, nobody running. -/
def opening : JobWorld := .initial ⟨0, fun _ => ∅, fun _ => 0⟩

/-- The worlds the system can reach. -/
def Reachable (w : JobWorld) : Prop := Runs system .all opening w

end CafePos.RetentionJobs
