import Mathlib

/-!
# Draining in batches

`retention/drain-in-batches.ts`, in any monad: a step handles at most `limit` rows and says how
many it did; it is repeated until a batch comes back short, or the cap is reached.
-/

namespace CafePos

variable {m : Type → Type} [Monad m]

/-- `DEFAULT_MAX_BATCHES`. -/
def defaultMaxBatches : ℕ := 100

/-- `BATCH_SIZE` of the retention jobs. -/
def batchSize : ℕ := 1000

/-- The loop of `drainInBatches`, with the batches it may still run. -/
def drainUpTo (step : ℕ → m ℕ) (batchSize : ℕ) : ℕ → m ℕ
  | 0 => pure 0
  | batches + 1 => do
    let handled ← step batchSize
    if handled < batchSize then pure handled
    else do
      let rest ← drainUpTo step batchSize batches
      pure (handled + rest)

/-- `drainInBatches`. -/
def drainInBatches (step : ℕ → m ℕ) : m ℕ := drainUpTo step batchSize defaultMaxBatches

end CafePos
