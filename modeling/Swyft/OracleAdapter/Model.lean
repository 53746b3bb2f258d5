import Swyft.Host

/-!
# The oracle adapter

`packages/contract/contracts/oracle-adapter`: a circular buffer of cumulative price observations
written by one pool, and the time-weighted average read back from it.
-/

namespace Swyft

open Checked

/-- `BUFFER_SIZE`. -/
def bufferSize : ℕ := 65535

inductive OracleError where
  | notInitialized | alreadyInitialized | unauthorized | windowTooLarge | insufficientHistory
  | staleObservation | nonMonotonicTimestamp
  deriving DecidableEq, Repr

def OracleError.code : OracleError → ℕ
  | .notInitialized => 1
  | .alreadyInitialized => 2
  | .unauthorized => 3
  | .windowTooLarge => 4
  | .insufficientHistory => 5
  | .staleObservation => 6
  | .nonMonotonicTimestamp => 7

/-- One slot of the buffer. -/
structure Observation where
  timestamp : ℕ
  cumulativeSqrtPrice : ℕ
  cumulativeLiquidity : ℕ
  deriving DecidableEq, Repr

/-- The contract's storage: `Initialized`, `Pool`, `WriteIndex`, `ObservationCount`, `Obs(u32)`. -/
structure OracleAdapter where
  initialized : Bool
  pool : Address
  writeIndex : ℕ
  observationCount : ℕ
  obs : ℕ → Option Observation

namespace OracleAdapter

/-- `panic_oracle_error`. -/
def oracleError (e : OracleError) : Trap := .contractError e.code

/-- The text of `Option::unwrap` on an empty slot. -/
def unwrapNone : String := "called `Option::unwrap()` on a `None` value"

/-- `initialize(pool)`. -/
def initializeOracle (o : OracleAdapter) (pool : Address) : Res OracleAdapter := do
  require (o.initialized = false) (oracleError .alreadyInitialized)
  pure { o with initialized := true, pool, writeIndex := 0, observationCount := 0 }

/-- A deployed contract before `initialize`: every slot is empty. -/
def deployed (pool : Address) : OracleAdapter := ⟨false, pool, 0, 0, fun _ => none⟩

/-- The slot before `write_idx`. -/
def prevIndex (writeIndex : ℕ) : ℕ :=
  if writeIndex = 0 then bufferSize - 1 else writeIndex - 1

/-- The slot of the oldest observation. -/
def oldestIndex (count writeIndex : ℕ) : ℕ :=
  if count < bufferSize then 0 else writeIndex % bufferSize

/-- Store `obs` at `write_idx` and move on. -/
def append (o : OracleAdapter) (obs : Observation) : OracleAdapter :=
  { o with
    obs := Function.update o.obs o.writeIndex (some obs)
    writeIndex := (o.writeIndex + 1) % bufferSize
    observationCount := min (satAdd 32 o.observationCount 1) bufferSize }

/-- `write_observation(sqrt_price_x96, liquidity)` by `invoker` at ledger time `now`. -/
def writeObservation (o : OracleAdapter) (invoker : Address) (now sqrtPriceX96 liquidity : ℕ) :
    Res OracleAdapter := do
  require (o.initialized = true) (oracleError .notInitialized)
  require (invoker = o.pool) .unauthorized
  if o.observationCount = 0 then
    pure (o.append ⟨now, 0, 0⟩)
  else do
    let prev ← expect (o.obs (prevIndex o.writeIndex)) unwrapNone
    require (prev.timestamp ≤ now) (oracleError .nonMonotonicTimestamp)
    if now = prev.timestamp then
      -- a write in the ledger of the newest observation is dropped
      pure o
    else do
      let elapsed ← subU64 now prev.timestamp
      pure (o.append
        ⟨now, satAdd 128 prev.cumulativeSqrtPrice (satMul 128 sqrtPriceX96 elapsed),
          satAdd 128 prev.cumulativeLiquidity (satMul 128 liquidity elapsed)⟩)

/-- The loop of `binary_search_observation`, entered with bounds `lo` and `hi`; each round drops
at least one slot, so `fuel` may be any bound on their number. -/
def searchLoop (o : OracleAdapter) (oldest target : ℕ) :
    (fuel lo hi result : ℕ) → Res ℕ
  | 0, _, _, result => pure result
  | fuel + 1, lo, hi, result =>
    if lo ≤ hi then do
      let mid := lo + (hi - lo) / 2
      let abs := (oldest + mid) % bufferSize
      let obs ← expect (o.obs abs) unwrapNone
      if obs.timestamp ≤ target then searchLoop o oldest target fuel (mid + 1) hi abs
      else if mid = 0 then pure result
      else searchLoop o oldest target fuel lo (mid - 1) result
    else pure result

/-- `binary_search_observation(count, write_idx, target_ts)`. -/
def binarySearchObservation (o : OracleAdapter) (count writeIndex target : ℕ) :
    Res Observation := do
  let oldest := oldestIndex count writeIndex
  let hi ← subU64 count 1
  let result ← searchLoop o oldest target count 0 hi oldest
  expect (o.obs result) unwrapNone

/-- `get_twap(window_secs)` at ledger time `now`. -/
def getTwap (o : OracleAdapter) (now windowSecs : ℕ) : Res ℕ := do
  require (o.initialized = true) (oracleError .notInitialized)
  require (2 ≤ o.observationCount) (oracleError .insufficientHistory)
  let latest ← expect (o.obs (prevIndex o.writeIndex)) unwrapNone
  require (now ≤ latest.timestamp) (oracleError .staleObservation)
  let target := satSub latest.timestamp windowSecs
  let oldest ← expect (o.obs (oldestIndex o.observationCount o.writeIndex)) unwrapNone
  require (oldest.timestamp ≤ target) (oracleError .windowTooLarge)
  let start ← binarySearchObservation o o.observationCount o.writeIndex target
  let elapsed ← subU64 latest.timestamp start.timestamp
  require (elapsed ≠ 0) (oracleError .insufficientHistory)
  divU128 (satSub latest.cumulativeSqrtPrice start.cumulativeSqrtPrice) elapsed

end OracleAdapter

end Swyft
