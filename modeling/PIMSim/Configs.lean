import Mathlib.Data.Nat.Notation
import Mathlib.Data.Int.Notation

/-!
# Settings

The settings of `Config` and `PIMConfigs` that the modelled classes read, with the defaults of the
source.

## Main definitions

* `Consistency`, `TraceType`, `SimType`, `PIMUnitType`: the enumerations
* `Config`: the settings
-/

namespace PIMSim

inductive Consistency
  | spinLock
  | noCache
  | dontCheck
deriving DecidableEq, Repr

inductive TraceType
  | detailed
  | pc
deriving DecidableEq, Repr

inductive SimType
  | cycle
  | file
deriving DecidableEq, Repr

inductive PIMUnitType
  | processors
  | pipeline
deriving DecidableEq, Repr

/-- The settings of `Config` and `PIMConfigs`. -/
structure Config where
  n : ℕ := 1
  ipc : Int := 1
  maxInspWaittingQueue : Int := 100
  writeback : Bool := true
  insWSize : Int := 256
  writebackQueueSize : Int := 128
  mshrSize : Int := 32
  crtlQueueMax : Int := 128
  mcLatency : Int := 0
  pageSize : UInt64 := 4096
  sharedCache : Bool := true
  useCache : Bool := true
  l1cacheHitLatency : UInt64 := 1
  shareCacheHitLatency : UInt64 := 200
  traceType : TraceType := .pc
  simType : SimType := .file
  simCycle : UInt64 := 10000
  consistencyModel : Consistency := .spinLock
  unitType : PIMUnitType := .processors
  pimUseL1Cache : Bool := true
  pimCuCount : ℕ := 0
  maxPimBlock : Int := 15
  pimKernal : List (UInt64 × UInt64) := []

/-- `NULL` marks invalid data or a blank address. -/
def NULL : UInt64 := 18446744073709551615

end PIMSim
