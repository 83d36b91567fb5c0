import PIMSim.DDR.DRAMConfig

/-!
# Address mapping

`addressMapping` splits a physical address into the numbers of a channel, a rank, a bank, a row and
a column. The schemes differ in the order of the fields.

## Main definitions

* `AddressMappingScheme.order`: the fields of a scheme from the low bits on
* `addressMapping`: the place of an address
-/

namespace PIMSim.DDR

open CSharp

/-- The parts of an address. -/
inductive Field
  | chan
  | rank
  | bank
  | row
  | column
deriving DecidableEq, Repr

/-- Where an address lies. -/
structure Place where
  chan : ℕ := 0
  rank : ℕ := 0
  bank : ℕ := 0
  row : ℕ := 0
  column : ℕ := 0
deriving DecidableEq

/-- The parts from the low bits on. The branch for the seventh scheme tests for the sixth one, so
the seventh is unknown. -/
def AddressMappingScheme.order : AddressMappingScheme → Option (List Field)
  | .scheme1 => some [.bank, .column, .row, .rank, .chan]
  | .scheme2 => some [.rank, .bank, .column, .row, .chan]
  | .scheme3 => some [.row, .column, .bank, .rank, .chan]
  | .scheme4 => some [.column, .row, .bank, .rank, .chan]
  | .scheme5 => some [.bank, .rank, .column, .row, .chan]
  | .scheme6 => some [.column, .rank, .bank, .row, .chan]
  | .scheme7 => none

/-- The width of a part. -/
def Field.width (cfg : DRAMConfig) : Field → UInt64
  | .chan => UInt64.ofNat cfg.numChansLog
  | .rank => UInt64.ofNat cfg.numRanksLog
  | .bank => UInt64.ofNat cfg.numBanksLog
  | .row => UInt64.ofNat cfg.numRowsLog
  | .column => UInt64.ofNat ((cfg.numColsLog - cfg.colLowBitWidth : Int) % 64).toNat

def Place.set (place : Place) (n : ℕ) : Field → Place
  | .chan => { place with chan := n }
  | .rank => { place with rank := n }
  | .bank => { place with bank := n }
  | .row => { place with row := n }
  | .column => { place with column := n }

/-- The parts are cut off one after the other. -/
def cutFields (cfg : DRAMConfig) (place : Place) (address : UInt64) : List Field → Place
  | [] => place
  | f :: fs =>
    let tempA := address
    let address := address >>> f.width cfg
    let tempB := address <<< f.width cfg
    cutFields cfg (place.set ((tempA ^^^ tempB).toNat % 2 ^ 32) f) address fs

def addressMapping (cfg : DRAMConfig) (physicalAddress : UInt64) : Outcome Place :=
  let address := physicalAddress >>> UInt64.ofNat cfg.byteOffsetWidth
  let address := address >>> UInt64.ofNat cfg.colLowBitWidth
  match cfg.addressMappingScheme.order with
  | some fields => .ok (cutFields cfg {} address fields)
  | none => .error (.exit (-1) "Unknown Address Mapping Scheme")

end PIMSim.DDR
