import PIMSim.Configs
import PIMSim.Library.Binary

/-!
# Inputs and requests

The objects the simulator passes around: trace inputs, processor requests, memory requests and the
information of a completion callback.

## Main definitions

* `Instruction`, `PCTrace`, `Input`: the inputs of a processor
* `ProcRequest`, `parseIns`: a request of a processor, and the one made of an instruction
* `MemRequest`: a request sent to a memory object
* `CallBackInfo`: what a memory object tells when a request completes
-/

namespace PIMSim

open CSharp

inductive InstructionType
  | read
  | write
  | eof
  | nop
  | calculation
deriving DecidableEq, Repr

/-- An instruction. `ref` stands for the identity of the object: a window entry and the current
instruction of a processor are one object when their `ref` is the same. -/
structure Instruction where
  ref : ℕ := 0
  cycle : UInt64 := 0
  type : InstructionType := .nop
  address : UInt64 := 0
  pid : Int := 0
  pc : UInt64 := 0
  isMem : Bool := false
  blockAddr : UInt64 := 0
  ready : Bool := false
  servedCycle : UInt64 := 0
deriving DecidableEq

/-- A line of a PC trace. The top bit of `combination` tells writes from reads. -/
structure PCTrace where
  pc : UInt64
  combination : UInt64
  id : Int
deriving DecidableEq

namespace PCTrace

/-- `GlobalMath.toBinary`: the 64 base-two digits of `i`. -/
def toBinary (i : UInt64) : List Char := digits64 i

/-- The instruction of a trace line. -/
def parsetoIns (t : PCTrace) : Outcome Instruction := do
  let combine := toBinary t.combination
  let type := if combine[0]? = some '1' then InstructionType.write else .read
  let address ← toUInt64 (combine.set 0 '0')
  return { type, pc := t.pc, isMem := true, pid := t.id, address }

end PCTrace

/-- What the instruction partitioner hands to a processor: an instruction, a trace line, or
something a host processor cannot process. -/
inductive Input
  | instruction (ins : Instruction)
  | pcTrace (t : PCTrace)
  | other
deriving DecidableEq

inductive RequestType
  | read
  | write
  | nop
  | calculation
  | flush
  | load
  | store
deriving DecidableEq, Repr

/-- A request of a processor. -/
structure ProcRequest where
  pid : Int := 0
  cycle : UInt64 := 0
  type : RequestType := .read
  actualAddr : UInt64 := 0
  blockAddr : UInt64 := 0
  ready : Bool := false
  ifMem : Bool := false
  pc : UInt64 := 0
  stageId : List Int := []
  tsDeparture : UInt64 := 0
deriving DecidableEq

/-- `parse_ins`: the request takes the fields of an instruction. -/
def ProcRequest.parse (req : ProcRequest) (ins : Instruction) : ProcRequest :=
  { req with
    pid := ins.pid
    type := match ins.type with
      | .nop => .nop
      | .calculation => .calculation
      | .read => .read
      | .write => .write
      | .eof => .nop
    pc := ins.pc
    ifMem := ins.isMem
    cycle := ins.cycle
    actualAddr := ins.address
    blockAddr := ins.blockAddr }

/-- The request of an instruction. -/
def parseIns (ins : Instruction) : ProcRequest := ProcRequest.parse {} ins

inductive MemReqType
  | read
  | write
  | returnData
  | flush
  | load
  | store
  | null
deriving DecidableEq, Repr

/-- A request sent to a memory object. -/
structure MemRequest where
  address : UInt64
  data : UInt64 := 0
  blockAddr : UInt64
  memtype : MemReqType
  cycle : UInt64 := 0
  pim : Bool := false
  pid : List Int := []
  stageId : List Int := []
deriving DecidableEq

/-- What a memory object tells when a request completes. -/
structure CallBackInfo where
  address : UInt64
  blockAddr : UInt64
  pim : Bool
  pid : List Int
  flush : Bool := false
  load : Bool := false
  store : Bool := false
  stageId : List Int := []
deriving DecidableEq

end PIMSim
