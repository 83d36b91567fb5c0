import PIMSim.General

/-!
# The instruction window

The window holds the instruction objects themselves: a change of one of them shows at every place
of the window that holds it.

## Main definitions

* `InstructionWindow`: the queued instructions
* `addIns`, `setReady`, `setLast`, `evicted`: the changes
* `ifExist`, `getReadyinfo`, `full`: the tests
-/

namespace PIMSim

open CSharp

/-- The queued instructions and the depth of the queue. -/
structure InstructionWindow where
  ins : List Instruction
  size : Int

namespace InstructionWindow

/-- The object `i` is changed into `i'` wherever the window holds it. -/
def mutate (w : InstructionWindow) (i' : Instruction) : InstructionWindow :=
  { w with ins := w.ins.map fun x => if x.ref = i'.ref then i' else x }

/-- The instruction is queued with its cycle. -/
def addIns (w : InstructionWindow) (i : Instruction) (cycle : UInt64) : InstructionWindow :=
  let i := { i with servedCycle := cycle }
  { w.mutate i with ins := (w.mutate i).ins ++ [i] }

/-- Whether an instruction of the address `blockAddr` is queued. The test compares addresses. -/
def ifExist (w : InstructionWindow) (blockAddr : UInt64) : Bool :=
  w.ins.any fun x => x.address = blockAddr && x.isMem

def full (w : InstructionWindow) : Bool := w.size < w.ins.length

def empty (w : InstructionWindow) : Bool := w.ins.length = 0

/-- The memory instructions of the block are ready. -/
def setReady (w : InstructionWindow) (blockAddr : UInt64) : InstructionWindow :=
  { w with ins := w.ins.map fun x =>
      if x.blockAddr = blockAddr && x.isMem then { x with ready := true } else x }

/-- The last instruction's ready bit is set. -/
def setLast (w : InstructionWindow) (ready : Bool) : Outcome InstructionWindow :=
  match w.ins.getLast? with
  | none => .error .argumentOutOfRange
  | some x => .ok (w.mutate { x with ready := ready })

/-- The ready bit of the first memory instruction of the block. -/
def getReadyinfo (w : InstructionWindow) (blockAddr : UInt64) : Bool :=
  match w.ins.find? fun x => x.blockAddr = blockAddr && x.isMem with
  | some x => x.ready
  | none => false

/-- The oldest ready instructions leave. The loop takes its counter back at each removal, so it
ends at the first instruction that is not ready, whatever positive `n` is. -/
def evicted (w : InstructionWindow) (n : Int) : InstructionWindow :=
  if n ≤ 0 then w else { w with ins := w.ins.dropWhile (·.ready) }

end InstructionWindow

end PIMSim
