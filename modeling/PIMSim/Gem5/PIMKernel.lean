import PIMSim.Library.Checked
import PIMSim.Library.Run

/-!
# The in-memory kernel

A kernel takes a command with the addresses of its operands, reads the input operands through its
memory port, computes, and writes the result to the output operands. The port may refuse a packet and
ask for it again later. The kernel works in clock cycles, through three scheduled events.

## Main definitions

* `PIMKernel`: the kernel, with the clock, the packets that the memory has not answered and the
  record of what went through the kernel's ports
* `tick`, `trycompute`, `finish`: what the scheduled events run
* `recvFunctional`, `recvReqRetry`, `recvTimingResp`: a command, a retry and a response arrive
* `step`: the kernel's answer to an event
* `Possible`: the event queue and the memory can bring the event about

The simulator's counters and the kernel's power switch, which nothing turns, are left out.
-/

namespace PIMSim.Gem5

open Cpp

/-- The status of a kernel. -/
inductive Status
  | idle
  | ready
  | waitingResp
  | sendRetry
  | finish
  | poweroff
deriving DecidableEq, Repr

/-- The status of a register. -/
inductive DataStatus
  | dataEmpty
  | dataReady
  | dataWaitingResp
  | dataFinish
deriving DecidableEq, Repr

/-- A register: an operand's address, and how far its access is. -/
structure Reg where
  addr : UInt64
  status : DataStatus
deriving DecidableEq, Repr

/-- A memory request of the kernel; `procid` is the register it is for. -/
structure Packet where
  isRead : Bool
  addr : UInt64
  procid : ℕ
  data : UInt64
deriving DecidableEq, Repr

/-- A packet that the memory accepted at the tick `since`. -/
structure Flight where
  pkt : Packet
  since : ℕ
deriving DecidableEq, Repr

/-- What goes through the kernel's ports. -/
inductive Record
  | registered (addr : List UInt64)
  | started (addr : List UInt64)
  | sent (pkt : Packet)
  | received (procid : ℕ) (value : UInt64)
  | completed (addr : List UInt64)
deriving DecidableEq, Repr

/-- The kernels. -/
inductive KernelType
  | base
  | adder
  | multiplier
  | divider
deriving DecidableEq, Repr

/-- A kernel's parameters. -/
structure KernelParams where
  type : KernelType
  latency : ℕ
  input : ℕ
  output : ℕ
  clockPeriod : ℕ
  clockPeriod_pos : 0 < clockPeriod

/-- A kernel; the events are given by the tick they are scheduled for. -/
structure PIMKernel where
  status : Status := .idle
  regs : List Reg
  data : List UInt64
  retry_pkt : Option Packet := none
  tickEvent : Option ℕ := none
  computeEvent : Option ℕ := none
  finishEvent : Option ℕ := none
  curTick : ℕ := 0
  inFlight : List Flight := []
  history : List Record := []
deriving DecidableEq, Repr

namespace PIMKernel

variable (p : KernelParams) (accepts : Bool) (k : PIMKernel)

/-- A new kernel. -/
def create : PIMKernel where
  regs := List.replicate (p.input + p.output) ⟨0, .dataEmpty⟩
  data := List.replicate (p.input + p.output) 0

/-- The tick of the clock edge that many cycles after the next one. -/
def clockEdge (cycles : ℕ) : ℕ :=
  ((k.curTick + p.clockPeriod - 1) / p.clockPeriod + cycles) * p.clockPeriod

def isActive : Bool := k.status ≠ .poweroff

def canModify : Bool := k.status = .idle

def needSchedule : Bool := k.status ≠ .idle ∧ k.status ≠ .poweroff ∧ k.status ≠ .sendRetry

def inputReady : Bool := (k.regs.take p.input).all (·.status = .dataFinish)

def outputReady : Bool := k.regs.all (·.status = .dataFinish)

/-- The first register whose access is still to be sent; the number of registers when there is
none. -/
def locateLatest : ℕ := k.regs.findIdx (·.status = .dataReady)

/-- The computation. -/
def doCompute : Outcome UInt64 :=
  match p.type with
  | .base => return 0
  | .adder => return (← vectorAt "doCompute" k.data 0) + (← vectorAt "doCompute" k.data 1)
  | .multiplier => return (← vectorAt "doCompute" k.data 0) * (← vectorAt "doCompute" k.data 1)
  | .divider => do
    let dividend ← vectorAt "doCompute" k.data 0
    let divisor ← vectorAt "doCompute" k.data 1
    if divisor = 0 then .error .divideByZero else return dividend / divisor

/-- The memory accepts a packet. -/
def send (pkt : Packet) : PIMKernel :=
  { k with
    status := .waitingResp
    regs := k.regs.modify pkt.procid fun r => { r with status := .dataWaitingResp }
    inFlight := k.inFlight ++ [⟨pkt, k.curTick⟩]
    history := k.history ++ [.sent pkt] }

/-- The memory refuses a packet. -/
def refuse (pkt : Packet) : PIMKernel := { k with status := .sendRetry, retry_pkt := some pkt }

/-- The write of the result to the first output register that waits for it. After a refusal the
packet is kept for the retry, and the computation is scheduled again as well. -/
def trycompute : Outcome PIMKernel := do
  let res ← k.doCompute p
  let _ ← assert k.isActive
  let toProc := k.locateLatest
  let reg ← vectorAt "trycompute" k.regs toProc
  let pkt : Packet := ⟨false, reg.addr, toProc, res⟩
  if accepts then
    return k.send pkt
  else
    let k := k.refuse pkt
    return { k with computeEvent := k.computeEvent.or (some (k.clockEdge p 1)) }

/-- The tick is scheduled for the next cycle when the kernel has something left to do. -/
def scheduleTick : PIMKernel :=
  if k.needSchedule ∧ k.tickEvent = none ∧ k.finishEvent = none then
    { k with tickEvent := some (k.clockEdge p 1) }
  else k

/-- The reads of a tick: the first register is sent when it is an input. The vector of received
packets that the source empties here is read nowhere else. -/
def sendRead : Outcome PIMKernel :=
  let toProc := k.locateLatest
  if toProc < p.input then do
    let reg ← vectorAt "tick" k.regs toProc
    let pkt : Packet := ⟨true, reg.addr, toProc, 0⟩
    return if accepts then k.send pkt else k.refuse pkt
  else
    return k

/-- A cycle of a kernel that has accesses to send or to wait for. -/
def access : Outcome PIMKernel := do
  let toProc := k.locateLatest
  let k ← k.sendRead p accepts
  if p.input ≤ toProc ∧ toProc < p.input + p.output ∧ k.inputReady p then
    return { k with computeEvent := k.computeEvent.or (some (k.clockEdge p p.latency)) }
  else if k.inputReady p ∧ k.outputReady then
    return { k with status := .finish }
  else
    return k

/-- The part of a cycle that depends on the kernel's status. -/
def tickStatus : Outcome PIMKernel :=
  match k.status with
  | .sendRetry | .poweroff => return k
  | .ready | .waitingResp => k.access p accepts
  | .idle | .finish => do
    let _ ← assert (k.finishEvent = none)
    return { k with finishEvent := some (k.clockEdge p 1) }

/-- One cycle. -/
def tick : Outcome PIMKernel := do
  let _ ← assert k.isActive
  let k ← k.tickStatus p accepts
  return k.scheduleTick p

/-- The addresses of a command are stored, and the kernel begins. -/
def start (addr : List UInt64) : Outcome PIMKernel :=
  if k.regs.length < addr.length then .error (.outOfRange "start")
  else tick p accepts { k with
    regs := addr.map (⟨·, .dataReady⟩) ++ k.regs.drop addr.length
    status := .ready
    history := k.history ++ [.started addr] }

/-- A command arrives: its addresses are registered, and an idle kernel executes it. -/
def recvFunctional (addr : List UInt64) : Outcome PIMKernel :=
  let k := { k with history := k.history ++ [.registered addr] }
  if !k.isActive || k.canModify then k.start p accepts addr else return k

/-- The memory asks for the refused packet again. -/
def recvReqRetry : Outcome PIMKernel := do
  let _ ← assert (k.status = .sendRetry)
  match k.retry_pkt with
  | none => .error .assertion
  | some pkt =>
    let _ ← assert (pkt.procid < p.input + p.output)
    let k := if accepts then k.send pkt else k
    return k.scheduleTick p

/-- A response is stored. -/
def doDataCallback (procid : ℕ) (value : UInt64) : Outcome PIMKernel := do
  let _ ← assert (procid < p.output + p.input)
  let k := { k with
    data := k.data.set procid value
    regs := k.regs.modify procid fun r => { r with status := .dataFinish }
    history := k.history ++ [.received procid value] }
  let _ ← assert (0 < k.regs.length)
  return if k.inputReady p ∧ k.outputReady then { k with status := .finish } else k

/-- A response arrives. -/
def recvTimingResp (procid : ℕ) (value : UInt64) : Outcome PIMKernel := do
  let k ← k.doDataCallback p procid value
  return { k with tickEvent := k.tickEvent.or (some (k.clockEdge p 1)) }

/-- The command is reported as complete, by the addresses of the first three registers. -/
def finish : Outcome PIMKernel := do
  let _ ← assert (k.tickEvent = none)
  let r0 ← vectorAt "finish" k.regs 0
  let r1 ← vectorAt "finish" k.regs 1
  let r2 ← vectorAt "finish" k.regs 2
  return { k with
    status := .idle
    history := k.history ++ [.completed [r0.addr, r1.addr, r2.addr]] }

end PIMKernel

/-- What happens to a kernel. The port's answer to a packet comes with the event that sends it; a
response is to one of the packets in flight, and brings the value that a read finds. -/
inductive KernelEvent
  | advance (tick : ℕ)
  | tick (accepts : Bool)
  | compute (accepts : Bool)
  | finish
  | command (addr : List UInt64) (accepts : Bool)
  | retry (accepts : Bool)
  | response (flight : ℕ) (value : UInt64)
deriving DecidableEq, Repr

namespace PIMKernel

/-- The kernel's answer to an event. -/
def step (p : KernelParams) (k : PIMKernel) : KernelEvent → Outcome PIMKernel
  | .advance t => .ok { k with curTick := t }
  | .tick accepts => { k with tickEvent := none }.tick p accepts
  | .compute accepts => { k with computeEvent := none }.trycompute p accepts
  | .finish => { k with finishEvent := none }.finish
  | .command addr accepts => k.recvFunctional p accepts addr
  | .retry accepts => k.recvReqRetry p accepts
  | .response n value =>
    match k.inFlight[n]? with
    | none => .ok k
    | some f =>
      { k with inFlight := k.inFlight.eraseIdx n }.recvTimingResp p f.pkt.procid
        (if f.pkt.isRead then value else f.pkt.data)

/-- The event can happen: the clock does not pass a scheduled event, an event runs at its tick, and
the memory answers a packet after the tick it accepted it at. -/
def Possible (k : PIMKernel) : KernelEvent → Prop
  | .advance t => k.curTick ≤ t ∧ (∀ s ∈ k.tickEvent, t ≤ s) ∧ (∀ s ∈ k.computeEvent, t ≤ s) ∧
      ∀ s ∈ k.finishEvent, t ≤ s
  | .tick _ => k.tickEvent = some k.curTick
  | .compute _ => k.computeEvent = some k.curTick
  | .finish => k.finishEvent = some k.curTick
  | .response n _ => ∃ f ∈ k.inFlight[n]?, f.since < k.curTick
  | .command _ _ | .retry _ => True

instance (k : PIMKernel) : ∀ e, Decidable (k.Possible e)
  | .advance t => inferInstanceAs (Decidable (k.curTick ≤ t ∧ (∀ s ∈ k.tickEvent, t ≤ s) ∧
      (∀ s ∈ k.computeEvent, t ≤ s) ∧ ∀ s ∈ k.finishEvent, t ≤ s))
  | .tick _ => inferInstanceAs (Decidable (k.tickEvent = some k.curTick))
  | .compute _ => inferInstanceAs (Decidable (k.computeEvent = some k.curTick))
  | .finish => inferInstanceAs (Decidable (k.finishEvent = some k.curTick))
  | .response n _ => inferInstanceAs (Decidable (∃ f ∈ k.inFlight[n]?, f.since < k.curTick))
  | .command _ _ | .retry _ => .isTrue trivial

end PIMKernel

end PIMSim.Gem5
