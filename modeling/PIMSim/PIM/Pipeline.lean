import PIMSim.Library.Run
import PIMSim.PIM.System
import PIMSim.TraceReader.FileReader

/-!
# The pipeline of a memory-side unit

`Adder_Conventional` loads two operands, adds them, and stores the result. Its stages are two loads, a
computation and a store, and hand their outputs on by ready flags. A load or a store takes the page
lock of its address, flushes the address out of the hosts, sends a request to the memory side's
controller, and waits for the callback that sets its status to complete.

The unit is modelled with the controller, the requests that the memory objects hold, and the coherence
component. The hosts do anything between two events. Statistics are left out.

## Main definitions

* `PIMStage`, `Counter`: the fields of a stage, and the counter of the computation
* `AdderConventional`: the unit
* `Pipeline`, `PipelineHappening`: the unit with its surroundings, and what happens
* `Pipeline.readInput`: what a load and a store do with their input
* `Pipeline.unitStep`, `Pipeline.step`: a cycle of the unit, and one transition
-/

namespace PIMSim

open CSharp

variable {Obj : Type}

inductive PIMLoadMethod
  | bypass
  | conventional
deriving DecidableEq

inductive Status
  | noOp
  | outstanding
  | complete
deriving DecidableEq

/-- A stage. The latency is that of the bypass method. -/
structure PIMStage where
  id : Int
  input : Option UInt64 := none
  output : Option UInt64 := none
  intermid : Option UInt64 := none
  inputReady : Bool := false
  outputReady : Bool := false
  stall : Bool := false
  status : Status := .noOp
  latency : Int := 0
deriving DecidableEq

namespace PIMStage

def writeOutput (st : PIMStage) : PIMStage :=
  match st.intermid with
  | some x => { st with output := some x, outputReady := true, intermid := none }
  | none => { st with outputReady := false }

def getOutput (st : PIMStage) : PIMStage :=
  if st.outputReady then { st with outputReady := false, output := none } else st

/-- `set_input` of a load. -/
def setInput (st : PIMStage) (addr : UInt64) : PIMStage :=
  { st with input := some addr, inputReady := true }

end PIMStage

/-- `Counter`, which counts down. -/
structure Counter where
  count : Int
  max : Int
deriving DecidableEq

def Counter.waitOne (c : Counter) : Outcome Counter :=
  if c.count < 0 then .error .argument
  else if c.count = 0 then return c
  else return { c with count := c.count - 1 }

/-- The unit. `latency` is the counter of the computation. -/
structure AdderConventional where
  id : ℕ := 0
  load0 : PIMStage := { id := 0 }
  load1 : PIMStage := { id := 1 }
  computation : PIMStage := { id := 2 }
  store : PIMStage := { id := 3 }
  latency : Counter := ⟨1, 1⟩
  storeAddr : UInt64 := 0
  curr : Option FunctionInput := none
deriving DecidableEq

/-- What happens to the unit and its locks.

* `started`, `finished`: the unit takes a function, and is done with it
* `sent`: a stage sends a request, and the controller takes or refuses it
* `completed`: a callback completes a stage
* `locked`: a page lock is taken
* `backedOff`: a page lock is handed back, since the hosts have not flushed the address
* `stored`: the store stage has produced output
* `released`: the unit hands a page lock back -/
inductive PipelineHappening
  | started (f : FunctionInput)
  | sent (req : ProcRequest) (accepted : Bool)
  | completed (stage : Int)
  | locked (addr : UInt64)
  | backedOff (addr : UInt64)
  | stored
  | released (addr : UInt64)
  | finished
deriving DecidableEq

/-- The unit, and what it meets: the coherence component, the controller of the memory side, and the
requests in the memory objects. -/
structure Pipeline where
  coherence : Coherence
  pimMctrl : Controller
  unit : AdderConventional := {}
  memory : List MemRequest := []
  history : List PipelineHappening := []

namespace Pipeline

variable (cfg : Config) (info : List (Region Obj)) (method : PIMLoadMethod)

/-- The unit before its first cycle, and an empty controller for `n` memory objects. -/
def init (n : ℕ) (coherence : Coherence) : Pipeline where
  coherence := coherence
  pimMctrl := Controller.init n

def note (s : Pipeline) (h : List PipelineHappening) : Pipeline :=
  { s with history := s.history ++ h }

/-- A page lock is taken. -/
def setlock (s : Pipeline) (addr : UInt64) : Outcome Pipeline := do
  let lock ← spinLockOf s.coherence.spinLock
  let lock ← SpinLock.setlock info lock addr
  return { s with coherence := { s.coherence with spinLock := some lock } }.note [.locked addr]

/-- A page lock is handed back, for the reason `why`. -/
def releseLock (s : Pipeline) (addr : UInt64) (why : UInt64 → PipelineHappening) :
    Outcome Pipeline := do
  let lock ← spinLockOf s.coherence.spinLock
  let lock ← SpinLock.releseLock info lock addr
  return { s with coherence := { s.coherence with spinLock := some lock } }.note [why addr]

/-- A stage takes the lock of its address, and flushes the address out of the hosts. The answer is
whether it goes on. -/
def secure (s : Pipeline) (addr : UInt64) : Outcome (Bool × Pipeline) :=
  if s.coherence.consistency = .spinLock then do
    let s ← s.setlock info addr
    let (flushed, host) ← Coherence.flush cfg s.coherence.host addr true
    let s := { s with coherence := { s.coherence with host := host } }
    if flushed then return (true, s)
    else do
      let s ← s.releseLock info addr .backedOff
      return (false, s)
  else return (true, s)

/-- The request of a stage. -/
def request (s : Pipeline) (st : PIMStage) (type : RequestType) (addr : UInt64) : ProcRequest where
  actualAddr := addr
  cycle := s.coherence.host.world.tick
  ifMem := true
  pid := s.unit.id
  stageId := [st.id]
  type := type

/-- `PIMMctrl.add_to_mctrl`, whose answer the stages do not use. -/
def send (s : Pipeline) (req : ProcRequest) : Pipeline :=
  let (accepted, pimMctrl) := s.pimMctrl.addToMctrl cfg req
  { s with pimMctrl := pimMctrl }.note [.sent req accepted]

/-- A stage whose address is secured sends its request, or lets the latency of the bypass method
pass. Only a store stalls meanwhile. -/
def issue (s : Pipeline) (type : RequestType) (st : PIMStage) (addr : UInt64) :
    Bool × Pipeline × PIMStage :=
  match method with
  | .bypass =>
    let st := { st with latency := Int.bmod (st.latency - 1) (2 ^ 32) }
    if st.latency = (0 : Int) then
      (true, s, { st with intermid := some addr, inputReady := false, input := none })
    else (false, s, { st with stall := st.stall || decide (type = .store) })
  -- the stage waits also when the controller refuses: the answer of `send` is not read
  | .conventional =>
    (false, s.send cfg (s.request st type addr), { st with status := .outstanding, stall := true })

/-- `read_input` of a load and of a store. The answer is whether an output is to be written. -/
def readInput (type : RequestType) (s : Pipeline) (st : PIMStage) :
    Outcome (Bool × Pipeline × PIMStage) :=
  match st.status with
  | .complete =>
    return (true, s, { st with
      intermid := st.input, inputReady := false, input := none, status := .noOp })
  | .outstanding => return (false, s, { st with stall := true })
  | .noOp =>
    match st.input with
    | none => return (false, s, st)
    | some addr =>
      if st.inputReady then do
        let (goesOn, s) ← s.secure cfg info addr
        if goesOn then return s.issue cfg method type st addr
        else return (false, s, { st with stall := true })
      else return (false, s, st)

/-- `Step` of a load. -/
def loadStep (s : Pipeline) (st : PIMStage) : Outcome (Pipeline × PIMStage) := do
  let (ready, s, st) ← readInput cfg info method .load s { st with stall := false }
  return (s, if ready then st.writeOutput else st)

def stepLoad0 (s : Pipeline) : Outcome Pipeline := do
  let (s, st) ← s.loadStep cfg info method s.unit.load0
  return { s with unit := { s.unit with load0 := st } }

def stepLoad1 (s : Pipeline) : Outcome Pipeline := do
  let (s, st) ← s.loadStep cfg info method s.unit.load1
  return { s with unit := { s.unit with load1 := st } }

/-- `set_input` of the computation: it takes the outputs of both loads. -/
def feedComputation (u : AdderConventional) : AdderConventional :=
  if u.load0.outputReady && u.load1.outputReady then { u with
    load0 := u.load0.getOutput
    load1 := u.load1.getOutput
    computation := { u.computation with stall := false, inputReady := true } }
  else { u with computation := { u.computation with stall := false, inputReady := false } }

/-- `Step` of the computation. -/
def stepComputation (s : Pipeline) : Outcome Pipeline := do
  let u := feedComputation s.unit
  if u.computation.inputReady then
    let st := { u.computation with inputReady := false, intermid := some 0 }
    let latency ← u.latency.waitOne
    if latency.count = 0 ∧ latency.max ≠ 0 then
      return { s with unit := { u with
        computation := st.writeOutput, latency := { latency with count := latency.max } } }
    else
      return { s with unit := { u with computation := { st with stall := true }, latency := latency } }
  else return { s with unit := u }

/-- `set_input` of the store: it takes the output of the computation. -/
def feedStore (u : AdderConventional) : AdderConventional :=
  if u.computation.outputReady then { u with
    computation := u.computation.getOutput
    store := { u.store with stall := false, input := some u.storeAddr, inputReady := true } }
  else { u with store := { u.store with stall := false, inputReady := false } }

/-- `Step` of the store. -/
def stepStore (s : Pipeline) : Outcome Pipeline := do
  let s := { s with unit := feedStore s.unit }
  let (ready, s, st) ← readInput cfg info method .store s s.unit.store
  if ready then return { s with unit := { s.unit with store := st.writeOutput } }.note [.stored]
  else return { s with unit := { s.unit with store := st } }

/-- The locks of a function are handed back. -/
def releaseLocks (s : Pipeline) (f : FunctionInput) : Outcome Pipeline :=
  if s.coherence.consistency = .spinLock then do
    let s ← s.releseLock info (← listAt f.input 0) .released
    let s ← s.releseLock info (← listAt f.input 1) .released
    s.releseLock info (← listAt f.output 0) .released
  else return s

/-- The output of the store ends the current function. -/
def finish (s : Pipeline) : Outcome Pipeline :=
  if s.unit.store.outputReady then
    match s.unit.curr with
    | none => return s
    | some f => do
      let s ← s.releaseLocks info f
      return { s with unit := { s.unit with
        store := s.unit.store.getOutput, curr := none } }.note [.finished]
  else return s

/-- `get_input`, from what the partitioner answers. -/
def getInput : Option TraceInput → Outcome (Option FunctionInput)
  | none => return none
  | some (.function f) => return some f
  | some (.instruction t) => if t.ins.type = .nop then return none else .error (.exit 2)
  | some _ => .error (.exit 2)

/-- A unit without a function asks for one. -/
def start (s : Pipeline) (answer : Option TraceInput) : Outcome Pipeline :=
  match s.unit.curr with
  | some _ => return s
  | none => do
    match ← getInput answer with
    | none => return s
    | some f => do
      let first ← listAt f.input 0
      let second ← listAt f.input 1
      let target ← listAt f.output 0
      return { s with unit := { s.unit with
        curr := some f
        load0 := s.unit.load0.setInput first
        load1 := s.unit.load1.setInput second
        storeAddr := target } }.note [.started f]

/-- A cycle of the unit. The partitioner answers `answer` if it is asked. -/
def unitStep (s : Pipeline) (answer : Option TraceInput) : Outcome Pipeline := do
  let s ← s.start answer
  let s ← s.stepStore cfg info method
  let s ← s.finish info
  let s ← s.stepComputation
  let s ← s.stepLoad1 cfg info method
  s.stepLoad0 cfg info method

/-- A stage is complete. -/
def setComplete (s : Pipeline) (id : Int) : Outcome Pipeline :=
  let s := s.note [.completed id]
  if id = 0 then
    return { s with unit := { s.unit with load0 := { s.unit.load0 with status := .complete } } }
  else if id = 1 then
    return { s with unit := { s.unit with load1 := { s.unit.load1 with status := .complete } } }
  else if id = 2 then
    return { s with unit := { s.unit with
      computation := { s.unit.computation with status := .complete } } }
  else if id = 3 then
    return { s with unit := { s.unit with store := { s.unit.store with status := .complete } } }
  else .error .indexOutOfRange

/-- `handle_read_callback` and `handle_write_callback`. -/
def callBack (s : Pipeline) (callback : CallBackInfo) : Outcome Pipeline :=
  callback.stageId.foldlM setComplete s

/-- The unit is the only one, so that other numbers name no unit. -/
def callBackUnit (callback : CallBackInfo) (s : Pipeline) (pid : Int) : Outcome Pipeline :=
  if pid = 0 then s.callBack callback else .error .argumentOutOfRange

/-- A memory object completes its `k`-th request. The unit sends loads and stores only. -/
def complete (s : Pipeline) (k : ℕ) : Outcome Pipeline :=
  match s.memory[k]? with
  | none => return s
  | some req =>
    let s := { s with memory := s.memory.eraseIdx k }
    match req.memtype with
    | .load => req.pid.foldlM (callBackUnit (System.callBackInfo req)) s
    | .store => req.pid.foldlM (callBackUnit (System.callBackInfo req)) s
    | _ => return s

/-- The `j`-th request joins the `i`-th one, when both are of one address and of one side. The stages
of the `j`-th one are not kept. -/
def merge (s : Pipeline) (i j : ℕ) : Pipeline :=
  match s.memory[i]?, s.memory[j]? with
  | some req, some other =>
    if i ≠ j ∧ req.address = other.address ∧ req.pim = other.pim then
      { s with memory := (s.memory.set i { req with pid := req.pid ++ other.pid }).eraseIdx j }
    else s
  | _, _ => s

/-- What a visit of the controller does with page locks. -/
def lockHappenings : ProcRequest × Fate → List PipelineHappening
  | (req, .flushing) => [.locked req.actualAddr, .backedOff req.actualAddr]
  | (req, .placed _ _) => [.locked req.actualAddr]
  | _ => []

/-- A cycle of the controller. -/
def pimMctrlStep (s : Pipeline) : Outcome Pipeline := do
  let (_, verdicts) ← Sweep.visits (PIMMctrl.visit cfg info (s.pimMctrl.cycle + 1))
    (s.coherence, s.pimMctrl.sendQueue) s.pimMctrl.waitQueue
  let (coherence, pimMctrl) ← PIMMctrl.step cfg info s.coherence s.pimMctrl
  return { s with coherence := coherence, pimMctrl := pimMctrl }.note
    (verdicts.flatMap lockHappenings)

end Pipeline

/-- What can happen: a cycle of the unit with what the partitioner answers, a cycle of the controller,
a memory object that fetches a request, merges two requests or completes one, and anything that the
hosts do. -/
inductive PipelineEvent
  | unitStep (answer : Option TraceInput)
  | pimMctrlStep
  | takePim (pid : ℕ)
  | merge (i j : ℕ)
  | complete (k : ℕ)
  | host (host : Host)

/-- One transition. -/
def Pipeline.step (cfg : Config) (info : List (Region Obj)) (method : PIMLoadMethod)
    (s : Pipeline) : PipelineEvent → Outcome Pipeline
  | .unitStep answer => s.unitStep cfg info method answer
  | .pimMctrlStep => s.pimMctrlStep cfg info
  | .takePim pid => do
    let (req, pimMctrl) ← s.pimMctrl.getReq true pid
    return { s with pimMctrl := pimMctrl, memory := s.memory ++ req.toList }
  | .merge i j => return s.merge i j
  | .complete k => s.complete k
  | .host host => return { s with coherence := { s.coherence with host := host } }

end PIMSim
