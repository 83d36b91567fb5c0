import PIMSim.PIM.PIMProc
import PIMSim.TraceReader.FileReader

/-!
# A cycle of a processor at the memory side

The processor's queues and its current instruction, with the controller it sends its requests to. Its
methods are copies of those of a host processor, with differences: it has no shared cache, its
registers merge no requests, and a retry registers the request again.

## Main definitions

* `NamedBlock`, `PIMInput`: the inputs of a memory-side processor
* `PIMCore`: a memory-side processor and its controller
* `PIMCore.handleCurrentReq`, `PIMCore.handleLast`: the issue path and its retry
* `PIMCore.handleCacheReq`: the fills of the requests that wait for the cache
* `PIMCore.step`, `PIMCore.completed`: one cycle, and the completion of a request
-/

namespace PIMSim

open CSharp

/-- An instruction block with its name, and the cycle when it was served first. Its instructions are
handed out one after the other. -/
structure NamedBlock extends InstructionBlock where
  name : String := ""
  servetime : UInt64 := NULL

/-- What the instruction partitioner hands to a memory-side processor. -/
inductive PIMInput
  | input (i : Input)
  | block (b : NamedBlock)

/-- A memory-side processor and the controller. `blockLatency` holds the names of the blocks that were
finished, each with its cycles, and `fetched` counts the instruction objects. The write-back queue is null when the settings
have no write-back. -/
structure PIMCore extends PIMProc where
  pc : UInt64 := 0
  insP : List PIMInput := []
  fetched : ℕ := 0
  started : Bool := false
  currentBlock : Option NamedBlock := none
  blockLatency : List (String × UInt64) := []
  tlb : PageConverter
  cacheReqQueue : List ProcRequest := []
  writebackReq : Option (List ProcRequest) := some []
  mctrlRetry : Bool := false
  mshrRetry : Bool := false
  currReq : Option ProcRequest := none
  currIns : Option Instruction := none
  cycle : UInt64 := 0
  mctrl : Controller := {}

namespace PIMCore

/-- `curr_ins`, which must not be null. -/
def theIns (c : PIMCore) : Outcome Instruction :=
  match c.currIns with
  | some ins => .ok ins
  | none => .error .nullReference

/-- `curr_req`, which must not be null. -/
def theReq (c : PIMCore) : Outcome ProcRequest :=
  match c.currReq with
  | some req => .ok req
  | none => .error .nullReference

/-! ### Queues -/

def addToMctrl (cfg : Config) (c : PIMCore) (req : ProcRequest) : Bool × PIMCore :=
  let (res, mctrl) := c.mctrl.addToMctrl cfg req
  (res, { c with mctrl := mctrl })

/-- A request is registered, unless the registers are full. -/
def addToMshr (cfg : Config) (c : PIMCore) (req : ProcRequest) : Bool × PIMCore :=
  if cfg.mshrSize ≤ c.mshr.length then (false, c)
  else (true, { c with mshr := c.mshr ++ [req] })

/-- `MSHR.RemoveAll(x => x.block_addr == block_addr)` and `ins_w.set_ready(block_addr, cycle)` -/
def settle (c : PIMCore) (blockAddr : UInt64) : PIMCore :=
  { c with
    insW := c.insW.setReady blockAddr
    mshr := c.mshr.filter (·.blockAddr ≠ blockAddr) }

/-- The current instruction is queued in the window with the given ready bit. -/
def loadIns (c : PIMCore) (ready : Bool) : Outcome PIMCore := do
  let ins ← c.theIns
  let ins := { ins with isMem := true, ready := ready }
  return { c with
    currIns := some { ins with servedCycle := c.cycle }
    insW := c.insW.addIns ins c.cycle }

/-! ### Fills -/

/-- The block is added to the first-level cache unless it is there. -/
def fillL1 (c : PIMCore) (blockAddr : UInt64) (reqt : RequestType) : Outcome PIMCore := do
  let (hit, l1) ← Cache.searchBlock c.l1Cache blockAddr .read
  if !hit then
    let (_, l1) ← Cache.add l1 blockAddr reqt c.pid
    return { c with l1Cache := l1 }
  else
    return { c with l1Cache := l1 }

/-- The requests waiting for the cache's latency, oldest first. A request that is not due stays at
the head, and the loop never ends. -/
def cacheReqLoop : List ProcRequest → PIMCore → Outcome PIMCore
  | [], c => .ok c
  | req :: queue, c => do
    if req.tsDeparture ≤ c.cycle then
      let c ← c.fillL1 req.blockAddr req.type
      cacheReqLoop queue ({ c with cacheReqQueue := queue }.settle req.blockAddr)
    else
      .error .nonTermination

def handleCacheReq (c : PIMCore) : Outcome PIMCore := cacheReqLoop c.cacheReqQueue c

/-! ### Inputs -/

/-- `InstructionBlock.get_ins`: an instruction that is not due is passed over for a new `NOP`. The first
one that is handed out gives the block its time. -/
def getIns (c : PIMCore) (b : NamedBlock) : Outcome (Option (Instruction × PIMCore)) :=
  match b.ins with
  | [] => .ok none
  | none :: _ => .error .nullReference
  | some x :: ins =>
    let next := { c with fetched := c.fetched + 1 }
    if x.ins.cycle ≤ c.cycle then
      .ok (some ({ x.ins with ref := c.fetched },
        { next with currentBlock := some { b with
            ins := ins
            servetime := if b.servetime = NULL then c.cycle else b.servetime } }))
    else
      .ok (some ({ ref := c.fetched }, next))

/-- `tlb.scan_page(addr)` -/
def scanPage (c : PIMCore) (addr : UInt64) : Outcome (UInt64 × PIMCore) := do
  let (res, tlb) ← c.tlb.scanPage addr
  return (res, { c with tlb := tlb })

/-- The next input. A processor without input gets a `NOP`. -/
def getInput (c : PIMCore) : Outcome (Instruction × PIMCore) :=
  let c' := { c with insP := c.insP.tail, fetched := c.fetched + 1 }
  match c.insP.headD (.input (.instruction {})) with
  | .input (.instruction ins) =>
    let ins := { ins with ref := c.fetched }
    if ins.isMem then do
      let (block, c') ← c'.scanPage ins.address
      return ({ ins with blockAddr := block }, c')
    else
      .ok (ins, c')
  | .block b => do
    let c := { c with insP := c.insP.tail, currentBlock := some b }
    match ← c.getIns b with
    | some (ins, c) => return (ins, c)
    | none => .error (.exit 2)
  | .input (.pcTrace t) => do
    let c' := { c' with pc := t.pc - 1 }
    let ins ← t.parsetoIns
    let (block, c') ← c'.scanPage ins.address
    return ({ ins with ref := c.fetched, blockAddr := block }, c')
  | .input .other => .error (.exit 1)

/-- The next instruction, of the current block or of the next input. The cycles of a block that ends
are added to a dictionary, which must not hold its name. -/
def getInsFromInsp (c : PIMCore) : Outcome (Instruction × PIMCore) :=
  match c.currentBlock with
  | some b => do
    match ← c.getIns b with
    | some (ins, c) => return (ins, c)
    | none =>
      if c.blockLatency.any fun x => x.1 = b.name then .error .argument
      else
        let c := { c with
          currentBlock := none
          blockLatency := c.blockLatency ++ [(b.name, c.cycle - b.servetime)] }
        c.getInput
  | none => c.getInput

/-- The next instruction and its request replace the current ones. -/
def nextRequest (c : PIMCore) : Outcome PIMCore := do
  let (ins, c) ← c.getInsFromInsp
  return { c with currIns := some ins, currReq := some (parseIns ins) }

/-! ### Issue and retry -/

/-- The retry of the current request: the instruction enters the window again, and the request is
registered again. The answer is whether the processor goes on. -/
def retry (cfg : Config) (c : PIMCore) (req : ProcRequest) : Outcome (Bool × PIMCore) := do
  let c ← c.loadIns false
  let (ok, c) := c.addToMshr cfg req
  if !ok then
    return (false, c)
  return (true, { c with mctrlRetry := false })

def handleLast (cfg : Config) (c : PIMCore) : Outcome (Bool × PIMCore) := do
  let req ← c.theReq
  if !req.ifMem then
    return (false, c)
  if c.mshrRetry then
    let (res, c) := c.addToMshr cfg req
    if !res then
      return (false, c)
    { c with mshrRetry := false }.retry cfg req
  else
    c.retry cfg req

/-- A request that misses: its instruction enters the window, and the controller gets it. -/
def issueMiss (cfg : Config) (c : PIMCore) (req : ProcRequest) : Outcome (Bool × PIMCore) := do
  let c ← c.loadIns false
  let (ok, c) := c.addToMctrl cfg req
  if !ok then
    return (false, { c with mctrlRetry := true })
  return (true, ← c.nextRequest)

/-- The body of the issue loop. The answer is whether the loop goes on. -/
def issue (cfg : Config) (c : PIMCore) : Outcome (Bool × PIMCore) := do
  if c.insW.full then
    return (false, c)
  let req ← c.theReq
  let ins ← c.theIns
  if c.insW.ifExist req.blockAddr then
    let ready := c.insW.getReadyinfo req.blockAddr
    let insW ← (c.insW.addIns ins c.cycle).setLast ready
    return (true, ← { c with insW := insW }.nextRequest)
  else if cfg.pimUseL1Cache then
    let (l1Hit, l1) ← Cache.searchBlock c.l1Cache req.blockAddr req.type
    let c := { c with l1Cache := l1 }
    if l1Hit then
      return (true, ← (← c.loadIns true).nextRequest)
    let (mshr, c) := c.addToMshr cfg req
    if !mshr then
      return (false, { c with mshrRetry := true })
    c.issueMiss cfg req
  else
    c.issueMiss cfg req

/-- The issue of the current request, and of the next ones while the memory restriction of the cycle
lasts. -/
def handleCurrentReq (cfg : Config) : ℕ → PIMCore → Outcome PIMCore
  | 0, c => .ok c
  | memRestrict + 1, c => do
    let (goesOn, c) ← c.issue cfg
    if goesOn then handleCurrentReq cfg memRestrict c else return c

/-! ### One cycle -/

/-- The first instruction, when there is none yet. A processor that has not started waits for one that
is no `NOP`. The answer is whether the cycle goes on. -/
def start (c : PIMCore) : Outcome (Bool × PIMCore) :=
  if c.currIns.isNone || c.currReq.isNone then do
    let (ins, c) ← c.getInsFromInsp
    let c := { c with currIns := some ins }
    if !c.started && ins.type = .nop then
      return (false, c)
    return (true, { c with started := true, currReq := some ((c.currReq.getD {}).parse ins) })
  else
    .ok (true, c)

/-- The oldest ready instructions leave the window. -/
def updateInsW (cfg : Config) (c : PIMCore) : PIMCore :=
  if c.insW.empty then c else { c with insW := c.insW.evicted cfg.ipc }

/-- One write-back request is sent. The answer is whether the cycle goes on. -/
def writeBack (cfg : Config) (c : PIMCore) : Outcome (Bool × PIMCore) :=
  if cfg.writeback then
    match c.writebackReq with
    | none => .error .nullReference
    | some [] => .ok (true, c)
    | some (req :: reqs) =>
      let (res, c) := c.addToMctrl cfg req
      let left := if res then reqs else req :: reqs
      .ok (!(cfg.writebackQueueSize < left.length), { c with writebackReq := some left })
  else
    .ok (true, c)

/-- The last part of a cycle: the current instruction is issued, or passed over. -/
def serve (cfg : Config) (c : PIMCore) : Outcome PIMCore := do
  let req ← c.theReq
  if req.ifMem then c.handleCurrentReq cfg 1 else c.nextRequest

/-- The cycle behind the write-back queue. The retry does not take from the memory restriction. -/
def retryAndServe (cfg : Config) (c : PIMCore) : Outcome PIMCore := do
  if c.mshrRetry || c.mctrlRetry then
    if c.insW.full then
      return c
    let (processed, c) ← c.handleLast cfg
    if !processed then
      return c
    (← c.nextRequest).serve cfg
  else
    c.serve cfg

/-- A cycle up to the write-back queue. The answer is whether the cycle goes on. -/
def arrive (cfg : Config) (c : PIMCore) : Outcome (Bool × PIMCore) := do
  let c := { c with cycle := c.cycle + 1 }
  if cfg.ipc < 0 then
    .error .argument
  let (goesOn, c) ← c.start
  if !goesOn then
    return (false, c)
  let c := if cfg.traceType = .pc then { c with pc := c.pc + 1 } else c
  if cfg.simType = .cycle && cfg.simCycle < c.cycle then
    return (false, c)
  let c ← if cfg.pimUseL1Cache then c.handleCacheReq else pure c
  (c.updateInsW cfg).writeBack cfg

/-- One cycle. The arithmetic unit is left out: it takes no part in memory accesses. -/
def step (cfg : Config) (c : PIMCore) : Outcome PIMCore := do
  let (goesOn, c) ← c.arrive cfg
  if goesOn then c.retryAndServe cfg else return c

/-- A request completes, behind the locks of the callbacks. -/
def completed (cfg : Config) (c : PIMCore) (blockAddr : UInt64) : Outcome PIMCore := do
  let p ← c.toPIMProc.fill cfg blockAddr
  return { c with toPIMProc := p }

end PIMCore

end PIMSim
