import PIMSim.Procs.Cache
import PIMSim.Procs.InstructionWindow
import PIMSim.Procs.Mctrl
import PIMSim.Procs.PageConverter

/-!
# A host processor

One core with its first-level cache, miss registers, write-back queue and instruction window, and
the objects it shares with the other cores.

## Main definitions

* `Proc`, `World`, `Core`: a processor, what the processors share, and both with the record of what
  happened
* `Act`: what the debug output of the source reports
* `Core.handleCurrentReq`, `Core.handleLast`: the issue path and its retry
* `Core.handleReadCallback`, `Core.handleWriteCallback`, `Core.handleCacheReq`: the fills
* `Core.flush`: the flush of a block
* `Core.step`: one cycle
-/

namespace PIMSim

open CSharp

/-- The fields of a processor. The input stream stands for the instruction partitioner, and
`fetched` counts the instruction objects fetched. -/
structure Proc where
  pid : Int
  pc : UInt64 := 0
  insP : List Input := []
  fetched : ℕ := 0
  l1Cache : Cache
  mshr : List ProcRequest := []
  writebackReq : List ProcRequest := []
  insW : InstructionWindow
  mctrlRetry : Bool := false
  mshrRetry : Bool := false
  cacheReqQueue : List ProcRequest := []
  currReq : Option ProcRequest := none
  currIns : Option Instruction := none
  cycle : UInt64 := 0

/-- What the processors share: the shared cache, the page table, the memory controller, the flush
queue of `Coherence`, and the global clock. -/
structure World where
  sharedCache : SharedCache
  tlb : PageConverter
  mctrl : Controller
  flushQueue : List UInt64 := []
  tick : UInt64 := 0

/-- What a processor does, as the debug output reports it.

* `loaded`: an instruction object is queued in the window
* `sent`, `refused`: the controller accepts or refuses a current request
* `unsent`: a retried request misses again, and the retry goes on without the controller
* `mshrRefused`: the miss registers refuse a request
* `windowHit`, `l1Hit`, `sharedHit`: an instruction needs no memory request
* `movedOn`: the next instruction replaces the current one
* `wroteBack`: the controller accepts the head of the write-back queue
* `evicted`: the shared cache gives up a dirty block
* `dropped`: the first-level cache gives up a dirty block, and the caller ignores it
* `flushed`, `flushRefused`: a flush queues its write, or the controller refuses it -/
inductive Act
  | loaded (ref : ℕ)
  | sent (req : ProcRequest)
  | refused (req : ProcRequest)
  | unsent (req : ProcRequest)
  | mshrRefused (req : ProcRequest)
  | windowHit (ins : Instruction)
  | l1Hit (ins : Instruction)
  | sharedHit (ins : Instruction)
  | movedOn (ins : Instruction)
  | wroteBack (req : ProcRequest)
  | evicted (block : UInt64)
  | dropped (block : UInt64)
  | flushed (block : UInt64)
  | flushRefused (block : UInt64)
deriving DecidableEq

/-- A processor, what it shares, and the record of what it did. -/
structure Core where
  proc : Proc
  world : World
  acts : List Act := []

namespace Core

/-- The record grows. -/
def note (c : Core) (a : Act) : Core := { c with acts := c.acts ++ [a] }

def withL1 (c : Core) (l1 : Cache) : Core := { c with proc := { c.proc with l1Cache := l1 } }

def withShared (c : Core) (shared : SharedCache) : Core :=
  { c with world := { c.world with sharedCache := shared } }

def withWriteback (c : Core) (reqs : List ProcRequest) : Core :=
  { c with proc := { c.proc with writebackReq := reqs } }

/-- `curr_ins`, which must not be null. -/
def theIns (c : Core) : Outcome Instruction :=
  match c.proc.currIns with
  | some ins => .ok ins
  | none => .error .nullReference

/-- `curr_req`, which must not be null. -/
def theReq (c : Core) : Outcome ProcRequest :=
  match c.proc.currReq with
  | some req => .ok req
  | none => .error .nullReference

/-- `tlb.scan_page(addr)` -/
def scanPage (c : Core) (addr : UInt64) : Outcome (UInt64 × Core) := do
  let (res, tlb) ← c.world.tlb.scanPage addr
  return (res, { c with world := { c.world with tlb := tlb } })

/-! ### Queues -/

def addToMctrl (cfg : Config) (c : Core) (req : ProcRequest) : Bool × Core :=
  let (res, mctrl) := c.world.mctrl.addToMctrl cfg req
  (res, { c with world := { c.world with mctrl := mctrl } })

/-- A request is registered, or merged with a registered one of its addresses; a full file of
registers refuses it. -/
def addToMshr (cfg : Config) (c : Core) (req : ProcRequest) : Bool × Core :=
  if c.proc.mshr.any fun x => x.actualAddr = req.actualAddr && x.blockAddr = req.blockAddr then
    (true, c)
  else if cfg.mshrSize < c.proc.mshr.length then
    (false, c.note (.mshrRefused req))
  else
    (true, { c with proc := { c.proc with mshr := c.proc.mshr ++ [req] } })

/-- `MSHR.RemoveAll(x => x.block_addr == block_addr)` and `ins_w.set_ready(block_addr, cycle)` -/
def settle (c : Core) (blockAddr : UInt64) : Core :=
  { c with proc := { c.proc with
      insW := c.proc.insW.setReady blockAddr
      mshr := c.proc.mshr.filter (·.blockAddr ≠ blockAddr) } }

/-- The current instruction is queued in the window with the given ready bit. -/
def loadIns (c : Core) (ready : Bool) : Outcome Core := do
  let ins ← c.theIns
  let ins := { ins with isMem := true, ready := ready }
  return ({ c with proc := { c.proc with
    currIns := some { ins with servedCycle := c.proc.cycle }
    insW := c.proc.insW.addIns ins c.proc.cycle } }).note (.loaded ins.ref)

/-- The head of the write-back queue is sent to the controller. -/
def handleWritebackQueue (cfg : Config) (c : Core) : Bool × Core :=
  match c.proc.writebackReq with
  | [] => (false, c)
  | req :: _ =>
    let (res, c) := c.addToMctrl cfg req
    (res, if res then c.note (.wroteBack req) else c)

/-- The request waits for the cache's latency, and the current instruction enters the window. -/
def addToCache (cfg : Config) (c : Core) (req : ProcRequest) (ifShared : Bool) : Outcome Core := do
  let latency := if ifShared then cfg.shareCacheHitLatency else cfg.l1cacheHitLatency
  let req := { req with tsDeparture := c.proc.cycle + latency }
  let c := { c with proc := { c.proc with cacheReqQueue := c.proc.cacheReqQueue ++ [req] } }
  c.loadIns false

/-! ### Fills -/

/-- `L1Cache.search_block(block_addr, reqt)` -/
def searchL1 (c : Core) (blockAddr : UInt64) (reqt : RequestType) : Outcome (Bool × Core) := do
  let (hit, l1) ← Cache.searchBlock c.proc.l1Cache blockAddr reqt
  return (hit, c.withL1 l1)

/-- `shared_cache.search_block(block_addr, reqt)` -/
def searchShared (c : Core) (blockAddr : UInt64) (reqt : RequestType) : Outcome (Bool × Core) := do
  let (hit, shared) ← SharedCache.searchBlock c.world.sharedCache blockAddr reqt
  return (hit, c.withShared shared)

/-- The block is added to the first-level cache unless it is there. The dirty block that `add`
answers is not used. -/
def fillL1 (c : Core) (blockAddr : UInt64) (reqt : RequestType) : Outcome Core := do
  let (hit, c) ← c.searchL1 blockAddr .read
  if !hit then
    let (addr, l1) ← Cache.add c.proc.l1Cache blockAddr reqt c.proc.pid
    let c := c.withL1 l1
    return if addr = NULL then c else c.note (.dropped addr)
  else
    return c

/-- The requests waiting for the cache's latency, oldest first. A request that is not due stays at
the head, and the loop never ends. -/
def cacheReqLoop : List ProcRequest → Core → Outcome Core
  | [], c => .ok c
  | req :: queue, c => do
    if req.tsDeparture ≤ c.proc.cycle then
      let c ← c.fillL1 req.blockAddr req.type
      let c := { c with proc := { c.proc with cacheReqQueue := queue } }
      cacheReqLoop queue (c.settle req.blockAddr)
    else
      .error .nonTermination

def handleCacheReq (c : Core) : Outcome Core := cacheReqLoop c.proc.cacheReqQueue c

/-- The write-back request of an evicted block. Only the block address is set. -/
def writebackItem (pid : Int) (addr : UInt64) : ProcRequest :=
  { blockAddr := addr, type := .write, pid := pid }

/-- An evicted block is queued for write-back, unless a request of the block is. -/
def queueWriteback (cfg : Config) (c : Core) (addr : UInt64) : Outcome Core :=
  if !cfg.writeback then .error .nullReference
  else if c.proc.writebackReq.any (·.blockAddr = addr) then .ok c
  else .ok (c.withWriteback (c.proc.writebackReq ++ [writebackItem c.proc.pid addr]))

/-- The completion callbacks: the instructions waiting for the block are ready, and the caches that
miss it are filled. -/
def handleCallback (cfg : Config) (fill : RequestType) (c : Core) (callback : CallBackInfo) :
    Outcome Core := do
  let blockAddr := callback.blockAddr
  let c := c.settle blockAddr
  if cfg.useCache then
    if cfg.sharedCache then
      let (hit, c) ← c.searchShared blockAddr .read
      if !hit then
        let (addr, shared) ← SharedCache.add c.world.sharedCache blockAddr fill c.proc.pid
        let c := c.withShared shared
        -- the shared cache names a line it gives up only when the line is dirty, so that a clean
        -- one stays in the first-level cache below
        let c := if addr = NULL then c else c.note (.evicted addr)
        let c ← c.fillL1 blockAddr fill
        let (_, l1) ← CacheArray.remove c.proc.l1Cache addr
        let c := c.withL1 l1
        if addr ≠ NULL then c.queueWriteback cfg addr else return c
      else
        return c
    else
      c.fillL1 blockAddr fill
  else
    return c

/-- Read complete callback. -/
def handleReadCallback (cfg : Config) (c : Core) (callback : CallBackInfo) : Outcome Core :=
  c.handleCallback cfg .read callback

/-- Write complete callback. -/
def handleWriteCallback (cfg : Config) (c : Core) (callback : CallBackInfo) : Outcome Core :=
  c.handleCallback cfg .write callback

/-! ### Inputs -/

/-- The next instruction. A processor without input gets a `NOP`. -/
def getInsFromInsp (c : Core) : Outcome (Instruction × Core) :=
  let c' := { c with proc := { c.proc with
    insP := c.proc.insP.tail, fetched := c.proc.fetched + 1 } }
  match c.proc.insP.headD (.instruction {}) with
  | .instruction ins =>
    let ins := { ins with ref := c.proc.fetched }
    if ins.isMem then do
      let (block, c') ← c'.scanPage ins.address
      return ({ ins with blockAddr := block }, c')
    else
      .ok (ins, c')
  | .pcTrace t => do
    let c' := { c' with proc := { c'.proc with pc := t.pc - 1 } }
    let ins ← t.parsetoIns
    let (block, c') ← c'.scanPage ins.address
    return ({ ins with ref := c.proc.fetched, blockAddr := block }, c')
  | .other => .error (.exit 1)

/-- The next instruction and its request replace the current ones. -/
def handleNewRequest (c : Core) : Outcome Core := do
  let c := match c.proc.currIns with
    | some ins => c.note (.movedOn ins)
    | none => c
  let (ins, c) ← c.getInsFromInsp
  return { c with proc := { c.proc with currIns := some ins, currReq := some (parseIns ins) } }

/-! ### Issue and retry -/

/-- The retry's second look at the shared cache. The answer is whether it misses. -/
def handleLastReq (cfg : Config) (c : Core) (req : ProcRequest) : Outcome (Bool × Core) := do
  let (hit, c) ← if cfg.useCache && cfg.sharedCache then c.searchShared req.blockAddr req.type
    else pure (false, c)
  if hit then
    let curr ← c.theReq
    let c := c.note (.sharedHit (← c.theIns))
    return (false, ← c.addToCache cfg curr true)
  else
    return (true, ← c.loadIns false)

/-- The retry behind the miss registers. The answer is whether the processor goes on. -/
def retryMctrl (cfg : Config) (c : Core) (req : ProcRequest) : Outcome (Bool × Core) := do
  let (miss, c) ← c.handleLastReq cfg req
  let c := { c with proc := { c.proc with mctrlRetry := miss } }
  if miss then
    -- The source calls `add_to_mshr` here, under the comment "retry mctrl".
    let (ok, c) := (c.note (.unsent req)).addToMshr cfg req
    if !ok then
      return (false, c)
    return (true, { c with proc := { c.proc with mctrlRetry := false } })
  else
    return (true, c)

/-- The retry of the current request. The answer is whether the processor goes on. -/
def handleLast (cfg : Config) (c : Core) : Outcome (Bool × Core) := do
  let req ← c.theReq
  if !req.ifMem then
    return (false, c)
  if c.proc.mshrRetry then
    let (res, c) := c.addToMshr cfg req
    if !res then
      return (false, c)
    { c with proc := { c.proc with mshrRetry := false } }.retryMctrl cfg req
  else
    c.retryMctrl cfg req

/-- A request that misses: its instruction enters the window, and the controller gets it. -/
def issueMiss (cfg : Config) (c : Core) (req : ProcRequest) : Outcome (Bool × Core) := do
  let c ← c.loadIns false
  let (ok, c) := c.addToMctrl cfg req
  if !ok then
    return (false, { (c.note (.refused req)) with proc := { c.proc with mctrlRetry := true } })
  let c ← (c.note (.sent req)).handleNewRequest
  return (true, c)

/-- A request of a block that the window holds: its instruction enters the window with the block's
ready bit. -/
def issueMerged (c : Core) (req : ProcRequest) (ins : Instruction) : Outcome (Bool × Core) := do
  let ready := c.proc.insW.getReadyinfo req.blockAddr
  let insW ← (c.proc.insW.addIns ins c.proc.cycle).setLast ready
  let c := { c with proc := { c.proc with
    currIns := some { ins with servedCycle := c.proc.cycle, ready := ready }, insW := insW } }
  let c ← ((c.note (.windowHit ins)).note (.loaded ins.ref)).handleNewRequest
  return (true, c)

/-- A request that misses the first-level cache. -/
def issueShared (cfg : Config) (c : Core) (req : ProcRequest) (ins : Instruction) :
    Outcome (Bool × Core) := do
  let (mshr, c) := c.addToMshr cfg req
  if !mshr then
    return (false, { c with proc := { c.proc with mshrRetry := true } })
  let (sharedHit, c) ← if cfg.sharedCache then c.searchShared req.blockAddr req.type
    else pure (false, c)
  if sharedHit then
    let c ← (c.note (.sharedHit ins)).addToCache cfg req false
    return (true, ← c.handleNewRequest)
  else
    c.issueMiss cfg req

/-- The body of the issue loop. The answer is whether the loop goes on. -/
def issue (cfg : Config) (c : Core) : Outcome (Bool × Core) := do
  if c.proc.insW.full then
    return (false, c)
  let req ← c.theReq
  let ins ← c.theIns
  -- the type of the window entry is not asked: a write merges into a read
  if c.proc.insW.ifExist req.blockAddr then
    c.issueMerged req ins
  else if cfg.useCache then
    let (l1Hit, c) ← c.searchL1 req.blockAddr req.type
    if l1Hit then
      let c ← (c.note (.l1Hit ins)).loadIns true
      return (true, ← c.handleNewRequest)
    else
      c.issueShared cfg req ins
  else
    c.issueMiss cfg req

/-- The issue of the current request, and of the next ones while the memory restriction of the
cycle lasts. -/
def handleCurrentReq (cfg : Config) : ℕ → Core → Outcome Core
  | 0, c => .ok c
  | memRestrict + 1, c => do
    let (goesOn, c) ← c.issue cfg
    if goesOn then handleCurrentReq cfg memRestrict c else return c

/-- The oldest ready instructions leave the window. -/
def updateInsW (cfg : Config) (c : Core) : Core :=
  if c.proc.insW.empty then c
  else { c with proc := { c.proc with insW := c.proc.insW.evicted cfg.ipc } }

/-! ### Flush -/

/-- The request of a flushed block. -/
def flushItem (c : Core) (addr actualAddr : UInt64) : ProcRequest where
  blockAddr := addr
  actualAddr := actualAddr
  cycle := c.world.tick
  ifMem := true
  pid := c.proc.pid
  type := .flush
  ready := false

/-- `L1Cache.ifdirty(addr) || (Config.shared_cache ? shared_cache.ifdirty(addr) : false)` -/
def anyDirty (cfg : Config) (c : Core) (addr : UInt64) : Outcome (Bool × Core) := do
  let (dirty, l1) ← CacheArray.ifdirty c.proc.l1Cache addr
  let c := c.withL1 l1
  if dirty then
    return (true, c)
  else if cfg.sharedCache then
    let (dirty, shared) ← CacheArray.ifdirty c.world.sharedCache addr
    return (dirty, c.withShared shared)
  else
    return (false, c)

/-- A flush request goes to the write-back queue, or without one to the controller, whose answer is
not used. -/
def queueFlush (cfg : Config) (c : Core) (item : ProcRequest) : Core :=
  if cfg.writeback then
    (c.withWriteback (c.proc.writebackReq ++ [item])).note (.flushed item.blockAddr)
  else
    let (ok, c) := c.addToMctrl cfg item
    c.note (if ok then .flushed item.blockAddr else .flushRefused item.blockAddr)

/-- The flush of a block, behind the translation. -/
def flushBlock (cfg : Config) (c : Core) (addr : UInt64) : Outcome (Bool × Core) := do
  if !cfg.useCache then
    return (true, c)
  -- nothing of the source ever fills this queue
  if c.world.flushQueue.contains addr then
    return (false, c)
  let (dirty, c) ← c.anyDirty cfg addr
  if dirty then
    let (actualAddr, c) ← c.scanPage addr
    let c := c.queueFlush cfg (c.flushItem addr actualAddr)
    -- the line goes even when the controller has refused the item
    let (_, l1) ← CacheArray.remove c.proc.l1Cache addr
    let c := c.withL1 l1
    if cfg.sharedCache then
      let (_, shared) ← CacheArray.remove c.world.sharedCache addr
      return (false, c.withShared shared)
    else
      return (false, c)
  else
    return (true, c)

/-- The flush of a block. The answer is whether the processor has nothing to flush. The translation
of an actual address is not used. -/
def flush (cfg : Config) (c : Core) (addr : UInt64) (actual : Bool) : Outcome (Bool × Core) :=
  if actual then do
    let (_, c) ← c.scanPage addr
    c.flushBlock cfg addr
  else
    c.flushBlock cfg addr

/-! ### One cycle -/

/-- The first instruction, when there is none yet. -/
def start (c : Core) : Outcome Core :=
  if c.proc.currIns.isNone || c.proc.currReq.isNone then do
    let (ins, c) ← c.getInsFromInsp
    return { c with proc := { c.proc with
      currIns := some ins
      currReq := some ((c.proc.currReq.getD {}).parse ins) } }
  else
    .ok c

/-- One write-back request is sent, and leaves the queue when the controller accepts it. -/
def writeBackOne (cfg : Config) (c : Core) : Core :=
  let (res, c) := c.handleWritebackQueue cfg
  if res then c.withWriteback c.proc.writebackReq.tail else c

/-- Too many write-back requests are queued. -/
def writeBStall (cfg : Config) (c : Core) : Bool :=
  cfg.writebackQueueSize < c.proc.writebackReq.length

/-- The last part of a cycle: the current instruction is issued, or passed over. -/
def serve (cfg : Config) (memRestrict : ℕ) (c : Core) : Outcome Core := do
  let req ← c.theReq
  if req.ifMem then c.handleCurrentReq cfg memRestrict else c.handleNewRequest

/-- The cycle behind the write-back queue: a retry, and the issue of the current request. -/
def retryAndServe (cfg : Config) (c : Core) : Outcome Core := do
  if c.proc.mshrRetry || c.proc.mctrlRetry then
    if c.proc.insW.full then
      return c
    let (processed, c) ← c.handleLast cfg
    if !processed then
      return c
    (← c.handleNewRequest).serve cfg 0
  else
    c.serve cfg 1

/-- The cycle is counted. -/
def nextCycle (c : Core) : Core :=
  { c with proc := { c.proc with cycle := c.proc.cycle + 1 } }

/-- The program counter moves on in a PC trace. -/
def nextPc (cfg : Config) (c : Core) : Core :=
  if cfg.traceType = .pc then { c with proc := { c.proc with pc := c.proc.pc + 1 } } else c

/-- The caches' part of a cycle. -/
def updateCache (cfg : Config) (c : Core) : Outcome Core :=
  if cfg.useCache then c.handleCacheReq else .ok c

/-- A cycle up to the write-back queue. The answer is whether the cycle goes on. -/
def arrive (cfg : Config) (c : Core) : Outcome (Bool × Core) := do
  let c := c.nextCycle
  if cfg.ipc < 0 then
    .error .argument
  else
    let c ← c.start
    let c := c.nextPc cfg
    if cfg.simType = .cycle && cfg.simCycle < c.proc.cycle then
      return (false, c)
    let c ← c.updateCache cfg
    let c := c.updateInsW cfg
    if cfg.writeback && !c.proc.writebackReq.isEmpty then
      let c := c.writeBackOne cfg
      return (!c.writeBStall cfg, c)
    else
      return (true, c)

/-- One cycle of a core. The arithmetic unit is left out: it takes no part in memory accesses. -/
def step (cfg : Config) (c : Core) : Outcome Core := do
  let (goesOn, c) ← c.arrive cfg
  if goesOn then c.retryAndServe cfg else return c

end Core

end PIMSim
