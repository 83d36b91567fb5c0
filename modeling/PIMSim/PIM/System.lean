import PIMSim.Library.Run
import PIMSim.PIM.PIMMctrl
import PIMSim.PIM.PIMProc

/-!
# The simulated system

The host with the coherence component, both controllers, the memory-side processors, and the
requests the memory objects hold. The parts take their steps in any order, which includes the order
of the simulator's main loop.

## Main definitions

* `Platform`, `System.init`: what a simulation is set up from, and its first state
* `System`, `Event`, `System.step`: the state, what can happen, and one transition
* `System.complete`: the completion of a memory request
* `System.inFlight`: the addresses of the memory side's requests on their way
-/

namespace PIMSim

open CSharp

variable {Obj : Type}

/-- What a simulation is set up from, besides the settings. -/
structure Platform (Obj : Type) where
  memory : List (Region Obj)
  streams : List (List Input)
  l1Assoc : ℕ := 4
  l1Sets : ℕ := 256
  sharedAssoc : ℕ := 16
  sharedSets : ℕ := 2048
  channel : Int32 := 1
  rank : Int32 := 1
  bank : Int32 := 1
  random : Bool := false
  units : List PIMProc := []

/-- The constructor of a host processor. -/
def Proc.create (cfg : Config) (pid : Int) (insP : List Input) (assoc maxSet : ℕ) : Proc where
  pid := pid
  insP := insP
  l1Cache := CacheArray.create assoc maxSet
  insW := { ins := [], size := cfg.insWSize }

/-- The host before its first cycle. -/
def Platform.host (cfg : Config) (P : Platform Obj) : Host where
  procs := P.streams.mapIdx fun i insP => Proc.create cfg i insP P.l1Assoc P.l1Sets
  world := {
    sharedCache := CacheArray.create P.sharedAssoc P.sharedSets
    tlb := PageConverter.create cfg.pageSize P.channel P.rank P.bank P.random
    mctrl := Controller.init P.memory.length }

/-- The state of a simulation. The requests in the memory objects are held in one list. -/
structure System where
  coherence : Coherence
  pimMctrl : Controller
  pimUnits : List PIMProc
  memory : List MemRequest := []

/-- What can happen: a cycle of a host processor or of a controller, a request of a memory-side
unit, a memory object that fetches a request of either controller, merges two requests or completes
one, a flush, and a tick of the clock. -/
inductive Event
  | procStep (i : ℕ)
  | mctrlStep
  | pimMctrlStep
  | pimAdd (req : ProcRequest)
  | take (pid : ℕ)
  | takePim (pid : ℕ)
  | merge (i j : ℕ)
  | complete (k : ℕ)
  | flush (addr : UInt64) (actual : Bool)
  | tick
deriving DecidableEq

namespace System

/-- The simulation before its first cycle. -/
def init (cfg : Config) (P : Platform Obj) : Outcome System := do
  let coherence ← Coherence.init cfg P.memory (P.host cfg)
  return {
    coherence := coherence
    pimMctrl := Controller.init P.memory.length
    pimUnits := P.units }

/-- What the memory object tells when the request completes. -/
def callBackInfo (req : MemRequest) : CallBackInfo where
  address := req.address
  blockAddr := req.blockAddr
  pim := req.pim
  pid := req.pid
  flush := req.memtype = .flush
  load := req.memtype = .load
  store := req.memtype = .store
  stageId := if req.memtype = .load ∨ req.memtype = .store then req.stageId else []

def withHost (s : System) (host : Host) : System :=
  { s with coherence := { s.coherence with host := host } }

/-- The callbacks of the host processors, one after the other. -/
def hostCallbacks (callback : Core → Outcome Core) : List Int → Host → Outcome Host
  | [], host => .ok host
  | pid :: pids, host => do
    let host ← host.run pid callback
    hostCallbacks callback pids host

/-- The callbacks of the memory-side processors, one after the other. -/
def pimCallbacks (callback : Coherence → PIMProc → Outcome (Coherence × PIMProc)) :
    List Int → Coherence × List PIMProc → Outcome (Coherence × List PIMProc)
  | [], s => .ok s
  | pid :: pids, (coherence, units) => do
    let unit ← listAt units pid
    let (coherence, unit) ← callback coherence unit
    pimCallbacks callback pids (coherence, units.set pid.toNat unit)

/-- The sources of a request are looked up, and called back. -/
def callBack (s : System) (req : MemRequest) (onHost : Core → Outcome Core)
    (onPim : Coherence → PIMProc → Outcome (Coherence × PIMProc)) : Outcome System :=
  if req.pim then do
    let _ ← req.pid.mapM fun pid => listAt s.pimUnits pid
    let (coherence, units) ← pimCallbacks onPim req.pid (s.coherence, s.pimUnits)
    return { s with coherence := coherence, pimUnits := units }
  else do
    let _ ← req.pid.mapM fun pid => listAt s.coherence.host.procs pid
    let host ← hostCallbacks onHost req.pid s.coherence.host
    return s.withHost host

/-- The record that a write of the host reached its memory object. -/
def written (s : System) (req : MemRequest) : System :=
  if req.pim then s
  else s.withHost { s.coherence.host with
    history := s.coherence.host.history ++ [.written req.blockAddr] }

/-- The block leaves the flush queue. -/
def unqueueFlush (s : System) (blockAddr : UInt64) : System :=
  s.withHost { s.coherence.host with
    world := { s.coherence.host.world with
      flushQueue := s.coherence.host.world.flushQueue.erase blockAddr } }

/-- A memory object completes a request, which has left its list. Loads and stores are for the
pipeline's units: the processors do not have their callbacks. -/
def finish (cfg : Config) (info : List (Region Obj)) (s : System) (req : MemRequest) :
    Outcome System :=
  let callback := callBackInfo req
  match req.memtype with
  | .read => s.callBack req (·.handleReadCallback cfg callback)
      fun coherence p => p.handleReadCallback cfg info coherence callback
  | .write => (s.written req).callBack req (·.handleWriteCallback cfg callback)
      fun coherence p => p.handleWriteCallback cfg info coherence callback
  | .flush => .ok ((s.written req).unqueueFlush req.blockAddr)
  | .load => .error .nullReference
  | .store => .error .nullReference
  | .returnData => .ok s
  | .null => .ok s

/-- A memory object completes its `k`-th request. -/
def complete (cfg : Config) (info : List (Region Obj)) (s : System) (k : ℕ) : Outcome System :=
  match s.memory[k]? with
  | none => .ok s
  | some req => finish cfg info { s with memory := s.memory.eraseIdx k } req

/-- The `j`-th request joins the `i`-th one, when both are of one address and of one side. -/
def merge (s : System) (i j : ℕ) : System :=
  match s.memory[i]?, s.memory[j]? with
  | some req, some other =>
    if i ≠ j ∧ req.address = other.address ∧ req.pim = other.pim then
      { s with memory := (s.memory.set i { req with pid := req.pid ++ other.pid }).eraseIdx j }
    else s
  | _, _ => s

/-- A memory object gets a request that a controller gave out. -/
def fetch (s : System) (req : Option MemRequest) : System :=
  { s with memory := s.memory ++ req.toList }

/-- The host's controller. -/
def mctrl (s : System) : Controller := s.coherence.host.world.mctrl

def withMctrl (s : System) (mctrl : Controller) : System :=
  s.withHost { s.coherence.host with world := { s.coherence.host.world with mctrl := mctrl } }

/-- One transition. -/
def step (cfg : Config) (info : List (Region Obj)) (s : System) : Event → Outcome System
  | .procStep i => do
    let host ← s.coherence.host.run i (·.step cfg)
    return s.withHost host
  | .mctrlStep => do
    let mctrl ← Mctrl.step cfg info s.coherence.spinLock s.mctrl
    return s.withMctrl mctrl
  | .pimMctrlStep => do
    let (coherence, pimMctrl) ← PIMMctrl.step cfg info s.coherence s.pimMctrl
    return { s with coherence := coherence, pimMctrl := pimMctrl }
  | .pimAdd req => .ok { s with pimMctrl := (s.pimMctrl.addToMctrl cfg req).2 }
  | .take pid => do
    let (req, mctrl) ← s.mctrl.getReq false pid
    return (s.withMctrl mctrl).fetch req
  | .takePim pid => do
    let (req, pimMctrl) ← s.pimMctrl.getReq true pid
    return { s with pimMctrl := pimMctrl }.fetch req
  | .merge i j => .ok (s.merge i j)
  | .complete k => s.complete cfg info k
  | .flush addr actual => do
    let (_, host) ← Coherence.flush cfg s.coherence.host addr actual
    return s.withHost host
  | .tick => .ok (s.withHost { s.coherence.host with
      world := { s.coherence.host.world with tick := s.coherence.host.world.tick + 1 } })

/-- The addresses of the memory side's requests between their controller and their completion. -/
def inFlight (s : System) : List UInt64 :=
  (s.pimMctrl.sendQueue.flatten ++ s.memory.filter (·.pim)).map (·.address)

end System

/-- One memory object, one memory-side processor, and caches of one set. -/
def smallPlatform (streams : List (List Input)) : Platform Unit where
  memory := oneObject
  streams := streams
  l1Sets := 1
  sharedSets := 1
  units := [PIMProc.fresh]

/-- The first state of `smallPlatform`. -/
def smallSystem (cfg : Config) (streams : List (List Input)) : System where
  coherence := {
    host := (smallPlatform streams).host cfg
    spinLock := some SpinLock.freeLock
    consistency := cfg.consistencyModel }
  pimMctrl := Controller.init 1
  pimUnits := [PIMProc.fresh]

/-- The first state over one memory object. -/
theorem init_oneObject {cfg : Config} {P : Platform Unit} (hmem : P.memory = oneObject)
    (hmodel : cfg.consistencyModel = .spinLock) (hpage : cfg.pageSize = 4096) :
    System.init cfg P = .ok {
      coherence := {
        host := P.host cfg
        spinLock := some SpinLock.freeLock
        consistency := cfg.consistencyModel }
      pimMctrl := Controller.init 1
      pimUnits := P.units } := by
  have hlock : SpinLock.create P.memory cfg.pageSize = .ok SpinLock.freeLock := by
    rw [hpage, hmem]
    exact SpinLock.create_oneObject
  have hlength : P.memory.length = 1 := by
    rw [hmem]
    rfl
  simp only [System.init, Coherence.init, if_pos hmodel, hlock, hlength, Outcome.ok_bind]
  rfl

theorem init_smallPlatform {cfg : Config} (hmodel : cfg.consistencyModel = .spinLock)
    (hpage : cfg.pageSize = 4096) (streams : List (List Input)) :
    System.init cfg (smallPlatform streams) = .ok (smallSystem cfg streams) :=
  init_oneObject rfl hmodel hpage

end PIMSim
