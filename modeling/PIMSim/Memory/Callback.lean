import PIMSim.DDR.DDRMem

/-!
# The completion paths of the memory objects

A memory object that completes a request looks up the units that wait for it, and invokes a delegate
of each. Three copies of this are in the source: `HMCMem.Step` has one for the cycles in which it
sends a request and one for the others, and the transaction receiver of the DRAM model has the third.

The units are looked up as one list. Host processors are in a list of processors, and the units of
the memory side are in a list of computational units, also where each of them is a processor. A
memory-side processor hides the delegates of its base class behind its own, and leaves those of the
base class null.

## Main definitions

* `ComputationalUnit`, `Simulator`: the units of a simulation, as the constructors make them
* `getsource`: the units that wait for a request
* `Notice`: what a completion does
* `HMCMem.busyReceive`, `HMCMem.idleReceive`, `DDR.TransactionReceiver.complete`: the three paths
* `Issued`: the requests that the processors and the units send

## Main results

* `idleReceive_eq`, `complete_eq_idleReceive`: two of the paths notify the waiting units
* `busyReceive_eq`, `busyReceive_ofPIMProc`: so does the third, but for memory-side processors
* `completions_agree_iff`: the requests on which they agree
-/

namespace PIMSim

open CSharp

/-! ### The units -/

/-- A unit of the memory side, by its class and its number. -/
inductive ComputationalUnit
  | pimProc (id : ℕ)
  | adder (id : ℕ)
  | adderConventional (id : ℕ)
deriving DecidableEq

/-- The host processors by their numbers, and the units of the memory side. -/
structure Simulator where
  unitType : PIMUnitType
  proc : List ℕ
  unit : List ComputationalUnit

/-- The units of a pipeline, from the `i`-th name on. The first template ends the constructor, and
no unit is added for a customized one. -/
def pipelineUnits : ℕ → List String → Outcome (List ComputationalUnit)
  | _, [] => return []
  | i, name :: names =>
    if name = "Customied" then pipelineUnits (i + 1) names
    else if name = "Adder" then return [.adder i]
    else if name = "Adder_Conventional" then return [.adderConventional i]
    else .error (.exit 2 "No PIM Unit templates.")

/-- The constructor of the memory side. -/
def pimUnits (n : ℕ) (names : List String) : PIMUnitType → Outcome (List ComputationalUnit)
  | .processors => return (List.range n).map .pimProc
  | .pipeline => pipelineUnits 0 names

/-- The constructor of the simulator. -/
def Simulator.create (unitType : PIMUnitType) (hosts n : ℕ) (names : List String) :
    Outcome Simulator := do
  let unit ← pimUnits n names unitType
  return { unitType, proc := List.range hosts, unit }

/-- The delegates of a unit. -/
inductive Delegate
  | readCallback
  | writeCallback
deriving DecidableEq

/-- The unit whose delegate is invoked. -/
inductive Requester
  | proc (id : ℕ)
  | unit (u : ComputationalUnit)
deriving DecidableEq

/-- What a completion does: it invokes a delegate, or takes a block off the flush queue. -/
inductive Notice
  | invoked (delegate : Delegate) (requester : Requester)
  | unqueued (blockAddr : UInt64)
deriving DecidableEq

/-- The delegate of the base class, which a memory-side processor does not set. -/
def ComputationalUnit.invoke (d : Delegate) : ComputationalUnit → Outcome Notice
  | .pimProc _ => .error .nullReference
  | u => return .invoked d (.unit u)

/-- The delegate of a memory-side processor: `(u as PIMProc)` is null for other units. -/
def ComputationalUnit.invokePIMProc (d : Delegate) : ComputationalUnit → Outcome Notice
  | .pimProc id => return .invoked d (.unit (.pimProc id))
  | _ => .error .nullReference

def invokeProc (d : Delegate) (id : ℕ) : Outcome Notice := return .invoked d (.proc id)

/-! ### The waiting units -/

/-- What `getsource` answers, by the class of the list. -/
inductive Source
  | procs (l : List ℕ)
  | units (l : List ComputationalUnit)

namespace Source

/-- `as List<Proc>` -/
def asProcs : Source → Option (List ℕ)
  | procs l => some l
  | units _ => none

/-- `as List<ComputationalUnit>` -/
def asUnits : Source → Option (List ComputationalUnit)
  | procs _ => none
  | units l => some l

/-- `as List<PIMProc>`. A list of computational units is no list of processors. -/
def asPIMProcs : Source → Option (List ComputationalUnit)
  | _ => none

end Source

/-- The units that wait for a request. -/
def CallBackInfo.getsource (s : Simulator) (callback : CallBackInfo) : Outcome Source :=
  if callback.pim then do
    let res ← callback.pid.mapM (listAt s.unit)
    return .units res
  else do
    let res ← callback.pid.mapM (listAt s.proc)
    return .procs res

/-- `foreach`, which a null list stops. -/
def notifyEach {α : Type} (l : Option (List α)) (invoke : α → Outcome Notice) :
    Outcome (List Notice) :=
  match l with
  | none => .error .nullReference
  | some l => l.mapM invoke

/-- The decision tree of the copies, for a completed read. The copies differ in how they come from the
waiting units to memory-side processors. -/
def notifyRead (pimProcs : Source → Outcome (List Notice)) (s : Simulator)
    (callback : CallBackInfo) : Outcome (List Notice) := do
  if callback.load then
    let source ← callback.getsource s
    notifyEach source.asUnits (·.invoke .readCallback)
  else if !callback.pim then
    let source ← callback.getsource s
    notifyEach source.asProcs (invokeProc .readCallback)
  else if s.unitType = .processors then
    let source ← callback.getsource s
    pimProcs source
  else
    let source ← callback.getsource s
    notifyEach source.asUnits (·.invoke .readCallback)

/-- The decision tree of the copies, for a completed write. -/
def notifyWrite (pimProcs : Source → Outcome (List Notice)) (s : Simulator)
    (callback : CallBackInfo) : Outcome (List Notice) := do
  if callback.store then
    let source ← callback.getsource s
    notifyEach source.asUnits (·.invoke .writeCallback)
  else if callback.flush then
    -- a completed flush tells nobody
    return [.unqueued callback.blockAddr]
  else if !callback.pim then
    let source ← callback.getsource s
    notifyEach source.asProcs (invokeProc .writeCallback)
  else if s.unitType = .processors then
    let source ← callback.getsource s
    pimProcs source
  else
    let source ← callback.getsource s
    notifyEach source.asUnits (·.invoke .writeCallback)

/-! ### The copies -/

/-- `hmc_response` -/
inductive HmcResponse
  | rdRs
  | wrRs
  | mdRdRs
  | mdWrRs
  | rspError
  | rspNone
  | rspCmc
deriving DecidableEq

namespace HMCMem

/-- The response to the packet that `Step` sends for a request: `RD64` for a read and a load, and
`WR64` for a write, a flush and a store. -/
def responseTo : MemReqType → HmcResponse
  | .read => .rdRs
  | .write => .wrRs
  | .flush => .wrRs
  | .load => .rdRs
  | .store => .wrRs
  | .returnData => .rdRs
  | .null => .rdRs

/-- `Step` receives a response in a cycle in which it sent a request. The waiting units are cast to a
list of memory-side processors. -/
def busyReceive (s : Simulator) (type : HmcResponse) (callback : CallBackInfo) :
    Outcome (List Notice) :=
  match type with
  | .rdRs => notifyRead
      (fun source => notifyEach source.asPIMProcs (·.invokePIMProc .readCallback)) s callback
  | .wrRs => notifyWrite
      (fun source => notifyEach source.asPIMProcs (·.invokePIMProc .writeCallback)) s callback
  | _ => .error (.exit 0)

/-- `Step` receives a response in a cycle in which it had no request. Each of the waiting units is
cast to a memory-side processor. -/
def idleReceive (s : Simulator) (type : HmcResponse) (callback : CallBackInfo) :
    Outcome (List Notice) :=
  match type with
  | .rdRs => notifyRead
      (fun source => notifyEach source.asUnits (·.invokePIMProc .readCallback)) s callback
  | .wrRs => notifyWrite
      (fun source => notifyEach source.asUnits (·.invokePIMProc .writeCallback)) s callback
  | _ => .error (.exit 0)

end HMCMem

namespace DDR.TransactionReceiver

/-- `read_complete`, with the units it calls back. -/
def readCompleteAt (s : Simulator) (r : TransactionReceiver) (addr : UInt64)
    (callback : CallBackInfo) : Outcome (List Notice × TransactionReceiver) := do
  let r ← r.readComplete addr
  let notices ← notifyRead
    (fun source => notifyEach source.asUnits (·.invokePIMProc .readCallback)) s callback
  return (notices, r)

/-- `write_complete`, with the units it calls back. -/
def writeCompleteAt (s : Simulator) (r : TransactionReceiver) (addr : UInt64)
    (callback : CallBackInfo) : Outcome (List Notice × TransactionReceiver) := do
  let r ← r.writeComplete addr
  let notices ← notifyWrite
    (fun source => notifyEach source.asUnits (·.invokePIMProc .writeCallback)) s callback
  return (notices, r)

/-- The callback that a completed request of some kind comes to, and its entry. Data that is returned
has none. -/
def complete (s : Simulator) (r : TransactionReceiver) (type : TransactionType) (addr : UInt64)
    (callback : CallBackInfo) : Outcome (List Notice × TransactionReceiver) :=
  match type with
  | .dataRead => r.readCompleteAt s addr callback
  | .dataWrite => r.writeCompleteAt s addr callback
  | .returnData => return ([], r)

/-- The entry of a completed request of some kind. -/
def settle (r : TransactionReceiver) (type : TransactionType) (addr : UInt64) :
    Outcome TransactionReceiver :=
  match type with
  | .dataRead => r.readComplete addr
  | .dataWrite => r.writeComplete addr
  | .returnData => return r

end DDR.TransactionReceiver

/-! ### The requesters and their handlers -/

/-- The units that a request waits for. -/
def Simulator.requesters (s : Simulator) (req : MemRequest) : Outcome (List Requester) :=
  if req.pim then do
    let units ← req.pid.mapM (listAt s.unit)
    return units.map .unit
  else do
    let procs ← req.pid.mapM (listAt s.proc)
    return procs.map .proc

/-- A request that the host processors or the units send: the host reads, writes and flushes,
memory-side processors read and write, and the units of a pipeline load and store. -/
def Issued (s : Simulator) (req : MemRequest) : Prop :=
  match req.memtype with
  | .read => req.pim = true → s.unitType = .processors
  | .write => req.pim = true → s.unitType = .processors
  | .load => req.pim = true ∧ s.unitType = .pipeline
  | .store => req.pim = true ∧ s.unitType = .pipeline
  | .flush => True
  | .returnData => False
  | .null => False

/-- A memory-side processor reads or writes. -/
def OfPIMProc (req : MemRequest) : Prop :=
  req.pim = true ∧ (req.memtype = .read ∨ req.memtype = .write)

instance (req : MemRequest) : Decidable (OfPIMProc req) := by
  unfold OfPIMProc
  infer_instance

/-- What the completion of a request should do: each requester's delegate is invoked once, or the
flushed block leaves the flush queue. -/
def notices (req : MemRequest) (requesters : List Requester) : List Notice :=
  match req.memtype with
  | .read => requesters.map (.invoked .readCallback)
  | .load => requesters.map (.invoked .readCallback)
  | .write => requesters.map (.invoked .writeCallback)
  | .store => requesters.map (.invoked .writeCallback)
  | .flush => [.unqueued req.blockAddr]
  | .returnData => []
  | .null => []

/-- The three paths agree on a request: each of them notifies its requesters. -/
def CompletionsAgree (s : Simulator) (r r' : DDR.TransactionReceiver) (addr : UInt64)
    (req : MemRequest) (requesters : List Requester) : Prop :=
  HMCMem.busyReceive s (HMCMem.responseTo req.memtype) (System.callBackInfo req) =
      .ok (notices req requesters) ∧
    HMCMem.idleReceive s (HMCMem.responseTo req.memtype) (System.callBackInfo req) =
      .ok (notices req requesters) ∧
    r.complete s (DDR.MemReqType.transType req.memtype) addr (System.callBackInfo req) =
      .ok (notices req requesters, r')

/-! ### The units of a simulation -/

/-- The units of the memory side are of the kind that the settings ask for. -/
structure Simulator.Uniform (s : Simulator) : Prop where
  processors : s.unitType = .processors → ∀ u ∈ s.unit, ∃ id, u = .pimProc id
  pipeline : s.unitType = .pipeline → ∀ u ∈ s.unit, ∀ id, u ≠ .pimProc id

theorem pipelineUnits_ne {i : ℕ} {names : List String} {units : List ComputationalUnit}
    (h : pipelineUnits i names = .ok units) : ∀ u ∈ units, ∀ id, u ≠ .pimProc id := by
  induction names generalizing i with
  | nil =>
    cases h
    intro u hu
    cases hu
  | cons name names ih =>
    unfold pipelineUnits at h
    split_ifs at h
    · exact ih h
    · cases h
      intro u hu id
      rw [List.mem_singleton.mp hu]
      exact ComputationalUnit.noConfusion
    · cases h
      intro u hu id
      rw [List.mem_singleton.mp hu]
      exact ComputationalUnit.noConfusion

theorem Simulator.uniform_create {unitType : PIMUnitType} {hosts n : ℕ} {names : List String}
    {s : Simulator} (h : Simulator.create unitType hosts n names = .ok s) : s.Uniform := by
  obtain ⟨unit, hunit, heq⟩ := Outcome.bind_eq_ok.mp h
  cases heq
  cases unitType with
  | processors =>
    cases hunit
    refine ⟨fun _ u hu => ?_, fun htype => PIMUnitType.noConfusion htype⟩
    obtain ⟨id, -, rfl⟩ := List.mem_map.mp hu
    exact ⟨id, rfl⟩
  | pipeline => exact ⟨fun htype => PIMUnitType.noConfusion htype, fun _ => pipelineUnits_ne hunit⟩

/-! ### The decision trees -/

/-- The units that wait for a request of the host. -/
theorem getsource_host {s : Simulator} {req : MemRequest} {requesters : List Requester}
    (hpim : req.pim = false) (h : s.requesters req = .ok requesters) :
    ∃ l, (System.callBackInfo req).getsource s = .ok (.procs l) ∧ requesters = l.map .proc := by
  unfold Simulator.requesters at h
  rw [hpim] at h
  obtain ⟨l, hl, heq⟩ := Outcome.bind_eq_ok.mp h
  cases heq
  refine ⟨l, ?_, rfl⟩
  show (if req.pim = true then _ else _) = _
  rw [hpim]
  show (req.pid.mapM (listAt s.proc) >>= _) = _
  rw [hl]
  rfl

/-- The units that wait for a request of the memory side. -/
theorem getsource_pim {s : Simulator} {req : MemRequest} {requesters : List Requester}
    (hpim : req.pim = true) (h : s.requesters req = .ok requesters) :
    ∃ l, (System.callBackInfo req).getsource s = .ok (.units l) ∧ requesters = l.map .unit ∧
      ∀ u ∈ l, u ∈ s.unit := by
  unfold Simulator.requesters at h
  rw [hpim] at h
  obtain ⟨l, hl, heq⟩ := Outcome.bind_eq_ok.mp h
  cases heq
  refine ⟨l, ?_, rfl, mem_of_mapM_listAt hl⟩
  show (if req.pim = true then _ else _) = _
  rw [hpim]
  show (req.pid.mapM (listAt s.unit) >>= _) = _
  rw [hl]
  rfl

theorem notifyEach_procs (d : Delegate) (l : List ℕ) :
    notifyEach (some l) (invokeProc d) = .ok ((l.map .proc).map (.invoked d)) := by
  rw [List.map_map]
  exact Outcome.mapM_eq_ok fun _ _ => rfl

/-- The units of a pipeline have the delegates of the base class. -/
theorem notifyEach_units {s : Simulator} (hs : s.Uniform) (htype : s.unitType = .pipeline)
    (d : Delegate) {l : List ComputationalUnit} (hl : ∀ u ∈ l, u ∈ s.unit) :
    notifyEach (some l) (·.invoke d) = .ok ((l.map .unit).map (.invoked d)) := by
  rw [List.map_map]
  apply Outcome.mapM_eq_ok
  intro u hu
  cases u with
  | pimProc id => exact absurd rfl (hs.pipeline htype _ (hl _ hu) id)
  | adder id => rfl
  | adderConventional id => rfl

/-- The memory-side processors have their own. -/
theorem notifyEach_pimProcs {s : Simulator} (hs : s.Uniform) (htype : s.unitType = .processors)
    (d : Delegate) {l : List ComputationalUnit} (hl : ∀ u ∈ l, u ∈ s.unit) :
    notifyEach (some l) (·.invokePIMProc d) = .ok ((l.map .unit).map (.invoked d)) := by
  rw [List.map_map]
  apply Outcome.mapM_eq_ok
  intro u hu
  obtain ⟨id, rfl⟩ := hs.processors htype u (hl u hu)
  rfl

/-- What a copy of the trees does with memory-side processors. -/
def NotifiesPIMProcs (s : Simulator) (d : Delegate) (pimProcs : Source → Outcome (List Notice)) :
    Prop :=
  ∀ l, (∀ u ∈ l, u ∈ s.unit) → pimProcs (.units l) = .ok ((l.map .unit).map (.invoked d))

/-- **A completed read** notifies its requesters, if the copy finds memory-side processors. -/
theorem notifyRead_eq {s : Simulator} (hs : s.Uniform) {pimProcs : Source → Outcome (List Notice)}
    {req : MemRequest} {requesters : List Requester}
    (htype : req.memtype = .read ∨ req.memtype = .load) (hissued : Issued s req)
    (hrequesters : s.requesters req = .ok requesters)
    (hprocs : OfPIMProc req → s.unitType = .processors → NotifiesPIMProcs s .readCallback pimProcs) :
    notifyRead pimProcs s (System.callBackInfo req) =
      .ok (requesters.map (.invoked .readCallback)) := by
  unfold notifyRead
  rcases htype with htype | htype
  · have hload : (System.callBackInfo req).load = false := by
      show decide (req.memtype = .load) = false
      rw [htype]
      rfl
    rw [hload]
    cases hpim : req.pim with
    | false =>
      obtain ⟨l, hsource, rfl⟩ := getsource_host hpim hrequesters
      have hside : (System.callBackInfo req).pim = false := hpim
      rw [hside, hsource]
      exact notifyEach_procs _ l
    | true =>
      obtain ⟨l, hsource, rfl, hl⟩ := getsource_pim hpim hrequesters
      have hside : (System.callBackInfo req).pim = true := hpim
      have hunits : s.unitType = .processors := by
        unfold Issued at hissued
        rw [htype] at hissued
        exact hissued hpim
      rw [hside, hsource, hunits]
      exact hprocs ⟨hpim, .inl htype⟩ hunits l hl
  · have hload : (System.callBackInfo req).load = true := by
      show decide (req.memtype = .load) = true
      rw [htype]
      rfl
    unfold Issued at hissued
    rw [htype] at hissued
    obtain ⟨hpim, hunits⟩ := hissued
    obtain ⟨l, hsource, rfl, hl⟩ := getsource_pim hpim hrequesters
    rw [hload, hsource]
    exact notifyEach_units hs hunits _ hl

/-- **A completed write** notifies its requesters, if the copy finds memory-side processors. -/
theorem notifyWrite_eq {s : Simulator} (hs : s.Uniform) {pimProcs : Source → Outcome (List Notice)}
    {req : MemRequest} {requesters : List Requester}
    (htype : req.memtype = .write ∨ req.memtype = .store) (hissued : Issued s req)
    (hrequesters : s.requesters req = .ok requesters)
    (hprocs : OfPIMProc req → s.unitType = .processors →
      NotifiesPIMProcs s .writeCallback pimProcs) :
    notifyWrite pimProcs s (System.callBackInfo req) =
      .ok (requesters.map (.invoked .writeCallback)) := by
  unfold notifyWrite
  -- A write comes from a processor of either side, a store from a unit.
  rcases htype with htype | htype
  · have hstore : (System.callBackInfo req).store = false := by
      show decide (req.memtype = .store) = false
      rw [htype]
      rfl
    have hflush : (System.callBackInfo req).flush = false := by
      show decide (req.memtype = .flush) = false
      rw [htype]
      rfl
    rw [hstore, hflush]
    cases hpim : req.pim with
    | false =>
      obtain ⟨l, hsource, rfl⟩ := getsource_host hpim hrequesters
      have hside : (System.callBackInfo req).pim = false := hpim
      rw [hside, hsource]
      exact notifyEach_procs _ l
    | true =>
      obtain ⟨l, hsource, rfl, hl⟩ := getsource_pim hpim hrequesters
      have hside : (System.callBackInfo req).pim = true := hpim
      have hunits : s.unitType = .processors := by
        unfold Issued at hissued
        rw [htype] at hissued
        exact hissued hpim
      rw [hside, hsource, hunits]
      exact hprocs ⟨hpim, .inr htype⟩ hunits l hl
  · have hstore : (System.callBackInfo req).store = true := by
      show decide (req.memtype = .store) = true
      rw [htype]
      rfl
    unfold Issued at hissued
    rw [htype] at hissued
    obtain ⟨hpim, hunits⟩ := hissued
    obtain ⟨l, hsource, rfl, hl⟩ := getsource_pim hpim hrequesters
    rw [hstore, hsource]
    exact notifyEach_units hs hunits _ hl

/-- A completed flush takes its block off the flush queue. -/
theorem notifyWrite_flush {s : Simulator} {pimProcs : Source → Outcome (List Notice)}
    {req : MemRequest} (htype : req.memtype = .flush) :
    notifyWrite pimProcs s (System.callBackInfo req) = .ok [.unqueued req.blockAddr] := by
  have hstore : (System.callBackInfo req).store = false := by
    show decide (req.memtype = .store) = false
    rw [htype]
    rfl
  have hflush : (System.callBackInfo req).flush = true := by
    show decide (req.memtype = .flush) = true
    rw [htype]
    rfl
  unfold notifyWrite
  rw [hstore, hflush]
  rfl

/-! ### The three paths -/

variable {s : Simulator} {req : MemRequest} {requesters : List Requester}

/-- Each unit is cast to a memory-side processor. -/
theorem notifiesPIMProcs_each (hs : s.Uniform) (hunits : s.unitType = .processors) (d : Delegate) :
    NotifiesPIMProcs s d fun source => notifyEach source.asUnits (·.invokePIMProc d) :=
  fun _ hl => notifyEach_pimProcs hs hunits d hl

/-- **The idle path** notifies the requesters. -/
theorem idleReceive_eq (hs : s.Uniform) (hissued : Issued s req)
    (hrequesters : s.requesters req = .ok requesters) :
    HMCMem.idleReceive s (HMCMem.responseTo req.memtype) (System.callBackInfo req) =
      .ok (notices req requesters) := by
  unfold notices
  cases htype : req.memtype with
  | read =>
    exact notifyRead_eq hs (.inl htype) hissued hrequesters
      (fun _ hunits => notifiesPIMProcs_each hs hunits _)
  | load =>
    exact notifyRead_eq hs (.inr htype) hissued hrequesters
      (fun _ hunits => notifiesPIMProcs_each hs hunits _)
  | write =>
    exact notifyWrite_eq hs (.inl htype) hissued hrequesters
      (fun _ hunits => notifiesPIMProcs_each hs hunits _)
  | store =>
    exact notifyWrite_eq hs (.inr htype) hissued hrequesters
      (fun _ hunits => notifiesPIMProcs_each hs hunits _)
  | flush => exact notifyWrite_flush htype
  | returnData =>
    unfold Issued at hissued
    rw [htype] at hissued
    exact hissued.elim
  | null =>
    unfold Issued at hissued
    rw [htype] at hissued
    exact hissued.elim

/-- The callback of the transaction receiver does what the idle path does, behind the entry of the
request. -/
theorem complete_eq_idleReceive {r r' : DDR.TransactionReceiver} {addr : UInt64}
    (hissued : Issued s req)
    (hsettle : r.settle (DDR.MemReqType.transType req.memtype) addr = .ok r') :
    r.complete s (DDR.MemReqType.transType req.memtype) addr (System.callBackInfo req) =
      (HMCMem.idleReceive s (HMCMem.responseTo req.memtype) (System.callBackInfo req)).map
        fun n => (n, r') := by
  have hread : r.readComplete addr = .ok r' →
      r.readCompleteAt s addr (System.callBackInfo req) =
        (HMCMem.idleReceive s .rdRs (System.callBackInfo req)).map fun n => (n, r') := by
    intro h
    unfold DDR.TransactionReceiver.readCompleteAt
    rw [h]
    rfl
  have hwrite : r.writeComplete addr = .ok r' →
      r.writeCompleteAt s addr (System.callBackInfo req) =
        (HMCMem.idleReceive s .wrRs (System.callBackInfo req)).map fun n => (n, r') := by
    intro h
    unfold DDR.TransactionReceiver.writeCompleteAt
    rw [h]
    rfl
  unfold Issued at hissued
  cases htype : req.memtype <;> rw [htype] at hissued hsettle
  · exact hread hsettle
  · exact hwrite hsettle
  · exact hissued.elim
  · exact hwrite hsettle
  · exact hread hsettle
  · exact hwrite hsettle
  · exact hissued.elim

/-- The cast of the busy path fails for the units of the memory side. -/
theorem busyReceive_ofPIMProc (hissued : Issued s req) (hproc : OfPIMProc req)
    (hrequesters : s.requesters req = .ok requesters) :
    HMCMem.busyReceive s (HMCMem.responseTo req.memtype) (System.callBackInfo req) =
      .error .nullReference := by
  obtain ⟨hpim, htype⟩ := hproc
  obtain ⟨l, hsource, rfl, -⟩ := getsource_pim hpim hrequesters
  have hside : (System.callBackInfo req).pim = true := hpim
  have hunits : s.unitType = .processors := by
    unfold Issued at hissued
    rcases htype with htype | htype <;> rw [htype] at hissued <;> exact hissued hpim
  rcases htype with htype | htype
  · have hload : (System.callBackInfo req).load = false := by
      show decide (req.memtype = .load) = false
      rw [htype]
      rfl
    rw [htype]
    show notifyRead _ _ _ = _
    unfold notifyRead
    rw [hload, hside, hsource, hunits]
    rfl
  · have hstore : (System.callBackInfo req).store = false := by
      show decide (req.memtype = .store) = false
      rw [htype]
      rfl
    have hflush : (System.callBackInfo req).flush = false := by
      show decide (req.memtype = .flush) = false
      rw [htype]
      rfl
    rw [htype]
    show notifyWrite _ _ _ = _
    unfold notifyWrite
    rw [hstore, hflush, hside, hsource, hunits]
    rfl

/-- **The busy path** notifies the requesters, unless they are memory-side processors. -/
theorem busyReceive_eq (hs : s.Uniform) (hissued : Issued s req) (hproc : ¬OfPIMProc req)
    (hrequesters : s.requesters req = .ok requesters) :
    HMCMem.busyReceive s (HMCMem.responseTo req.memtype) (System.callBackInfo req) =
      .ok (notices req requesters) := by
  unfold notices
  cases htype : req.memtype with
  | read =>
    exact notifyRead_eq hs (.inl htype) hissued hrequesters (fun h => absurd h hproc)
  | load =>
    exact notifyRead_eq hs (.inr htype) hissued hrequesters (fun h => absurd h hproc)
  | write =>
    exact notifyWrite_eq hs (.inl htype) hissued hrequesters (fun h => absurd h hproc)
  | store =>
    exact notifyWrite_eq hs (.inr htype) hissued hrequesters (fun h => absurd h hproc)
  | flush => exact notifyWrite_flush htype
  | returnData =>
    unfold Issued at hissued
    rw [htype] at hissued
    exact hissued.elim
  | null =>
    unfold Issued at hissued
    rw [htype] at hissued
    exact hissued.elim

/-- **The completion paths agree** on a request that is sent, and each of them notifies every
requester once, exactly when it is not a read or a write of a memory-side processor. -/
theorem completions_agree_iff {unitType : PIMUnitType} {hosts n : ℕ} {names : List String}
    {r r' : DDR.TransactionReceiver} {addr : UInt64}
    (hcreate : Simulator.create unitType hosts n names = .ok s) (hissued : Issued s req)
    (hrequesters : s.requesters req = .ok requesters)
    (hsettle : r.settle (DDR.MemReqType.transType req.memtype) addr = .ok r') :
    CompletionsAgree s r r' addr req requesters ↔ ¬OfPIMProc req := by
  have hs := Simulator.uniform_create hcreate
  constructor
  · intro hagree hproc
    cases hagree.1.symm.trans (busyReceive_ofPIMProc hissued hproc hrequesters)
  · intro hproc
    have hidle := idleReceive_eq hs hissued hrequesters
    refine ⟨busyReceive_eq hs hissued hproc hrequesters, hidle, ?_⟩
    rw [complete_eq_idleReceive hissued hsettle, hidle]
    rfl

/-- One host processor and one memory-side processor. -/
def onePIMProc : Simulator := ⟨.processors, [0], [.pimProc 0]⟩

/-- A read of block 64 by the processor 0 of one side. -/
def readOf (pim : Bool) : MemRequest :=
  { address := 64, blockAddr := 64, memtype := .read, pim, pid := [0] }

/-- A receiver that waits for block 64. -/
def oneRead : DDR.TransactionReceiver :=
  { pendingReadRequests := DDR.PendingRequests.add {} 64 1 }

theorem settle_oneRead : ∃ r', oneRead.settle .dataRead 64 = .ok r' := by
  have hok : (oneRead.settle .dataRead 64).toBool = true := by decide +kernel
  cases h : oneRead.settle .dataRead 64 with
  | error e =>
    rw [h] at hok
    cases hok
  | ok r' => exact ⟨r', rfl⟩

/-- The paths agree on a read of the host. -/
theorem completions_agree_iff_host : ∃ r',
    CompletionsAgree onePIMProc oneRead r' 64 (readOf false) [.proc 0] := by
  obtain ⟨r', hsettle⟩ := settle_oneRead
  have hcreate : Simulator.create .processors 1 1 [] = .ok onePIMProc := rfl
  have hissued : Issued onePIMProc (readOf false) := fun h => Bool.noConfusion h
  exact ⟨r', (completions_agree_iff hcreate hissued rfl hsettle).mpr (by decide)⟩

/-- They disagree on a read of the memory-side processor. -/
theorem not_completions_agree :
    ¬∀ (s : Simulator) (req : MemRequest) (requesters : List Requester)
      (r r' : DDR.TransactionReceiver) (addr : UInt64),
      Simulator.create .processors 1 1 [] = .ok s → Issued s req →
      s.requesters req = .ok requesters →
      r.settle (DDR.MemReqType.transType req.memtype) addr = .ok r' →
      CompletionsAgree s r r' addr req requesters := by
  intro hall
  obtain ⟨r', hsettle⟩ := settle_oneRead
  have hagree := hall onePIMProc (readOf true) [.unit (.pimProc 0)] oneRead r' 64 rfl
    (fun _ => rfl) rfl hsettle
  have hbusy : HMCMem.busyReceive onePIMProc (HMCMem.responseTo (readOf true).memtype)
      (System.callBackInfo (readOf true)) = .error .nullReference := rfl
  cases hagree.1.symm.trans hbusy

end PIMSim
