import PIMSim.Gem5.PIMCommand

/-!
# The pending commands of the memory

The memory keeps the addresses that kernels have registered. A processor that accesses a granule of one
of them suspends the thread, and the packet that completes a command removes its addresses, flushes
them from the caches and activates a thread.

## Main definitions

* `Host`: a host processor, with its threads
* `MemorySystem`: the memory, the host processors and the caches
* `stalledAddr`: whether an access is to a granule of a pending address
* `DataAccess`, `Host.finishTranslation`: an access after its translation
* `MemorySystem.functionalAccess`: the packets of the kernels
* `MemorySystem.step`: one event of the memory and its processors
* `Covered`: the granule of an address has a pending address

## Main results

* `stalledAddr_eq_ok`: an access is stalled when its address is covered
* `MemorySystem.step_cases`: what an event does
-/

namespace PIMSim.Gem5

open Cpp Transition

variable {δ : Type}

/-! ### Host processors -/

/-- The statuses that the functions of the contexts read. -/
inductive CPUStatus
  | idle
  | running
deriving DecidableEq, Repr

/-- A host processor: the context identifiers of its threads, the current thread and the active ones. -/
structure Host where
  status : CPUStatus
  contextId : List ℕ
  curThread : ℕ
  activeThreads : List ℕ
deriving DecidableEq, Repr

namespace Host

variable (cpu_type : CPUModel) (h : Host)

/-- The number of threads. -/
def numThreads : ℕ := h.contextId.length

def activateContext (thread_num : ℕ) : Outcome Host := do
  let active := if thread_num ∈ h.activeThreads then h.activeThreads
    else h.activeThreads ++ [thread_num]
  match cpu_type with
  | .timingSimpleCPU =>
    let _ ← assert (thread_num < h.numThreads)
    return { h with status := .running, activeThreads := active }
  | .fullO3CPU => return { h with status := .running, activeThreads := active }

def suspendContext (thread_num : ℕ) : Outcome Host :=
  match cpu_type with
  | .timingSimpleCPU => do
    let _ ← assert (thread_num < h.numThreads)
    let h := { h with activeThreads := h.activeThreads.filter (· ≠ thread_num) }
    if h.status = .idle then return h
    else return { h with status := if h.activeThreads = [] then .idle else h.status }
  | .fullO3CPU =>
    let h := { h with activeThreads := h.activeThreads.erase thread_num }
    return { h with status := if h.activeThreads = [] then .idle else h.status }

/-- The next active thread becomes the current one. -/
def swapActiveThread : Host :=
  match h.activeThreads with
  | [] => h
  | t :: rest =>
    if 1 < h.numThreads then { h with curThread := t, activeThreads := rest ++ [t] } else h

end Host

/-! ### Accesses of the hosts -/

/-- The address of a packet, set when the translation of its request did not fault. -/
def getAddr (paddr : Option ℕ) : Outcome ℕ :=
  match paddr with
  | some addr => .ok addr
  | none => .error .assertion

/-- The division of two unsigned numbers. -/
def divide (a b : ℕ) : Outcome ℕ := if b = 0 then .error .divideByZero else .ok (a / b)

/-- The inner loop of `stalledAddr`, over the addresses of one entry. -/
def stalledEntry (granularity : ℕ) (paddr : Option ℕ) : List ℕ → Outcome Bool
  | [] => return false
  | a :: addr => do
    let pkt_addr ← getAddr paddr
    let granule ← divide a granularity
    let pkt_granule ← divide pkt_addr granularity
    if granule = pkt_granule then return true else stalledEntry granularity paddr addr

/-- The packet's address is in a granule of a pending address. -/
def stalledAddr (granularity : ℕ) (paddr : Option ℕ) : List PIMSenderState → Outcome Bool
  | [] => return false
  | i :: queue => do
    let stalled ← stalledEntry granularity paddr i.addr
    if stalled then return true else stalledAddr granularity paddr queue

/-- An access after its translation: of one request, or of the two requests of an access over two
blocks. A request has a size, and a physical address unless its translation faulted. -/
inductive DataAccess
  | single (size : ℕ) (paddr : Option ℕ)
  | split (sizeLow sizeHigh : ℕ) (low high : Option ℕ)
deriving DecidableEq, Repr

namespace DataAccess

/-- The physical address of the main request. -/
def mainPaddr : DataAccess → Option ℕ
  | .single _ paddr => paddr
  | .split _ _ low _ => low

/-- One of the translations faulted. -/
def getFault : DataAccess → Bool
  | .single _ paddr => paddr.isNone
  | .split _ _ low high => low.isNone || high.isNone

end DataAccess

/-- What becomes of an access. -/
inductive AccessResult
  | suspended (thread : ℕ)
  | faulted
  | sent
deriving DecidableEq, Repr

/-- The thread that a processor suspends: the one with the number of the current thread's context
identifier, or the given one. -/
def Host.stoppedThread (cpu_type : CPUModel) (h : Host) (id : ℕ) : Outcome ℕ :=
  match cpu_type with
  | .timingSimpleCPU => vectorAt "threadInfo" h.contextId h.curThread
  | .fullO3CPU => return id

/-- A processor that accesses a granule of a pending address suspends a thread. -/
def Host.stopCurrent (cpu_type : CPUModel) (h : Host) (granularity : ℕ)
    (queue : List PIMSenderState) (paddr : Option ℕ) (id : ℕ) : Outcome (Option ℕ × Host) := do
  let stalled ← stalledAddr granularity paddr queue
  if stalled then
    let thread ← h.stoppedThread cpu_type id
    let h ← h.suspendContext cpu_type thread
    return (some thread, h)
  else return (none, h)

/-- The end of a translation of a processor with the timing model. -/
def Host.finishTranslation (h : Host) (granularity : ℕ) (queue : List PIMSenderState)
    (state : DataAccess) : Outcome (AccessResult × Host) := do
  let h := { h with status := .running }
  let (stopped, h) ← h.stopCurrent .timingSimpleCPU granularity queue state.mainPaddr 0
  match stopped with
  | some thread => return (.suspended thread, h)
  | none => if state.getFault then return (.faulted, h) else return (.sent, h)

/-! ### The memory -/

/-- A context that waits, with the address of its access. -/
structure WaitingContext where
  cpu : ℕ
  thread : ℕ
  addr : ℕ
deriving DecidableEq, Repr

/-- The memory with its pending commands, the host processors, and the caches. The type of the
processors is one of the two models or another one. -/
structure MemorySystem (δ : Type) where
  cpu_type : Option CPUModel
  coherence_granularity : ℕ
  blkSize : ℕ
  cpus : List Host
  pCaches : List (Cache δ)
  memory : ℕ → δ
  pendingPIMqueue : List PIMSenderState
  waiting : List WaitingContext

namespace MemorySystem

variable (s : MemorySystem δ)

/-- The processor named `system.cpu`, or `system.cpu` with a number. The names are padded to one width,
so that from eleven processors on none has a number of one digit. -/
def findCPU (threadid : Bool) : Option ℕ :=
  if s.cpus.length = 1 then some 0
  else if threadid.toNat < s.cpus.length ∧ s.cpus.length ≤ 10 then some threadid.toNat
  else none

/-- The first pending command with the first address of `addr`, and its position. -/
def findEntry (addr : List ℕ) (n : ℕ) : List PIMSenderState → Outcome (Option (ℕ × PIMSenderState))
  | [] => return none
  | i :: queue => do
    let a ← vectorAt "functionalAccess" i.addr 0
    let b ← vectorAt "functionalAccess" addr 0
    if a = b then return some (n, i) else findEntry addr (n + 1) queue

/-- One cache is flushed of one address of a command. -/
def flushAddr (addr : List ℕ) (cm : Cache δ × (ℕ → δ)) (j : ℕ) : Outcome (Cache δ × (ℕ → δ)) := do
  let (c, memory) := cm
  let a ← vectorAt "functionalAccess" addr j
  if c.check_addr s.blkSize a then
    let (_, c, memory) ← c.flushPIM s.blkSize memory a
    return (c, memory)
  else return (c, memory)

/-- Each cache is flushed of the three addresses of a command. -/
def flushEntry (addr : List ℕ) :
    List (Cache δ) → (ℕ → δ) → Outcome (List (Cache δ) × (ℕ → δ))
  | [], memory => return ([], memory)
  | c :: pCaches, memory => do
    let (c, memory) ← [0, 1, 2].foldlM (s.flushAddr addr) (c, memory)
    let (pCaches, memory) ← flushEntry addr pCaches memory
    return (c :: pCaches, memory)

/-- A processor activates a context, which waits no longer. -/
def activate (cpu_type : CPUModel) (cpu thread : ℕ) : Outcome (MemorySystem δ) := do
  let h ← vectorAt "activateContext" s.cpus cpu
  let h ← h.activateContext cpu_type thread
  return { s with
    cpus := s.cpus.set cpu h
    waiting := s.waiting.filter fun w => ¬ (w.cpu = cpu ∧ w.thread = thread) }

/-- A registration. -/
def registration (addr : List ℕ) (threadid : ℕ) : MemorySystem δ :=
  { s with pendingPIMqueue := s.pendingPIMqueue ++ [{ addr, threadid }] }

/-- The model of the processors; another one stops the program. -/
def model : Outcome CPUModel :=
  match s.cpu_type with
  | some cpu_type => .ok cpu_type
  | none => .error .fatal

/-- The thread that the end of a command activates. -/
def activatedThread (cpu_type : CPUModel) (cpu : ℕ) (threadid : Bool) : Outcome ℕ :=
  match cpu_type with
  | .timingSimpleCPU => do
    let h ← vectorAt "functionalAccess" s.cpus cpu
    vectorAt "threadInfo" h.contextId h.curThread
  | .fullO3CPU => return threadid.toNat

/-- The end of a command: its entry is removed, its addresses are flushed and a thread is activated. -/
def complete (addr : List ℕ) : Outcome (MemorySystem δ) := do
  let found ← findEntry addr 0 s.pendingPIMqueue
  match found with
  | none => .error .assertion
  | some (n, index) =>
    let threadid : Bool := index.threadid ≠ 0
    match s.findCPU threadid with
    | none => .error .assertion
    | some cpu =>
      let (pCaches, memory) ← s.flushEntry index.addr s.pCaches s.memory
      let cpu_type ← s.model
      let thread ← s.activatedThread cpu_type cpu threadid
      let s ← { s with pCaches, memory }.activate cpu_type cpu thread
      return { s with pendingPIMqueue := s.pendingPIMqueue.eraseIdx n }

/-! ### Events -/

/-- What happens at the memory and its processors. A registration comes with the thread that its
packet's field holds, which the kernel does not set. -/
inductive MemoryEvent
  | registration (addr : List ℕ) (threadid : ℕ)
  | complete (a b c : ℕ)
  | access (cpu : ℕ) (state : DataAccess)
  | lsqAccess (cpu lsqID : ℕ) (paddr : Option ℕ)
  | fetch (cpu : ℕ)
  | quiesce (cpu thread : ℕ)
  | wakeup (cpu thread : ℕ)
deriving DecidableEq, Repr

/-- The accesses are those of the processors' model and of an active thread, and an active thread
quiesces. -/
def Possible : MemoryEvent → Prop
  | .access cpu _ => s.cpu_type = some .timingSimpleCPU ∧
      ∃ h ∈ s.cpus[cpu]?, h.curThread ∈ h.activeThreads
  | .lsqAccess cpu lsqID _ => s.cpu_type = some .fullO3CPU ∧
      ∃ h ∈ s.cpus[cpu]?, lsqID ∈ h.activeThreads
  | .quiesce cpu thread => s.cpu_type ≠ none ∧ ∃ h ∈ s.cpus[cpu]?, thread ∈ h.activeThreads
  | .wakeup cpu thread => s.cpu_type ≠ none ∧ ∃ h ∈ s.cpus[cpu]?, thread < h.numThreads
  | .registration _ _ | .complete _ _ _ | .fetch _ => True

instance : ∀ e, Decidable (s.Possible e)
  | .access cpu _ => inferInstanceAs (Decidable (s.cpu_type = some .timingSimpleCPU ∧
      ∃ h ∈ s.cpus[cpu]?, h.curThread ∈ h.activeThreads))
  | .lsqAccess cpu lsqID _ => inferInstanceAs (Decidable (s.cpu_type = some .fullO3CPU ∧
      ∃ h ∈ s.cpus[cpu]?, lsqID ∈ h.activeThreads))
  | .quiesce cpu thread =>
    inferInstanceAs (Decidable (s.cpu_type ≠ none ∧ ∃ h ∈ s.cpus[cpu]?, thread ∈ h.activeThreads))
  | .wakeup cpu thread =>
    inferInstanceAs (Decidable (s.cpu_type ≠ none ∧ ∃ h ∈ s.cpus[cpu]?, thread < h.numThreads))
  | .registration _ _ | .complete _ _ _ | .fetch _ => .isTrue trivial

/-- A processor goes on as `h`; the thread that it stopped waits for the address. -/
def stop (cpu : ℕ) (stopped : Option ℕ) (paddr : Option ℕ) (h : Host) : MemorySystem δ :=
  { s with
    cpus := s.cpus.set cpu h
    waiting := s.waiting ++ ((stopped.bind fun thread => paddr.map fun addr =>
      ({ cpu, thread, addr } : WaitingContext)).toList) }

/-- One event. -/
def step : MemoryEvent → Outcome (MemorySystem δ)
  | .registration addr threadid => return s.registration addr threadid
  | .complete a b c => s.complete [a, b, c]
  | .access cpu state => do
    let h ← vectorAt "system" s.cpus cpu
    let (result, h) ←
      h.finishTranslation s.coherence_granularity s.pendingPIMqueue state
    match result with
    | .suspended thread => return s.stop cpu (some thread) state.mainPaddr h
    | .faulted | .sent => return s.stop cpu none state.mainPaddr h
  | .lsqAccess cpu lsqID paddr => do
    let h ← vectorAt "system" s.cpus cpu
    let (stopped, h) ←
      h.stopCurrent .fullO3CPU s.coherence_granularity s.pendingPIMqueue paddr lsqID
    return s.stop cpu stopped paddr h
  | .fetch cpu => do
    let h ← vectorAt "system" s.cpus cpu
    return { s with cpus := s.cpus.set cpu h.swapActiveThread }
  | .quiesce cpu thread => do
    let cpu_type ← s.model
    let h ← vectorAt "system" s.cpus cpu
    let h ← h.suspendContext cpu_type thread
    return { s with cpus := s.cpus.set cpu h }
  | .wakeup cpu thread => do
    let cpu_type ← s.model
    s.activate cpu_type cpu thread

end MemorySystem

/-! ### What an event does -/

/-- The granule of an address has a pending address. -/
def Covered (granularity : ℕ) (queue : List PIMSenderState) (addr : ℕ) : Prop :=
  ∃ e ∈ queue, ∃ a ∈ e.addr, a / granularity = addr / granularity

instance (granularity : ℕ) (queue : List PIMSenderState) (addr : ℕ) :
    Decidable (Covered granularity queue addr) :=
  inferInstanceAs (Decidable (∃ e ∈ queue, ∃ a ∈ e.addr, a / granularity = addr / granularity))

section Stalled

variable {granularity : ℕ} {paddr : Option ℕ} {queue : List PIMSenderState} {b : Bool}

theorem stalledEntry_cons {a x : ℕ} {addr : List ℕ} (hg : granularity ≠ 0) :
    stalledEntry granularity (some x) (a :: addr) =
      if a / granularity = x / granularity then .ok true
      else stalledEntry granularity (some x) addr := by
  simp [stalledEntry, getAddr, divide, hg, bind, Except.bind, pure, Except.pure]

/-- A comparison with a pending address needs the address of the access and a granularity. -/
theorem stalledEntry_eq_ok {addr : List ℕ} : stalledEntry granularity paddr addr = .ok b ↔
    addr = [] ∧ b = false ∨ addr ≠ [] ∧ granularity ≠ 0 ∧ ∃ x, paddr = some x ∧
      b = decide (∃ a ∈ addr, a / granularity = x / granularity) := by
  induction addr with
  | nil => simp [stalledEntry, eq_comm (a := false)]
  | cons a addr ih =>
    cases paddr with
    | none => simp [stalledEntry, getAddr, bind, Except.bind]
    | some x =>
      by_cases hg : granularity = 0
      · simp [stalledEntry, getAddr, divide, hg, bind, Except.bind]
      · rw [stalledEntry_cons hg]
        by_cases hsame : a / granularity = x / granularity
        · simp [hsame, hg, eq_comm (a := true)]
        · rw [if_neg hsame, ih]
          cases addr <;> simp [hsame, hg]

theorem stalledEntry_append (addr addr' : List ℕ) :
    stalledEntry granularity paddr (addr ++ addr') =
      (stalledEntry granularity paddr addr >>= fun stalled =>
        if stalled then .ok true else stalledEntry granularity paddr addr') := by
  induction addr with
  | nil => rfl
  | cons a addr ih =>
    cases paddr with
    | none => rfl
    | some x =>
      by_cases hg : granularity = 0
      · simp [stalledEntry, getAddr, divide, hg, bind, Except.bind]
      · rw [List.cons_append, stalledEntry_cons hg, stalledEntry_cons hg, ih]
        by_cases hsame : a / granularity = x / granularity
        · rw [if_pos hsame, if_pos hsame]
          rfl
        · rw [if_neg hsame, if_neg hsame]

theorem stalledAddr_eq_stalledEntry : stalledAddr granularity paddr queue =
    stalledEntry granularity paddr (queue.flatMap (·.addr)) := by
  induction queue with
  | nil => rfl
  | cons i queue ih =>
    rw [List.flatMap_cons, stalledEntry_append, ← ih]
    rfl

theorem covered_iff {x : ℕ} : Covered granularity queue x ↔
    ∃ a ∈ queue.flatMap (·.addr), a / granularity = x / granularity := by
  simp only [Covered, List.mem_flatMap]
  constructor
  · rintro ⟨e, he, a, ha, hsame⟩
    exact ⟨a, ⟨e, he, ha⟩, hsame⟩
  · rintro ⟨a, ⟨e, he, ha⟩, hsame⟩
    exact ⟨e, he, a, ha, hsame⟩

/-- The access is stalled when its address is covered; with no pending address it is not. -/
theorem stalledAddr_eq_ok : stalledAddr granularity paddr queue = .ok b ↔
    (∀ e ∈ queue, e.addr = []) ∧ b = false ∨
    (∃ e ∈ queue, e.addr ≠ []) ∧ granularity ≠ 0 ∧ ∃ x, paddr = some x ∧
      b = decide (Covered granularity queue x) := by
  rw [stalledAddr_eq_stalledEntry, stalledEntry_eq_ok]
  simp only [covered_iff, ne_eq, List.flatMap_eq_nil_iff, not_forall, exists_prop]

/-- A stalled access has an address that is covered. -/
theorem covered_of_stalledAddr (h : stalledAddr granularity paddr queue = .ok true) :
    ∃ x, paddr = some x ∧ Covered granularity queue x := by
  rcases stalledAddr_eq_ok.mp h with ⟨-, hfalse⟩ | ⟨-, -, x, hx, hcovered⟩
  · cases hfalse
  · exact ⟨x, hx, of_decide_eq_true hcovered.symm⟩

end Stalled

namespace MemorySystem

variable {s s' : MemorySystem δ}

/-- The event is a processor's own. -/
def MemoryEvent.OfHost : MemoryEvent → Prop
  | .access _ _ | .lsqAccess _ _ _ | .fetch _ | .quiesce _ _ | .wakeup _ _ => True
  | .registration _ _ | .complete _ _ _ => False

/-- What an event does. -/
inductive StepCases (s : MemorySystem δ) : MemoryEvent → MemorySystem δ → Prop
  | registration {addr : List ℕ} {threadid : ℕ} :
    StepCases s (.registration addr threadid) (s.registration addr threadid)
  | complete {a b c : ℕ} {s' : MemorySystem δ} (h : s.complete [a, b, c] = .ok s') :
    StepCases s (.complete a b c) s'
  | suspend {e : MemoryEvent} {cpu thread addr : ℕ} {h : Host} (he : e.OfHost)
    (hcovered : Covered s.coherence_granularity s.pendingPIMqueue addr) :
    StepCases s e (s.stop cpu (some thread) (some addr) h)
  | goOn {e : MemoryEvent} {cpu : ℕ} {h : Host} (he : e.OfHost) :
    StepCases s e { s with cpus := s.cpus.set cpu h }
  | wakeup {cpu_type : CPUModel} {cpu thread : ℕ} {s' : MemorySystem δ}
    (h : s.activate cpu_type cpu thread = .ok s') : StepCases s (.wakeup cpu thread) s'

theorem stopCurrent_eq_ok {cpu_type : CPUModel} {h h' : Host} {granularity id : ℕ}
    {queue : List PIMSenderState} {paddr : Option ℕ} {stopped : Option ℕ}
    (hstop : h.stopCurrent cpu_type granularity queue paddr id = .ok (stopped, h')) :
    stopped = none ∧ h' = h ∨
    ∃ thread addr, stopped = some thread ∧ paddr = some addr ∧ Covered granularity queue addr := by
  obtain ⟨stalled, hstalled, hstop⟩ := Outcome.bind_eq_ok.mp hstop
  cases stalled with
  | false =>
    cases hstop
    exact Or.inl ⟨rfl, rfl⟩
  | true =>
    obtain ⟨addr, haddr, hcovered⟩ := covered_of_stalledAddr hstalled
    rw [if_pos rfl] at hstop
    obtain ⟨thread, -, hstop⟩ := Outcome.bind_eq_ok.mp hstop
    obtain ⟨h₁, -, hstop⟩ := Outcome.bind_eq_ok.mp hstop
    cases hstop
    exact Or.inr ⟨thread, addr, rfl, haddr, hcovered⟩

/-- A processor that goes on does not wait. -/
theorem stop_none (cpu : ℕ) (paddr : Option ℕ) (h : Host) :
    s.stop cpu none paddr h = { s with cpus := s.cpus.set cpu h } := by
  simp [stop]

theorem step_cases {e : MemoryEvent} (h : s.step e = .ok s') : StepCases s e s' := by
  cases e with
  | registration addr threadid =>
    cases h
    exact .registration
  | complete a b c => exact .complete h
  | access cpu state =>
    obtain ⟨host, -, h⟩ := Outcome.bind_eq_ok.mp h
    obtain ⟨⟨result, host₁⟩, hfinish, h⟩ := Outcome.bind_eq_ok.mp h
    obtain ⟨⟨stopped, host₂⟩, hstop, hfinish⟩ := Outcome.bind_eq_ok.mp hfinish
    rcases stopCurrent_eq_ok hstop with ⟨rfl, -⟩ | ⟨thread, addr, rfl, haddr, hcovered⟩
    · simp only at hfinish
      split at hfinish <;> cases hfinish <;> cases h <;> rw [stop_none] <;> exact .goOn trivial
    · cases hfinish
      cases h
      rw [haddr]
      exact .suspend trivial hcovered
  | lsqAccess cpu lsqID paddr =>
    obtain ⟨host, -, h⟩ := Outcome.bind_eq_ok.mp h
    obtain ⟨⟨stopped, host₁⟩, hstop, h⟩ := Outcome.bind_eq_ok.mp h
    cases h
    rcases stopCurrent_eq_ok hstop with ⟨rfl, -⟩ | ⟨thread, addr, rfl, rfl, hcovered⟩
    · rw [stop_none]
      exact .goOn trivial
    · exact .suspend trivial hcovered
  | fetch cpu =>
    obtain ⟨host, -, h⟩ := Outcome.bind_eq_ok.mp h
    cases h
    exact .goOn trivial
  | quiesce cpu thread =>
    obtain ⟨cpu_type, -, h⟩ := Outcome.bind_eq_ok.mp h
    obtain ⟨host, -, h⟩ := Outcome.bind_eq_ok.mp h
    obtain ⟨host₁, -, h⟩ := Outcome.bind_eq_ok.mp h
    cases h
    exact .goOn trivial
  | wakeup cpu thread =>
    obtain ⟨cpu_type, -, h⟩ := Outcome.bind_eq_ok.mp h
    exact .wakeup h

theorem model_eq_ok {cpu_type : CPUModel} : s.model = .ok cpu_type ↔ s.cpu_type = some cpu_type := by
  cases h : s.cpu_type <;> simp [model, h]

/-- An activation leaves the memory's queue. -/
theorem activate_eq_ok {cpu_type : CPUModel} {cpu thread : ℕ}
    (h : s.activate cpu_type cpu thread = .ok s') : ∃ host, s' = { s with
      cpus := s.cpus.set cpu host
      waiting := s.waiting.filter fun w => ¬ (w.cpu = cpu ∧ w.thread = thread) } := by
  obtain ⟨_, -, h⟩ := Outcome.bind_eq_ok.mp h
  obtain ⟨host, -, h⟩ := Outcome.bind_eq_ok.mp h
  cases h
  exact ⟨host, rfl⟩

end MemorySystem

end PIMSim.Gem5
