import PIMSim.PIM.Tidy

/-!
# Where write-backs go

The write-back of an evicted block carries the block's address and no actual address, and the
controller routes requests by their actual address. Every write-back goes where the address 0 goes.

## Main definitions

* `destination`: the memory object and the address that the controller sends a request to
* `writeBacks`, `readMisses`: the write-backs and the reads that the controller accepted
* `ReadMiss`: a read miss of a block, accepted or of an address that the page table maps to the block

## Main results

* `destination_of_visit`: the controller sends requests to their destination
* `writeBacks_reach_iff`: in every run, a write-back reaches the destination of a read miss of its
  block when the read goes where the address 0 goes
-/

namespace PIMSim

open CSharp Transition CacheArray

variable {Obj : Type} {cfg : Config} {w : Waiver} {W : Host → Waiver} {info : List (Region Obj)}

/-- The memory object and the address that the controller sends a request to. -/
def destination (info : List (Region Obj)) (req : ProcRequest) : Outcome Int × Outcome UInt64 :=
  (MemorySelector.getId info req.actualAddr, MemorySelector.resize info req.actualAddr)

/-- The write-backs of evicted blocks that the controller accepted. -/
def writeBacks (history : List Record) : List ProcRequest :=
  history.filterMap fun
    | .core _ (.wroteBack req) => if req.type = .write then some req else none
    | _ => none

/-- The read misses that the controller accepted. -/
def readMisses (history : List Record) : List ProcRequest :=
  history.filterMap fun
    | .core _ (.sent req) => if req.type = .read then some req else none
    | _ => none

/-- A read miss of the block `b`: one that the controller accepted, or that of an instruction whose
address the page table maps to the block now. -/
inductive ReadMiss (s : System) (b : UInt64) : ProcRequest → Prop
  | accepted {r : ProcRequest} (h : r ∈ readMisses s.coherence.host.history) (hb : r.blockAddr = b) :
    ReadMiss s b r
  | translated {a : UInt64} {tlb : PageConverter}
    (h : s.coherence.host.world.tlb.scanPage a = .ok (b, tlb)) :
    ReadMiss s b (parseIns { type := .read, isMem := true, address := a, blockAddr := b })

/-- A request that a step of the host's controller places is sent to its destination. -/
theorem destination_of_visit {lock : Option SpinLock} {cycle : UInt64}
    {queues queues' : List (List MemRequest)} {req : ProcRequest} {k : ℕ} {m : MemRequest}
    (h : Mctrl.visit cfg info lock cycle queues req = .ok (queues', .placed k m)) :
    destination info req = (.ok (k : Int), .ok m.address) := by
  unfold Mctrl.visit at h
  split_ifs at h
  · simp only [Outcome.bind_eq_ok] at h
    obtain ⟨l, -, locked, -, h⟩ := h
    split_ifs at h
    · obtain ⟨k', m', queue, hfate, hid, htrans, -, -⟩ := Controller.place_eq_ok h
      cases hfate
      obtain ⟨address, hresize, heq⟩ := Outcome.bind_eq_ok.mp htrans
      cases heq
      rw [destination, hid, hresize]
    · cases h
  · cases h
  · cases h

/-- The requests of evicted blocks carry no actual address. -/
structure Unaddressed (c : Core) : Prop where
  queue : ∀ req ∈ c.proc.writebackReq, req.type = .write → req.actualAddr = 0
  acts : ∀ req, .wroteBack req ∈ c.acts → req.type = .write → req.actualAddr = 0

theorem Unaddressed.note {c : Core} {a : Act} (h : Unaddressed c) (ha : ∀ req, a ≠ .wroteBack req) :
    Unaddressed (c.note a) := by
  refine ⟨h.queue, fun req hreq => ?_⟩
  rcases List.mem_append.mp hreq with hreq | hreq
  · exact h.acts req hreq
  · exact absurd (List.mem_singleton.mp hreq).symm (ha req)

theorem Unaddressed.queueWriteback {c c' : Core} {v : UInt64} (h : Unaddressed c)
    (hq : c.queueWriteback cfg v = .ok c') : Unaddressed c' := by
  obtain ⟨-, rfl⟩ := Core.queueWriteback_eq_ok.mp hq
  refine ⟨fun req hreq htype => ?_, h.acts⟩
  replace hreq : req ∈ Core.queued c.proc.pid v c.proc.writebackReq := hreq
  unfold Core.queued at hreq
  split_ifs at hreq
  · exact h.queue req hreq htype
  · rcases List.mem_append.mp hreq with hreq | hreq
    · exact h.queue req hreq htype
    · -- The new request is made of the block's address alone.
      rw [List.mem_singleton.mp hreq]
      rfl

/-- **Every effect** leaves the requests of evicted blocks without an actual address. -/
theorem Unaddressed.effect {c c' : Core} (h : Unaddressed c) (heffect : Core.Effect cfg w c c') :
    Unaddressed c' := by
  cases heffect with
  | quiet hsame =>
    refine ⟨?_, ?_⟩
    · rw [hsame.writeback]
      exact h.queue
    · rw [hsame.acts]
      exact h.acts
  | note hquiet => exact h.note fun req hreq => by rw [hreq] at hquiet; cases hquiet
  | searchL1 hsearch =>
    obtain ⟨l1, -, rfl⟩ := Core.searchL1_eq_ok hsearch
    exact ⟨h.queue, h.acts⟩
  | searchShared hsearch =>
    obtain ⟨shared, -, rfl⟩ := Core.searchShared_eq_ok hsearch
    exact ⟨h.queue, h.acts⟩
  | @fillL1 b v t l1 hb hadd =>
    have hfill : Unaddressed (c.withL1 l1) := ⟨h.queue, h.acts⟩
    split_ifs
    · exact hfill
    · exact hfill.note nofun
  | fillShared => exact ⟨h.queue, h.acts⟩
  | @evict _ b v t shared hb hadd hq =>
    have hfill : Unaddressed (c.withShared shared) := ⟨h.queue, h.acts⟩
    have hevicted : Unaddressed ((c.withShared shared).note (.evicted v)) := hfill.note nofun
    exact hevicted.queueWriteback hq
  | removeL1 => exact ⟨h.queue, h.acts⟩
  | removeShared => exact ⟨h.queue, h.acts⟩
  | @queueFlush addr actualAddr =>
    unfold Core.queueFlush
    split_ifs
    · refine Unaddressed.note ⟨fun req hreq htype => ?_, h.acts⟩ nofun
      rcases List.mem_append.mp hreq with hreq | hreq
      · exact h.queue req hreq htype
      · -- the request of a flush is no write-back of an evicted block
        rw [List.mem_singleton.mp hreq] at htype
        cases htype
    · rcases Core.addToMctrl_cases cfg c (c.flushItem addr actualAddr) with hadd | hadd <;>
        rw [hadd] <;> exact Unaddressed.note ⟨h.queue, h.acts⟩ nofun
  | @send req =>
    rcases Core.addToMctrl_cases cfg c req with hadd | hadd <;> rw [hadd] <;>
      exact ⟨h.queue, h.acts⟩
  | writeBack =>
    have hqueue := h.queue
    unfold Core.writeBackOne Core.handleWritebackQueue
    cases hreqs : c.proc.writebackReq with
    | nil => exact h
    | cons req reqs =>
      rw [hreqs] at hqueue
      rcases Core.addToMctrl_cases cfg c req with hadd | hadd
      · simp only [hadd]
        exact h
      · simp only [hadd]
        refine ⟨fun r hr htype => ?_, fun r hr htype => ?_⟩
        · -- the controller takes the head, which is recorded as it was queued
          replace hr : r ∈ c.proc.writebackReq.tail := hr
          rw [hreqs] at hr
          exact hqueue r (List.mem_cons_of_mem req hr) htype
        · rcases List.mem_append.mp hr with hr | hr
          · exact h.acts r hr htype
          · cases List.mem_singleton.mp hr
            exact hqueue req List.mem_cons_self htype
  | movedOn => exact h.note nofun

/-! ### Runs -/

/-- The write-backs of all processors carry no actual address. -/
structure AllUnaddressed (host : Host) : Prop where
  queues : ∀ proc ∈ host.procs, ∀ req ∈ proc.writebackReq, req.type = .write → req.actualAddr = 0
  history : ∀ req ∈ writeBacks host.history, req.actualAddr = 0

theorem mem_writeBacks {history : List Record} {req : ProcRequest} :
    req ∈ writeBacks history ↔
      req.type = .write ∧ ∃ i, .core i (.wroteBack req) ∈ history := by
  unfold writeBacks
  rw [List.mem_filterMap]
  constructor
  · rintro ⟨rec, hrec, h⟩
    split at h
    · split_ifs at h with htype
      cases h
      exact ⟨htype, _, hrec⟩
    · cases h
  · rintro ⟨htype, i, hrec⟩
    exact ⟨_, hrec, by simp [htype]⟩

theorem AllUnaddressed.put {host : Host} {i : ℕ} {proc : Proc} {c : Core} (h : AllUnaddressed host)
    (hproc : host.procs[i]? = some proc) (heffects : Core.Effects cfg w (host.core proc) c) :
    AllUnaddressed (host.put i c) := by
  have hfirst : Unaddressed (host.core proc) :=
    ⟨h.queues proc (List.mem_of_getElem? hproc), fun req hreq => by cases hreq⟩
  have hc : Unaddressed c := heffects.invariant (fun _ _ hc he => hc.effect he) hfirst
  refine ⟨fun p hp => ?_, fun req hreq => ?_⟩
  · rcases List.mem_or_eq_of_mem_set hp with hp | rfl
    · exact h.queues p hp
    · exact hc.queue
  · obtain ⟨htype, j, hrec⟩ := mem_writeBacks.mp hreq
    rcases List.mem_append.mp hrec with hrec | hrec
    · exact h.history req (mem_writeBacks.mpr ⟨htype, j, hrec⟩)
    · -- a write-back of this processor's work
      obtain ⟨a, ha, heq⟩ := List.mem_map.mp hrec
      cases heq
      exact hc.acts req ha htype

theorem AllUnaddressed.move {host host' : Host} (h : AllUnaddressed host)
    (hmove : Host.Move cfg W host host') : AllUnaddressed host' := by
  cases hmove with
  | work hwork =>
    obtain ⟨hproc, heffects, -⟩ := hwork
    exact h.put hproc heffects
  | written =>
    refine ⟨h.queues, fun req hreq => ?_⟩
    obtain ⟨htype, j, hrec⟩ := mem_writeBacks.mp hreq
    apply h.history req (mem_writeBacks.mpr ⟨htype, j, ?_⟩)
    simpa using hrec
  | unqueue => exact ⟨h.queues, h.history⟩
  | mctrl => exact ⟨h.queues, h.history⟩
  | tick => exact ⟨h.queues, h.history⟩

theorem allUnaddressed_step {s s' : System} {e : Event}
    (h : AllUnaddressed s.coherence.host ∧ s.coherence.host.Paired)
    (hs : System.step cfg info s e = .ok s') :
    AllUnaddressed s'.coherence.host ∧ s'.coherence.host.Paired := by
  rcases System.step_cases hs with ⟨i, proc, c, rfl, hproc, hstep, rfl⟩ | hmoves
  · have hpassage := Core.step_passage (h.2 proc (List.mem_of_getElem? hproc)) Core.waives_all hstep
    exact ⟨h.1.put hproc hpassage.effects, h.2.put hpassage.paired⟩
  · exact hmoves.invariant (I := fun host => AllUnaddressed host ∧ host.Paired)
      (fun _ _ h hmove => ⟨h.1.move hmove, h.2.move hmove⟩) h

theorem AllUnaddressed.of_exec {P : Platform Obj} {s₀ s : System} {es : List Event}
    (hinit : System.init cfg P = .ok s₀) (h : exec (System.step cfg P.memory) s₀ es = .ok s) :
    AllUnaddressed s.coherence.host := by
  have hfirst : AllUnaddressed s₀.coherence.host ∧ s₀.coherence.host.Paired := by
    rw [System.host_of_init hinit]
    refine ⟨⟨fun proc hproc => ?_, fun req hreq => by cases hreq⟩, Host.paired_host P⟩
    obtain ⟨i, hi, rfl⟩ := List.mem_mapIdx.mp hproc
    intro req hreq
    cases hreq
  exact (exec_invariant (I := fun s => AllUnaddressed s.coherence.host ∧ s.coherence.host.Paired)
    (fun _ _ _ hI hstep => allUnaddressed_step hI hstep) hfirst h).1

/-- **In every run** an accepted write-back is sent where any read miss of its block is sent if and
only if the read goes where the address 0 goes. -/
theorem writeBacks_reach_iff (P : Platform Obj) {s₀ s : System} {es : List Event}
    (hinit : System.init cfg P = .ok s₀) (h : exec (System.step cfg P.memory) s₀ es = .ok s) :
    ∀ w ∈ writeBacks s.coherence.host.history, ∀ r, ReadMiss s w.blockAddr r →
      (destination P.memory w = destination P.memory r ↔
        destination P.memory r = destination P.memory { actualAddr := 0 }) := by
  intro w hw r _
  have hnone := (AllUnaddressed.of_exec hinit h).history w hw
  have hw0 : destination P.memory w = destination P.memory { actualAddr := 0 } := by
    unfold destination
    rw [hnone]
  rw [hw0]
  exact eq_comm

/-- One processor that writes two blocks. -/
def twoWrites : List (List Input) :=
  [[.instruction { type := .write, address := 64, isMem := true },
    .instruction { type := .write, address := 128, isMem := true }]]

/-- Caches of one line. -/
def oneLinePlatform : Platform Unit :=
  { smallPlatform twoWrites with l1Assoc := 1, sharedAssoc := 1 }

def oneLineSystem : System :=
  { smallSystem {} twoWrites with
    coherence := { (smallSystem {} twoWrites).coherence with
      host := oneLinePlatform.host {} } }

/-- A request goes through the controller and completes. -/
def serveOne : List Event := [.procStep 0, .mctrlStep, .take 0, .complete 0]

/-- The write-back of the first block is accepted, and no read. -/
theorem oneLine_run : (exec (System.step {} oneObject) oneLineSystem
    (serveOne ++ serveOne ++ [.procStep 0])).map (fun s =>
      ((writeBacks s.coherence.host.history).map fun req => (req.blockAddr, req.actualAddr),
        readMisses s.coherence.host.history,
        (s.coherence.host.world.tlb.scanPage 64).map Prod.fst)) =
      .ok ([(64, 0)], [], .ok 64) := by decide +kernel

/-- The read of the first block. -/
def readFirst : ProcRequest :=
  parseIns { type := .read, isMem := true, address := 64, blockAddr := 64 }

/-- The write-back of the first block, and the read of it that the page table would send. -/
theorem oneLine_writeBack {s : System} (hs : exec (System.step {} oneObject) oneLineSystem
    (serveOne ++ serveOne ++ [.procStep 0]) = .ok s) :
    ∃ w ∈ writeBacks s.coherence.host.history, w.actualAddr = 0 ∧
      ReadMiss s w.blockAddr readFirst := by
  have hrun := oneLine_run
  rw [hs] at hrun
  obtain ⟨hwrites, hrest⟩ := Prod.mk.inj (Except.ok.inj hrun)
  obtain ⟨-, hpage⟩ := Prod.mk.inj hrest
  obtain ⟨w, hw, hwa⟩ : ∃ w ∈ writeBacks s.coherence.host.history,
      (w.blockAddr, w.actualAddr) = ((64 : UInt64), (0 : UInt64)) :=
    List.mem_map.mp (by rw [hwrites]; simp)
  obtain ⟨hblock, haddr⟩ := Prod.mk.inj hwa
  obtain ⟨⟨b, tlb⟩, htlb, rfl⟩ := Outcome.exists_of_map_eq_ok hpage
  exact ⟨w, hw, haddr, hblock ▸ .translated htlb⟩

theorem writeBacks_reach_one_line : ∃ s w, exec (System.step {} oneObject) oneLineSystem
    (serveOne ++ serveOne ++ [.procStep 0]) = .ok s ∧ w ∈ writeBacks s.coherence.host.history ∧
      (destination oneObject w = destination oneObject readFirst ↔
        destination oneObject readFirst = destination oneObject { actualAddr := 0 }) := by
  obtain ⟨s, hs, -⟩ := Outcome.exists_of_map_eq_ok oneLine_run
  obtain ⟨w, hw, -, hread⟩ := oneLine_writeBack hs
  exact ⟨s, w, hs, hw, writeBacks_reach_iff oneLinePlatform (init_oneObject rfl rfl rfl) hs w hw
    readFirst hread⟩

/-- The write-back of the first block goes to the address 0, a read of it to the address 64. -/
theorem not_writeBacks_reach_one_line : ¬ ∀ s, exec (System.step {} oneObject) oneLineSystem
    (serveOne ++ serveOne ++ [.procStep 0]) = .ok s →
      ∀ w ∈ writeBacks s.coherence.host.history, ∀ r, ReadMiss s w.blockAddr r →
        destination oneObject w = destination oneObject r := by
  intro h
  obtain ⟨s, hs, -⟩ := Outcome.exists_of_map_eq_ok oneLine_run
  obtain ⟨w, hw, hzero, hread⟩ := oneLine_writeBack hs
  have heq := h s hs w hw readFirst hread
  unfold destination at heq
  rw [hzero] at heq
  exact absurd (Prod.mk.inj heq).2 (by decide +kernel)

end PIMSim
