import Mathlib.Data.List.InsertIdx
import Mathlib.Data.List.Nodup
import Mathlib.Logic.Relation
import PIMSim.Gem5.PIMKernel

/-!
# The moves of a kernel

Every event takes a kernel through a few elementary moves: a packet is sent or refused, an event is
scheduled or taken off the queue, a response is stored, a command begins or ends. What every move
preserves holds in every run.

## Main definitions

* `Move`: the elementary moves
* `Sound`: how the registers, the packets in flight and the scheduled events fit together

## Main results

* `step_cases`: an event is a sequence of moves, which a command or the retry of a refused packet
  may begin
* `Sound.move`, `Sound.step`: the moves and the events keep a kernel sound
* `step_error`: how an event stops the program
-/

namespace PIMSim.Gem5.PIMKernel

open Cpp Transition

variable {p : KernelParams} {k k' : PIMKernel} {pkt : Packet}

/-! ### Registers -/

/-- The status of a register. -/
def statusAt (k : PIMKernel) (i : ℕ) : Option DataStatus := k.regs[i]?.map (·.status)

theorem statusAt_of_getElem? {i : ℕ} {r : Reg} (h : k.regs[i]? = some r) :
    k.statusAt i = some r.status := by
  simp [statusAt, h]

theorem statusAt_eq_none {i : ℕ} : k.statusAt i = none ↔ k.regs.length ≤ i := by
  simp [statusAt]

theorem lt_of_statusAt {i : ℕ} {s : DataStatus} (h : k.statusAt i = some s) :
    i < k.regs.length := by
  by_contra hle
  rw [statusAt_eq_none.mpr (Nat.not_lt.mp hle)] at h
  cases h

/-- The statuses once one register's status is set. -/
theorem statusAt_modify (k : PIMKernel) (j : ℕ) (s : DataStatus) (i : ℕ) :
    (k.regs.modify j fun r => { r with status := s })[i]?.map (·.status) =
      if i = j then (k.statusAt i).map fun _ => s else k.statusAt i := by
  rw [List.getElem?_modify]
  split_ifs with h h' h'
  · simp [statusAt, Function.comp_def]
  · exact absurd h.symm h'
  · exact absurd h'.symm h
  · simp [statusAt]

theorem statusAt_send (k : PIMKernel) (pkt : Packet) (i : ℕ) :
    (k.send pkt).statusAt i =
      if i = pkt.procid then (k.statusAt i).map fun _ => .dataWaitingResp else k.statusAt i :=
  statusAt_modify k pkt.procid .dataWaitingResp i

theorem inputReady_iff (hlen : k.regs.length = p.input + p.output) :
    k.inputReady p = true ↔ ∀ i < p.input, k.statusAt i = some .dataFinish := by
  simp only [inputReady, List.all_eq_true, decide_eq_true_eq]
  constructor
  · intro h i hi
    have hlt : i < k.regs.length := by omega
    have hmem : k.regs[i] ∈ k.regs.take p.input :=
      List.mem_take_iff_getElem.mpr ⟨i, by omega, rfl⟩
    rw [statusAt_of_getElem? (List.getElem?_eq_getElem hlt), h _ hmem]
  · intro h r hr
    obtain ⟨i, hi, rfl⟩ := List.mem_take_iff_getElem.mp hr
    have hlt : i < k.regs.length := by omega
    have hfin := h i (by omega)
    rw [statusAt_of_getElem? (List.getElem?_eq_getElem hlt)] at hfin
    exact Option.some.inj hfin

theorem outputReady_iff :
    k.outputReady = true ↔ ∀ i < k.regs.length, k.statusAt i = some .dataFinish := by
  simp only [outputReady, List.all_eq_true, decide_eq_true_eq]
  constructor
  · intro h i hi
    rw [statusAt_of_getElem? (List.getElem?_eq_getElem hi), h _ (List.getElem_mem hi)]
  · intro h r hr
    obtain ⟨i, hi, rfl⟩ := List.mem_iff_getElem.mp hr
    have hfin := h i hi
    rw [statusAt_of_getElem? (List.getElem?_eq_getElem hi)] at hfin
    exact Option.some.inj hfin

theorem outputReady_eq_false {i : ℕ} {s : DataStatus} (hi : k.statusAt i = some s)
    (hs : s ≠ .dataFinish) : k.outputReady = false := by
  rw [Bool.eq_false_iff]
  intro hall
  rw [outputReady_iff.mp hall i (lt_of_statusAt hi)] at hi
  exact hs (Option.some.inj hi).symm

/-- The register that is sent next waits to be sent. -/
theorem statusAt_locateLatest {r : Reg} (h : k.regs[k.locateLatest]? = some r) :
    k.statusAt k.locateLatest = some .dataReady := by
  have hready := List.findIdx_of_getElem?_eq_some h
  rw [statusAt_of_getElem? h]
  simpa using hready

/-! ### The clock -/

theorem curTick_add_le_clockEdge (k : PIMKernel) :
    k.curTick + p.clockPeriod ≤ k.clockEdge p 1 := by
  have hpos := p.clockPeriod_pos
  have hdiv := Nat.div_add_mod (k.curTick + p.clockPeriod - 1) p.clockPeriod
  have hmod := Nat.mod_lt (k.curTick + p.clockPeriod - 1) hpos
  unfold clockEdge
  rw [Nat.add_mul, Nat.one_mul, Nat.mul_comm]
  omega

theorem curTick_le_clockEdge (k : PIMKernel) (n : ℕ) : k.curTick ≤ k.clockEdge p n := by
  have hpos := p.clockPeriod_pos
  have hdiv := Nat.div_add_mod (k.curTick + p.clockPeriod - 1) p.clockPeriod
  have hmod := Nat.mod_lt (k.curTick + p.clockPeriod - 1) hpos
  unfold clockEdge
  rw [Nat.add_mul, Nat.mul_comm]
  have hle := Nat.zero_le (n * p.clockPeriod)
  omega

theorem dvd_clockEdge (k : PIMKernel) (n : ℕ) : p.clockPeriod ∣ k.clockEdge p n :=
  Nat.dvd_mul_left _ _

/-- At a clock edge, the next one is a period away. -/
theorem clockEdge_of_dvd (h : p.clockPeriod ∣ k.curTick) :
    k.clockEdge p 1 = k.curTick + p.clockPeriod := by
  obtain ⟨m, hm⟩ := h
  have hpos := p.clockPeriod_pos
  have hdiv : (k.curTick + p.clockPeriod - 1) / p.clockPeriod = m := by
    rw [hm, Nat.add_sub_assoc hpos, Nat.mul_add_div hpos,
      Nat.div_eq_of_lt (Nat.sub_lt hpos Nat.one_pos), Nat.add_zero]
  unfold clockEdge
  rw [hdiv, hm, Nat.add_mul, Nat.one_mul, Nat.mul_comm]

/-! ### Moves -/

/-- A response to a packet in flight is stored. -/
def receive (p : KernelParams) (k : PIMKernel) (n i : ℕ) (value : UInt64) : PIMKernel :=
  { k with
    inFlight := k.inFlight.eraseIdx n
    data := k.data.set i value
    regs := k.regs.modify i fun r => { r with status := .dataFinish }
    history := k.history ++ [.received i value]
    tickEvent := k.tickEvent.or (some (k.clockEdge p 1)) }

/-- A command's addresses are registered. -/
def register (k : PIMKernel) (addr : List UInt64) : PIMKernel :=
  { k with history := k.history ++ [.registered addr] }

/-- A command's addresses are stored. -/
def store (k : PIMKernel) (addr : List UInt64) : PIMKernel :=
  { k with
    regs := addr.map (⟨·, .dataReady⟩) ++ k.regs.drop addr.length
    status := .ready
    history := k.history ++ [.started addr] }

/-- The kernel has accesses to send or to wait for. -/
def Accessing (k : PIMKernel) : Prop := k.status = .ready ∨ k.status = .waitingResp

/-- The elementary moves of a kernel. -/
inductive Move (p : KernelParams) : PIMKernel → PIMKernel → Prop
  | advance {k : PIMKernel} (t : ℕ) (h : k.Possible (.advance t)) :
      Move p k { k with curTick := t }
  | clearTick {k : PIMKernel} (h : k.tickEvent = some k.curTick) :
      Move p k { k with tickEvent := none }
  | scheduleTick {k : PIMKernel} (h : k.needSchedule = true) (hf : k.finishEvent = none) :
      Move p k { k with tickEvent := some (k.clockEdge p 1) }
  | sendRead {k : PIMKernel} {i : ℕ} {r : Reg} (h : k.Accessing) (hi : i < p.input)
      (hr : k.regs[i]? = some r) (hready : r.status = .dataReady) :
      Move p k (k.send ⟨true, r.addr, i, 0⟩)
  | refuseRead {k : PIMKernel} {i : ℕ} {r : Reg} (h : k.Accessing) (hi : i < p.input)
      (hr : k.regs[i]? = some r) (hready : r.status = .dataReady) :
      Move p k (k.refuse ⟨true, r.addr, i, 0⟩)
  | scheduleCompute {k : PIMKernel} {i : ℕ} (h : k.Accessing)
      (hready : k.statusAt i = some .dataReady) (hin : k.inputReady p = true) :
      Move p k { k with computeEvent := k.computeEvent.or (some (k.clockEdge p p.latency)) }
  | allFinish {k : PIMKernel} (h : k.Accessing) (hout : k.outputReady = true) :
      Move p k { k with status := .finish }
  | scheduleFinish {k : PIMKernel} (h : k.status = .finish) (ht : k.tickEvent = none) :
      Move p k { k with finishEvent := some (k.clockEdge p 1) }
  | sendWrite {k : PIMKernel} {i : ℕ} {r : Reg} {v : UInt64}
      (h : k.computeEvent = some k.curTick) (hv : k.doCompute p = .ok v) (hr : k.regs[i]? = some r)
      (hready : r.status = .dataReady) :
      Move p k ({ k with computeEvent := none }.send ⟨false, r.addr, i, v⟩)
  | refuseWrite {k : PIMKernel} {i : ℕ} {r : Reg} {v : UInt64}
      (h : k.computeEvent = some k.curTick) (hv : k.doCompute p = .ok v) (hr : k.regs[i]? = some r)
      (hready : r.status = .dataReady) :
      Move p k { k.refuse ⟨false, r.addr, i, v⟩ with computeEvent := some (k.clockEdge p 1) }
  | complete {k : PIMKernel} {r0 r1 r2 : Reg} (h : k.finishEvent = some k.curTick)
      (hr0 : k.regs[0]? = some r0) (hr1 : k.regs[1]? = some r1) (hr2 : k.regs[2]? = some r2) :
      Move p k { k with
        finishEvent := none
        status := .idle
        history := k.history ++ [.completed [r0.addr, r1.addr, r2.addr]] }

/-! ### Sound kernels -/

/-- How the registers, the packets in flight and the scheduled events of a kernel fit together. -/
structure Sound (p : KernelParams) (k : PIMKernel) : Prop where
  regs_length : k.regs.length = p.input + p.output
  data_length : k.data.length = p.input + p.output
  active : k.status ≠ .poweroff
  nodup : (k.inFlight.map (·.pkt.procid)).Nodup
  flying : ∀ i, k.statusAt i = some .dataWaitingResp ↔ i ∈ k.inFlight.map (·.pkt.procid)
  since_le : ∀ f ∈ k.inFlight, f.since ≤ k.curTick
  reads : ∀ f ∈ k.inFlight, (f.pkt.isRead = true ↔ f.pkt.procid < p.input)
  retry : k.status = .sendRetry → ∃ pkt, k.retry_pkt = some pkt ∧
    k.regs[pkt.procid]? = some ⟨pkt.addr, .dataReady⟩ ∧ (pkt.isRead = true ↔ pkt.procid < p.input)
  finished : k.status = .finish → ∀ i < k.regs.length, k.statusAt i = some .dataFinish
  resting : k.status = .idle → k.tickEvent = none ∧ k.computeEvent = none ∧ k.finishEvent = none ∧
    ∀ i, k.statusAt i ≠ some .dataReady ∧ k.statusAt i ≠ some .dataWaitingResp
  computing : ∀ c ∈ k.computeEvent, ∀ i < p.input, k.statusAt i = some .dataFinish
  finishing : ∀ f ∈ k.finishEvent, k.status = .finish ∧ k.tickEvent = none
  tick_le : ∀ t ∈ k.tickEvent, k.curTick ≤ t
  compute_le : ∀ c ∈ k.computeEvent, k.curTick ≤ c
  finish_le : ∀ f ∈ k.finishEvent, k.curTick ≤ f
  aligned : ∀ c ∈ k.computeEvent, p.clockPeriod ∣ c
  retry_near : k.status = .sendRetry → ∀ c ∈ k.computeEvent, c ≤ k.curTick + p.clockPeriod
  /-- A computation that has nothing left to write is over before the kernel can finish. -/
  stale : ∀ c ∈ k.computeEvent, (∀ i, k.statusAt i ≠ some .dataReady) →
    c < k.curTick + p.clockPeriod ∨ ∃ f ∈ k.inFlight, c ≤ f.since + p.clockPeriod
  before : ∀ c ∈ k.computeEvent, ∀ f ∈ k.finishEvent, c < f

theorem sound_create (p : KernelParams) : Sound p (create p) where
  regs_length := List.length_replicate
  data_length := List.length_replicate
  active := nofun
  nodup := List.nodup_nil
  flying i := by
    constructor
    · intro h
      obtain ⟨r, hr, hs⟩ := Option.map_eq_some_iff.mp h
      rw [(List.mem_replicate.mp (List.mem_of_getElem? hr)).2] at hs
      cases hs
    · intro h
      cases h
  since_le := nofun
  reads := nofun
  retry := nofun
  finished := nofun
  resting _ := by
    refine ⟨rfl, rfl, rfl, fun i => ?_⟩
    constructor <;> intro h <;> obtain ⟨r, hr, hs⟩ := Option.map_eq_some_iff.mp h <;>
      rw [(List.mem_replicate.mp (List.mem_of_getElem? hr)).2] at hs <;> cases hs
  computing := nofun
  finishing := nofun
  tick_le := nofun
  compute_le := nofun
  finish_le := nofun
  aligned := nofun
  retry_near := nofun
  stale := nofun
  before := nofun

namespace Sound

/-- A register that waits to be sent. -/
theorem not_idle {i : ℕ} (h : Sound p k) (hi : k.statusAt i = some .dataReady) :
    k.status ≠ .idle := fun hidle => ((h.resting hidle).2.2.2 i).1 hi

theorem not_finish {i : ℕ} {s : DataStatus} (h : Sound p k) (hi : k.statusAt i = some s)
    (hs : s ≠ .dataFinish) : k.status ≠ .finish := by
  intro hfin
  rw [h.finished hfin i (lt_of_statusAt hi)] at hi
  exact hs (Option.some.inj hi).symm

theorem finishEvent_eq_none (h : Sound p k) (hs : k.status ≠ .finish) : k.finishEvent = none := by
  cases hf : k.finishEvent with
  | none => rfl
  | some f => exact absurd (h.finishing f hf).1 hs

/-- No computation is scheduled while an input waits. -/
theorem computeEvent_eq_none {i : ℕ} (h : Sound p k) (hi : i < p.input)
    (hs : k.statusAt i ≠ some .dataFinish) : k.computeEvent = none := by
  cases hc : k.computeEvent with
  | none => rfl
  | some c => exact absurd (h.computing c hc i hi) hs

/-- What a computation writes is an output. -/
theorem output_of_compute {c : ℕ} (h : Sound p k) (hc : k.computeEvent = some c)
    (hready : k.statusAt pkt.procid = some .dataReady) (hwrite : pkt.isRead = false) :
    pkt.isRead = true ↔ pkt.procid < p.input := by
  rw [hwrite]
  refine ⟨nofun, fun hi => ?_⟩
  rw [h.computing c hc _ hi] at hready
  cases hready

theorem waiting_of_flight {n : ℕ} {f : Flight} (h : Sound p k) (hf : k.inFlight[n]? = some f) :
    k.statusAt f.pkt.procid = some .dataWaitingResp :=
  (h.flying _).mpr (List.mem_map_of_mem (List.mem_of_getElem? hf))

theorem inFlight_eq_nil (h : Sound p k) (hs : ∀ i, k.statusAt i ≠ some .dataWaitingResp) :
    k.inFlight = [] := by
  by_contra hne
  obtain ⟨f, hf⟩ := List.exists_mem_of_ne_nil _ hne
  exact hs _ ((h.flying f.pkt.procid).mpr (List.mem_map_of_mem hf))

/-- **A packet is accepted.** -/
theorem send (h : Sound p k) (hready : k.statusAt pkt.procid = some .dataReady)
    (hread : pkt.isRead = true ↔ pkt.procid < p.input)
    (hcompute : ∀ c ∈ k.computeEvent, c ≤ k.curTick + p.clockPeriod) : Sound p (k.send pkt) := by
  have hstatus (i : ℕ) : (k.send pkt).statusAt i =
      if i = pkt.procid then some .dataWaitingResp else k.statusAt i := by
    rw [statusAt_send]
    split_ifs with hi
    · rw [hi, hready]
      rfl
    · rfl
  -- A register is in flight exactly while its status waits, and this one is still ready to be sent.
  have hfresh : pkt.procid ∉ k.inFlight.map (·.pkt.procid) := by
    intro hmem
    rw [(h.flying _).mpr hmem] at hready
    cases hready
  have hflights : (k.send pkt).inFlight.map (·.pkt.procid) =
      k.inFlight.map (·.pkt.procid) ++ [pkt.procid] := by
    simp [PIMKernel.send]
  -- No end is scheduled while a register has not finished.
  have hnone := h.finishEvent_eq_none (h.not_finish hready (by decide))
  refine { h with
    regs_length := ?_, active := nofun, nodup := ?_, flying := ?_, since_le := ?_, reads := ?_,
    retry := nofun, finished := nofun, resting := nofun, computing := ?_, finishing := ?_,
    retry_near := nofun, stale := ?_ }
  · rw [← h.regs_length]
    exact List.length_modify ..
  · rw [hflights]
    exact h.nodup.append (List.nodup_singleton _) (by simpa using hfresh)
  · intro i
    rw [hstatus, hflights, List.mem_append, List.mem_singleton, ← h.flying i]
    split_ifs with hi
    · simp [hi]
    · simp [hi]
  · intro f hf
    rcases List.mem_append.mp hf with hf | hf
    · exact h.since_le f hf
    · rw [List.mem_singleton.mp hf]
      exact Nat.le_refl _
  · intro f hf
    rcases List.mem_append.mp hf with hf | hf
    · exact h.reads f hf
    · rw [List.mem_singleton.mp hf]
      exact hread
  · intro c hc i hi
    have hfin := h.computing c hc i hi
    rw [hstatus, if_neg]
    · exact hfin
    · rintro rfl
      rw [hfin] at hready
      cases hready
  · intro f hf
    replace hf : f ∈ k.finishEvent := hf
    rw [hnone] at hf
    cases hf
  · intro c hc _
    refine .inr ⟨⟨pkt, k.curTick⟩, ?_, hcompute c hc⟩
    exact List.mem_append_right _ List.mem_cons_self

/-- **The refused packet is accepted.** -/
theorem resend (h : Sound p k) (hs : k.status = .sendRetry)
    (hreg : k.regs[pkt.procid]? = some ⟨pkt.addr, .dataReady⟩)
    (hread : pkt.isRead = true ↔ pkt.procid < p.input) : Sound p (k.send pkt) :=
  h.send (statusAt_of_getElem? hreg) hread (h.retry_near hs)

/-- **A packet is refused.** -/
theorem refuse (h : Sound p k) (hreg : k.regs[pkt.procid]? = some ⟨pkt.addr, .dataReady⟩)
    (hread : pkt.isRead = true ↔ pkt.procid < p.input)
    (hcompute : ∀ c ∈ k.computeEvent, c ≤ k.curTick + p.clockPeriod) : Sound p (k.refuse pkt) := by
  have hnone := h.finishEvent_eq_none (h.not_finish (statusAt_of_getElem? hreg) nofun)
  refine { h with
    active := nofun, retry := fun _ => ⟨pkt, rfl, hreg, hread⟩, finished := nofun,
    resting := nofun, finishing := ?_, retry_near := fun _ => hcompute }
  intro f hf
  replace hf : f ∈ k.finishEvent := hf
  rw [hnone] at hf
  cases hf

/-- The computation is scheduled at a clock edge while an output waits to be sent. -/
theorem schedule {i c : ℕ} (h : Sound p k) (hready : k.statusAt i = some .dataReady)
    (hin : ∀ i < p.input, k.statusAt i = some .dataFinish) (hle : k.curTick ≤ c)
    (hdvd : p.clockPeriod ∣ c)
    (hnear : k.status = .sendRetry → c ≤ k.curTick + p.clockPeriod) :
    Sound p { k with computeEvent := some c } := by
  have hnone := h.finishEvent_eq_none (h.not_finish hready (by decide))
  refine { h with
    resting := fun hidle => absurd hidle (h.not_idle hready)
    computing := fun _ _ => hin
    compute_le := ?_, aligned := ?_, retry_near := ?_
    stale := fun _ _ hall => absurd hready (hall i), before := ?_ }
  · intro c' hc'
    cases hc'
    exact hle
  · intro c' hc'
    cases hc'
    exact hdvd
  · intro hs c' hc'
    cases hc'
    exact hnear hs
  · intro c' _ f hf
    replace hf : f ∈ k.finishEvent := hf
    rw [hnone] at hf
    cases hf

/-- The computation is taken off the queue. -/
theorem clearCompute (h : Sound p k) : Sound p { k with computeEvent := none } :=
  { h with
    resting := fun hidle => ⟨(h.resting hidle).1, rfl, (h.resting hidle).2.2⟩
    computing := nofun
    compute_le := nofun
    aligned := nofun
    retry_near := fun _ => nofun
    stale := nofun
    before := nofun }

/-- **A response** to a packet in flight. -/
theorem receive {n : ℕ} {f : Flight} {value : UInt64} (h : Sound p k)
    (hf : k.inFlight[n]? = some f) (hsince : f.since < k.curTick) :
    Sound p (k.receive p n f.pkt.procid value) := by
  have hlt : n < k.inFlight.length := (List.getElem?_eq_some_iff.mp hf).1
  have hmem : f ∈ k.inFlight := List.mem_of_getElem? hf
  have hwaiting := h.waiting_of_flight hf
  have hstatus (i : ℕ) : (k.receive p n f.pkt.procid value).statusAt i =
      if i = f.pkt.procid then some .dataFinish else k.statusAt i := by
    refine (statusAt_modify k f.pkt.procid .dataFinish i).trans ?_
    split_ifs with hi
    · rw [hi, hwaiting]
      rfl
    · rfl
  have hready (i : ℕ) (hi : k.statusAt i = some .dataReady) :
      (k.receive p n f.pkt.procid value).statusAt i = some .dataReady := by
    rw [hstatus, if_neg]
    · exact hi
    · rintro rfl
      rw [hwaiting] at hi
      cases hi
  have hfin (i : ℕ) (hi : k.statusAt i = some .dataFinish) :
      (k.receive p n f.pkt.procid value).statusAt i = some .dataFinish := by
    rw [hstatus]
    split_ifs
    · rfl
    · exact hi
  have hnone := h.finishEvent_eq_none (h.not_finish hwaiting (by decide))
  have hflights : (k.inFlight.eraseIdx n).map (·.pkt.procid) =
      (k.inFlight.map (·.pkt.procid)).erase f.pkt.procid := by
    have hn : n < (k.inFlight.map (·.pkt.procid)).length := by simpa using hlt
    have hget : (k.inFlight.map (·.pkt.procid))[n] = f.pkt.procid := by
      rw [List.getElem_map, (List.getElem?_eq_some_iff.mp hf).2]
    rw [← List.eraseIdx_map, ← h.nodup.erase_getElem n hn, hget]
  refine { h with
    regs_length := ?_, data_length := ?_, nodup := ?_, flying := ?_, since_le := ?_, reads := ?_,
    retry := ?_, finished := ?_, resting := ?_, computing := ?_, finishing := ?_, tick_le := ?_,
    stale := ?_ }
  · rw [← h.regs_length]
    exact List.length_modify ..
  · rw [← h.data_length]
    exact List.length_set
  · exact hflights ▸ h.nodup.erase _
  · intro i
    have hmem : i ∈ (k.inFlight.eraseIdx n).map (·.pkt.procid) ↔
        i ≠ f.pkt.procid ∧ k.statusAt i = some .dataWaitingResp := by
      rw [hflights, h.nodup.mem_erase_iff, h.flying i]
    refine Iff.trans ?_ hmem.symm
    rw [hstatus]
    split_ifs with hi
    · simp [hi]
    · simp [hi]
  · intro g hg
    exact h.since_le g (List.mem_of_mem_eraseIdx hg)
  · intro g hg
    exact h.reads g (List.mem_of_mem_eraseIdx hg)
  · intro hs
    obtain ⟨pkt, hpkt, hreg, hread⟩ := h.retry hs
    refine ⟨pkt, hpkt, ?_, hread⟩
    have hne : f.pkt.procid ≠ pkt.procid := by
      intro heq
      rw [heq, statusAt_of_getElem? hreg] at hwaiting
      cases hwaiting
    exact (List.getElem?_modify_ne _ _ hne).trans hreg
  · intro hs
    exact absurd hs (h.not_finish hwaiting (by decide))
  · intro hs
    exact absurd hwaiting ((h.resting hs).2.2.2 _).2
  · intro c hc i hi
    exact hfin i (h.computing c hc i hi)
  · intro g hg
    replace hg : g ∈ k.finishEvent := hg
    rw [hnone] at hg
    cases hg
  · intro t ht
    replace ht : t ∈ k.tickEvent.or (some (k.clockEdge p 1)) := ht
    cases htick : k.tickEvent with
    | none =>
      rw [htick] at ht
      cases ht
      exact curTick_le_clockEdge k 1
    | some t' =>
      rw [htick] at ht
      cases ht
      exact h.tick_le t htick
  · intro c hc hall
    have hall' (i : ℕ) : k.statusAt i ≠ some .dataReady := fun hi => hall i (hready i hi)
    rcases h.stale c hc hall' with hlt' | ⟨g, hg, hcg⟩
    · exact .inl hlt'
    · rcases eq_or_ne g f with rfl | hne
      · -- The last packet is answered after the tick it was accepted at.
        refine .inl (show c < k.curTick + p.clockPeriod from ?_)
        omega
      · refine .inr ⟨g, ?_, hcg⟩
        obtain ⟨m, hm⟩ := List.mem_iff_getElem?.mp hg
        refine List.mem_eraseIdx_iff_getElem?.mpr ⟨m, ?_, hm⟩
        rintro rfl
        rw [hf] at hm
        exact hne (Option.some.inj hm).symm

/-- **A command** is registered. -/
theorem register (h : Sound p k) (addr : List UInt64) : Sound p (k.register addr) := { h with }

/-- **A command** begins. -/
theorem store {addr : List UInt64} (h : Sound p k) (hs : k.status = .idle)
    (hlen : addr.length = k.regs.length) : Sound p (k.store addr) := by
  obtain ⟨htick, hcompute, hfinish, hregs⟩ := h.resting hs
  have hstatus (i : ℕ) (hi : i < k.regs.length) :
      (k.store addr).statusAt i = some .dataReady := by
    have hi' : i < (addr.map fun a => (⟨a, .dataReady⟩ : Reg)).length := by simpa [hlen] using hi
    have hget : (k.store addr).regs[i]? =
        (addr.map fun a => (⟨a, .dataReady⟩ : Reg))[i]? := List.getElem?_append_left hi'
    rw [List.getElem?_eq_getElem hi'] at hget
    rw [statusAt_of_getElem? hget, List.getElem_map]
  have hregsLength : (k.store addr).regs.length = k.regs.length := by
    simp [PIMKernel.store, hlen]
  have hnothing (i : ℕ) : k.statusAt i ≠ some .dataWaitingResp := (hregs i).2
  have hflight := h.inFlight_eq_nil hnothing
  refine { h with
    regs_length := hregsLength.trans h.regs_length, active := nofun, flying := fun i => ?_,
    retry := nofun, finished := nofun, resting := nofun, computing := ?_, finishing := ?_,
    retry_near := nofun, stale := ?_ }
  · constructor
    · intro hi
      rw [hstatus i (hregsLength ▸ lt_of_statusAt hi)] at hi
      cases hi
    · intro hi
      replace hi : i ∈ k.inFlight.map (·.pkt.procid) := hi
      rw [hflight] at hi
      cases hi
  · intro c hc
    replace hc : c ∈ k.computeEvent := hc
    rw [hcompute] at hc
    cases hc
  · intro f hf
    replace hf : f ∈ k.finishEvent := hf
    rw [hfinish] at hf
    cases hf
  · intro c hc
    replace hc : c ∈ k.computeEvent := hc
    rw [hcompute] at hc
    cases hc

/-- **Every move keeps a kernel sound.** -/
theorem move (h : Sound p k) (hm : Move p k k') : Sound p k' := by
  cases hm with
  | advance t ht =>
    obtain ⟨hle, htick, hcompute, hfinish⟩ := ht
    refine { h with
      since_le := fun f hf => Nat.le_trans (h.since_le f hf) hle
      tick_le := htick, compute_le := hcompute, finish_le := hfinish
      retry_near := fun hs c hc => Nat.le_trans (h.retry_near hs c hc) (Nat.add_le_add_right hle _)
      stale := fun c hc hall => ?_ }
    rcases h.stale c hc hall with hlt | hflight
    · exact .inl (Nat.lt_of_lt_of_le hlt (Nat.add_le_add_right hle _))
    · exact .inr hflight
  | clearTick ht =>
    exact { h with
      resting := fun hs => ⟨rfl, (h.resting hs).2⟩
      finishing := fun f hf => ⟨(h.finishing f hf).1, rfl⟩
      tick_le := nofun }
  | scheduleTick hs hf =>
    refine { h with
      resting := fun hidle => ?_, finishing := fun f hf' => ?_, tick_le := fun t ht => ?_ }
    · simp [needSchedule, show k.status = .idle from hidle] at hs
    · replace hf' : f ∈ k.finishEvent := hf'
      rw [hf] at hf'
      cases hf'
    · cases ht
      exact curTick_le_clockEdge k 1
  | sendRead hs hi hr hready =>
    have hstatus := (statusAt_of_getElem? hr).trans (congrArg some hready)
    have hnone := h.computeEvent_eq_none hi (by rw [hstatus]; nofun)
    exact h.send hstatus (by simpa using hi) (by rw [hnone]; nofun)
  | refuseRead hs hi hr hready =>
    have hstatus := (statusAt_of_getElem? hr).trans (congrArg some hready)
    have hnone := h.computeEvent_eq_none hi (by rw [hstatus]; nofun)
    refine h.refuse ?_ (by simpa using hi) (by rw [hnone]; nofun)
    rw [hr, ← hready]
  | scheduleCompute hs hready hin =>
    have hall := (inputReady_iff h.regs_length).mp hin
    cases hc : k.computeEvent with
    | none =>
      refine h.schedule hready hall (curTick_le_clockEdge k _) (dvd_clockEdge k _) fun hretry => ?_
      rcases hs with hs | hs <;> rw [hs] at hretry <;> cases hretry
    | some c =>
      have hsame := h
      rw [← show { k with computeEvent := some c } = k from by rw [← hc]] at hsame
      exact hsame
  | allFinish hs hout =>
    have hall := outputReady_iff.mp hout
    refine { h with
      active := nofun, retry := nofun, finished := fun _ => hall, resting := nofun,
      finishing := fun f hf => ⟨rfl, (h.finishing f hf).2⟩, retry_near := nofun }
  | scheduleFinish hs ht =>
    have hall := h.finished hs
    have hflight : k.inFlight = [] := h.inFlight_eq_nil fun i hi => by
      rw [hall i (lt_of_statusAt hi)] at hi
      cases hi
    refine { h with
      resting := fun hidle => ?_, finishing := fun f _ => ⟨hs, ht⟩, finish_le := fun f hf => ?_,
      before := fun c hc f hf => ?_ }
    · rw [show k.status = .idle from hidle] at hs
      cases hs
    · cases hf
      exact curTick_le_clockEdge k 1
    · cases hf
      have hedge := curTick_add_le_clockEdge (p := p) k
      have hnone (i : ℕ) (hi : k.statusAt i = some .dataReady) : False := by
        rw [hall i (lt_of_statusAt hi)] at hi
        cases hi
      rcases h.stale c hc hnone with hlt | ⟨f, hf, -⟩
      · omega
      · rw [hflight] at hf
        cases hf
  | @sendWrite i r v hc hv hr hready =>
    have hstatus := (statusAt_of_getElem? hr).trans (congrArg some hready)
    have hread : (⟨false, r.addr, i, v⟩ : Packet).isRead = true ↔ i < p.input :=
      h.output_of_compute hc hstatus rfl
    exact h.clearCompute.send hstatus hread nofun
  | @refuseWrite i r v hc hv hr hready =>
    have hstatus := (statusAt_of_getElem? hr).trans (congrArg some hready)
    have hin := h.computing _ hc
    have hdvd := h.aligned _ hc
    have hread : (⟨false, r.addr, i, v⟩ : Packet).isRead = true ↔ i < p.input :=
      h.output_of_compute hc hstatus rfl
    have hreg : k.regs[i]? = some ⟨r.addr, .dataReady⟩ := by rw [hr, ← hready]
    have hrefused : Sound p (PIMKernel.refuse { k with computeEvent := none }
        ⟨false, r.addr, i, v⟩) :=
      h.clearCompute.refuse hreg hread nofun
    refine hrefused.schedule hstatus hin (curTick_le_clockEdge k 1) (dvd_clockEdge k 1) fun _ => ?_
    rw [clockEdge_of_dvd hdvd]
    exact Nat.le_refl _
  | complete hf hr0 hr1 hr2 =>
    obtain ⟨hs, htick⟩ := h.finishing _ hf
    have hall := h.finished hs
    have hcompute : k.computeEvent = none := by
      cases hc : k.computeEvent with
      | none => rfl
      | some c =>
        -- The computation that is left over would have run before.
        have hlt := h.before c hc _ hf
        have hle := h.compute_le c hc
        omega
    refine { h with
      active := nofun, retry := nofun, finished := nofun
      resting := fun _ => ⟨htick, hcompute, rfl, fun i => ?_⟩
      finishing := nofun, finish_le := nofun, retry_near := nofun, before := fun _ _ => nofun }
    constructor <;> intro hi <;> replace hi : k.statusAt i = _ := hi <;>
      rw [hall i (lt_of_statusAt hi)] at hi <;> cases hi

end Sound

/-! ### The moves of an event -/

/-- A command that the kernel executes has one address for each register. -/
def Fits (p : KernelParams) (k : PIMKernel) : KernelEvent → Prop
  | .command addr _ => k.status = .idle → addr.length = p.input + p.output
  | _ => True

instance (p : KernelParams) (k : PIMKernel) : ∀ e, Decidable (Fits p k e)
  | .command addr _ =>
    inferInstanceAs (Decidable (k.status = .idle → addr.length = p.input + p.output))
  | .advance _ | .tick _ | .compute _ | .finish | .retry _ | .response _ _ => .isTrue trivial

/-- The state that several moves lead to. -/
abbrev Moves (p : KernelParams) : PIMKernel → PIMKernel → Prop := Relation.ReflTransGen (Move p)

theorem Sound.moves (h : Sound p k) (hm : Moves p k k') : Sound p k' := by
  induction hm with
  | refl => exact h
  | tail _ hm ih => exact ih.move hm

theorem scheduleTick_moves (p : KernelParams) (k : PIMKernel) : Moves p k (k.scheduleTick p) := by
  unfold scheduleTick
  split_ifs with h
  · exact .single (.scheduleTick h.1 h.2.2)
  · exact .refl

theorem sendRead_moves {accepts : Bool} (hacc : k.Accessing)
    (h : k.sendRead p accepts = .ok k') : k' = k ∧ p.input ≤ k.locateLatest ∨
      Move p k k' ∧ k.locateLatest < p.input ∧ k'.outputReady = false := by
  unfold sendRead at h
  dsimp only at h
  by_cases hlt : k.locateLatest < p.input
  · rw [if_pos hlt] at h
    obtain ⟨r, hr, h⟩ := Outcome.bind_eq_ok.mp h
    have hr := vectorAt_eq_ok.mp hr
    have hstatus := statusAt_of_getElem? hr
    have hready : r.status = .dataReady :=
      Option.some.inj (hstatus.symm.trans (statusAt_locateLatest hr))
    refine .inr ?_
    obtain rfl := Outcome.pure_eq_ok.mp h
    cases accepts with
    | true =>
      have hsent : (k.send ⟨true, r.addr, k.locateLatest, 0⟩).statusAt k.locateLatest =
          some .dataWaitingResp := by
        rw [statusAt_send, if_pos rfl, hstatus]
        rfl
      exact ⟨.sendRead hacc hlt hr hready, hlt, outputReady_eq_false hsent nofun⟩
    | false =>
      have hkept : (k.refuse ⟨true, r.addr, k.locateLatest, 0⟩).statusAt k.locateLatest =
          some r.status := hstatus
      refine ⟨.refuseRead hacc hlt hr hready, hlt, outputReady_eq_false hkept ?_⟩
      rw [hready]
      nofun
  · rw [if_neg hlt] at h
    obtain rfl := Outcome.pure_eq_ok.mp h
    exact .inl ⟨rfl, Nat.not_lt.mp hlt⟩

theorem access_moves {accepts : Bool} (hlen : k.regs.length = p.input + p.output)
    (hacc : k.Accessing) (h : k.access p accepts = .ok k') : Moves p k k' := by
  obtain ⟨k₁, hsend, h⟩ := Outcome.bind_eq_ok.mp h
  rcases sendRead_moves hacc hsend with ⟨rfl, hle⟩ | ⟨hmove, hlt, hnot⟩
  · split_ifs at h with hcompute hfin
    · obtain ⟨-, hlt, hin⟩ := hcompute
      cases h
      obtain ⟨r, hr⟩ : ∃ r, k₁.regs[k₁.locateLatest]? = some r :=
        ⟨_, List.getElem?_eq_getElem (hlen ▸ hlt)⟩
      exact .single (.scheduleCompute hacc (statusAt_locateLatest hr) hin)
    · cases h
      exact .single (.allFinish hacc hfin.2)
    · cases h
      exact .refl
  · have hcompute : ¬ (p.input ≤ k.locateLatest ∧ k.locateLatest < p.input + p.output ∧
        k₁.inputReady p = true) := fun hall => absurd hall.1 (Nat.not_le.mpr hlt)
    have hfin : ¬ (k₁.inputReady p = true ∧ k₁.outputReady = true) := by
      rw [hnot]
      simp
    rw [if_neg hcompute, if_neg hfin] at h
    cases h
    exact .single hmove

/-- A cycle of a busy kernel. -/
theorem tick_moves {accepts : Bool} (hlen : k.regs.length = p.input + p.output)
    (hbusy : k.status ≠ .idle) (htick : k.tickEvent = none) (h : k.tick p accepts = .ok k') :
    Moves p k k' := by
  obtain ⟨-, -, h⟩ := Outcome.bind_eq_ok.mp h
  obtain ⟨k₁, hk₁, h⟩ := Outcome.bind_eq_ok.mp h
  cases h
  refine .trans ?_ (scheduleTick_moves p k₁)
  unfold tickStatus at hk₁
  split at hk₁
  · cases hk₁
    exact .refl
  · cases hk₁
    exact .refl
  · next hs => exact access_moves hlen (.inl hs) hk₁
  · next hs => exact access_moves hlen (.inr hs) hk₁
  · next hs => exact absurd hs hbusy
  · next hs =>
    obtain ⟨-, -, hk₁⟩ := Outcome.bind_eq_ok.mp hk₁
    cases hk₁
    exact .single (.scheduleFinish hs htick)

/-- A computation writes its result, or the packet is refused. -/
theorem trycompute_moves {accepts : Bool} (hc : k.computeEvent = some k.curTick)
    (h : { k with computeEvent := none }.trycompute p accepts = .ok k') : Moves p k k' := by
  obtain ⟨v, hv, h⟩ := Outcome.bind_eq_ok.mp h
  obtain ⟨-, -, h⟩ := Outcome.bind_eq_ok.mp h
  obtain ⟨r, hr, h⟩ := Outcome.bind_eq_ok.mp h
  have hr : k.regs[k.locateLatest]? = some r := vectorAt_eq_ok.mp hr
  have hready : r.status = .dataReady :=
    Option.some.inj ((statusAt_of_getElem? hr).symm.trans (statusAt_locateLatest hr))
  have hv : k.doCompute p = .ok v := hv
  cases accepts with
  | true =>
    replace h : Except.ok ({ k with computeEvent := none }.send ⟨false, r.addr, k.locateLatest, v⟩) =
      Except.ok k' := h
    cases h
    exact .single (.sendWrite hc hv hr hready)
  | false =>
    replace h : Except.ok { k.refuse ⟨false, r.addr, k.locateLatest, v⟩ with
      computeEvent := some (k.clockEdge p 1) } = Except.ok k' := h
    cases h
    exact .single (.refuseWrite hc hv hr hready)

/-- **The moves of a response**: it is stored, and the last one ends the accesses. -/
theorem response_moves {n : ℕ} {f : Flight} {value : UInt64} (h : Sound p k)
    (hf : k.inFlight[n]? = some f) (hsince : f.since < k.curTick)
    (hresp : { k with inFlight := k.inFlight.eraseIdx n }.recvTimingResp p f.pkt.procid value =
      .ok k') : Moves p (k.receive p n f.pkt.procid value) k' := by
  have hwaiting := h.waiting_of_flight hf
  have hsound : Sound p (k.receive p n f.pkt.procid value) := h.receive hf hsince
  obtain ⟨k₁, hk₁, hresp⟩ := Outcome.bind_eq_ok.mp hresp
  obtain ⟨-, -, hk₁⟩ := Outcome.bind_eq_ok.mp hk₁
  obtain ⟨-, -, hk₁⟩ := Outcome.bind_eq_ok.mp hk₁
  obtain rfl := Outcome.pure_eq_ok.mp hk₁
  obtain rfl := Outcome.pure_eq_ok.mp hresp
  split_ifs with hall
  · refine .single (.allFinish ?_ hall.2)
    have hdone (i : ℕ) (hi : i < (k.receive p n f.pkt.procid value).regs.length) :
        (k.receive p n f.pkt.procid value).statusAt i = some .dataFinish :=
      outputReady_iff.mp hall.2 i hi
    -- A refused packet's register would still wait.
    cases hs : k.status with
    | ready => exact .inl hs
    | waitingResp => exact .inr hs
    | idle => exact absurd hwaiting ((h.resting hs).2.2.2 _).2
    | finish => exact absurd hs (h.not_finish hwaiting (by decide))
    | poweroff => exact absurd hs h.active
    | sendRetry =>
      obtain ⟨pkt, -, hreg, -⟩ := hsound.retry hs
      have hready := statusAt_of_getElem? hreg
      have hfin := hdone _ (lt_of_statusAt hready)
      rw [hready] at hfin
      cases hfin
  · exact .refl

/-- **The moves of a retry**: the packet is sent and a cycle scheduled, or it stays refused. -/
theorem retry_moves {accepts : Bool} (h : k.recvReqRetry p accepts = .ok k') :
    k.status = .sendRetry ∧ ∃ pkt, k.retry_pkt = some pkt ∧
      (accepts = true ∧ Moves p (k.send pkt) k' ∨ accepts = false ∧ k' = k) := by
  obtain ⟨_, hs, h⟩ := Outcome.bind_eq_ok.mp h
  have hs := assert_eq_ok.mp hs
  cases hpkt : k.retry_pkt with
  | none =>
    rw [hpkt] at h
    cases h
  | some pkt =>
    rw [hpkt] at h
    obtain ⟨-, -, h⟩ := Outcome.bind_eq_ok.mp h
    obtain rfl := Outcome.pure_eq_ok.mp h
    refine ⟨hs, pkt, rfl, ?_⟩
    cases accepts with
    | true => exact .inl ⟨rfl, scheduleTick_moves p _⟩
    | false =>
      refine .inr ⟨rfl, ?_⟩
      show k.scheduleTick p = k
      simp [scheduleTick, needSchedule, hs]

/-- **The moves of a command**: it is registered, and begins when the kernel is idle. -/
theorem command_moves {accepts : Bool} {addr : List UInt64} (h : Sound p k)
    (hfits : k.status = .idle → addr.length = p.input + p.output)
    (hstep : k.recvFunctional p accepts addr = .ok k') :
    k.status ≠ .idle ∧ k' = k.register addr ∨
      k.status = .idle ∧ addr.length = k.regs.length ∧
        Moves p ((k.register addr).store addr) k' := by
  replace hstep : (if !k.isActive || k.canModify then (k.register addr).start p accepts addr
    else pure (k.register addr)) = .ok k' := hstep
  by_cases hs : k.status = .idle
  · rw [if_pos (by simp [canModify, hs])] at hstep
    have hlen : addr.length = k.regs.length := (hfits hs).trans h.regs_length.symm
    unfold start at hstep
    have hle : ¬ (k.register addr).regs.length < addr.length :=
      Nat.not_lt.mpr (Nat.le_of_eq hlen)
    rw [if_neg hle] at hstep
    have hsound := (h.register addr).store hs hlen
    exact .inr ⟨hs, hlen, tick_moves hsound.regs_length nofun (h.resting hs).1 hstep⟩
  · rw [if_neg (by simp [canModify, isActive, hs, h.active])] at hstep
    exact .inl ⟨hs, (Outcome.pure_eq_ok.mp hstep).symm⟩

/-- The events that can happen, with one address for each register in a command that is executed. -/
def Served (p : KernelParams) (k : PIMKernel) (e : KernelEvent) : Prop := k.Possible e ∧ Fits p k e

instance (p : KernelParams) (k : PIMKernel) (e : KernelEvent) : Decidable (Served p k e) :=
  inferInstanceAs (Decidable (_ ∧ _))

/-- What an event does: it moves the kernel, begins or drops a command, sends the refused packet or
stores a response. -/
inductive StepCases (p : KernelParams) (k k' : PIMKernel) : KernelEvent → Prop
  | moves {e : KernelEvent} (h : Moves p k k') (hcommand : ∀ addr b, e ≠ .command addr b) :
      StepCases p k k' e
  | drop {addr : List UInt64} {accepts : Bool} (hs : k.status ≠ .idle) (h : k' = k.register addr) :
      StepCases p k k' (.command addr accepts)
  | start {addr : List UInt64} {accepts : Bool} (hs : k.status = .idle)
      (hlen : addr.length = k.regs.length) (h : Moves p ((k.register addr).store addr) k') :
      StepCases p k k' (.command addr accepts)
  | resend {pkt : Packet} (hs : k.status = .sendRetry) (hpkt : k.retry_pkt = some pkt)
      (hreg : k.regs[pkt.procid]? = some ⟨pkt.addr, .dataReady⟩)
      (hread : pkt.isRead = true ↔ pkt.procid < p.input) (h : Moves p (k.send pkt) k') :
      StepCases p k k' (.retry true)
  | receive {n : ℕ} {f : Flight} {value : UInt64} (hf : k.inFlight[n]? = some f)
      (hsince : f.since < k.curTick) (h : Moves p (k.receive p n f.pkt.procid
        (if f.pkt.isRead then value else f.pkt.data)) k') : StepCases p k k' (.response n value)

/-- **The moves of an event.** -/
theorem step_cases {e : KernelEvent} (h : Sound p k) (hserved : Served p k e)
    (hstep : step p k e = .ok k') : StepCases p k k' e := by
  obtain ⟨hposs, hfits⟩ := hserved
  cases e with
  | advance t =>
    cases hstep
    exact .moves (.single (.advance t hposs)) nofun
  | tick accepts =>
    refine .moves (.head (.clearTick hposs) (tick_moves h.regs_length ?_ rfl hstep)) nofun
    intro hidle
    have htick := (h.resting hidle).1
    rw [show k.tickEvent = some k.curTick from hposs] at htick
    cases htick
  | compute accepts => exact .moves (trycompute_moves hposs hstep) nofun
  | finish =>
    obtain ⟨-, -, hstep⟩ := Outcome.bind_eq_ok.mp hstep
    obtain ⟨r0, hr0, hstep⟩ := Outcome.bind_eq_ok.mp hstep
    obtain ⟨r1, hr1, hstep⟩ := Outcome.bind_eq_ok.mp hstep
    obtain ⟨r2, hr2, hstep⟩ := Outcome.bind_eq_ok.mp hstep
    cases hstep
    exact .moves (.single (.complete hposs (vectorAt_eq_ok.mp hr0) (vectorAt_eq_ok.mp hr1)
      (vectorAt_eq_ok.mp hr2))) nofun
  | command addr accepts =>
    rcases command_moves h hfits hstep with ⟨hs, hk'⟩ | ⟨hs, hlen, hmoves⟩
    · exact .drop hs hk'
    · exact .start hs hlen hmoves
  | retry accepts =>
    obtain ⟨hs, pkt, hpkt, ⟨rfl, hmoves⟩ | ⟨rfl, rfl⟩⟩ := retry_moves hstep
    · obtain ⟨pkt', hpkt', hreg, hread⟩ := h.retry hs
      obtain rfl : pkt = pkt' := Option.some.inj (hpkt.symm.trans hpkt')
      exact .resend hs hpkt hreg hread hmoves
    · exact .moves .refl nofun
  | response n value =>
    obtain ⟨f, hf, hsince⟩ := hposs
    have hf : k.inFlight[n]? = some f := hf
    unfold step at hstep
    simp only [hf] at hstep
    exact .receive hf hsince (response_moves h hf hsince hstep)

/-- **Every event keeps a kernel sound.** -/
theorem Sound.step {e : KernelEvent} (h : Sound p k) (hserved : Served p k e)
    (hstep : PIMKernel.step p k e = .ok k') : Sound p k' := by
  cases step_cases h hserved hstep with
  | moves hmoves _ => exact h.moves hmoves
  | drop _ hk' =>
    rw [hk']
    exact h.register _
  | start hs hlen hmoves => exact ((h.register _).store hs hlen).moves hmoves
  | resend hs _ hreg hread hmoves => exact (h.resend hs hreg hread).moves hmoves
  | receive hf hsince hmoves => exact (h.receive hf hsince).moves hmoves

/-! ### How an event stops the program -/

section Errors

variable {accepts : Bool} {f : Fault}

theorem access_error (h : k.access p accepts = .error f) : f = .outOfRange "tick" := by
  rcases Outcome.bind_eq_error.mp h with h | ⟨k₁, -, h⟩
  · unfold sendRead at h
    dsimp only at h
    by_cases hlt : k.locateLatest < p.input
    · rw [if_pos hlt] at h
      rcases Outcome.bind_eq_error.mp h with h | ⟨_, -, h⟩
      · exact (vectorAt_eq_error.mp h).2
      · exact absurd h Outcome.pure_ne_error
    · rw [if_neg hlt] at h
      exact absurd h Outcome.pure_ne_error
  · split_ifs at h <;> cases h

theorem tick_error (h : k.tick p accepts = .error f) : f = .assertion ∨ f = .outOfRange "tick" := by
  rcases Outcome.bind_eq_error.mp h with h | ⟨_, -, h⟩
  · exact .inl (assert_eq_error.mp h).2
  rcases Outcome.bind_eq_error.mp h with h | ⟨_, -, h⟩
  · unfold tickStatus at h
    cases hs : k.status with
    | sendRetry | poweroff =>
      rw [hs] at h
      cases h
    | ready | waitingResp =>
      rw [hs] at h
      exact .inr (access_error h)
    | idle | finish =>
      rw [hs] at h
      rcases Outcome.bind_eq_error.mp h with h | ⟨_, -, h⟩
      · exact .inl (assert_eq_error.mp h).2
      · cases h
  · cases h

theorem doCompute_error (h : k.doCompute p = .error f) :
    f = .outOfRange "doCompute" ∧ k.data.length < 2 ∨
      f = .divideByZero ∧ p.type = .divider ∧ k.data[1]? = some 0 := by
  have haccess {i : ℕ} (hi : i < 2) (h : vectorAt "doCompute" k.data i = .error f) :
      f = .outOfRange "doCompute" ∧ k.data.length < 2 :=
    ⟨(vectorAt_eq_error.mp h).2, Nat.lt_of_le_of_lt (vectorAt_eq_error.mp h).1 hi⟩
  unfold doCompute at h
  cases htype : p.type with
  | base =>
    rw [htype] at h
    cases h
  | adder | multiplier =>
    rw [htype] at h
    rcases Outcome.bind_eq_error.mp h with h | ⟨_, -, h⟩
    · exact .inl (haccess (by decide) h)
    · rcases Outcome.bind_eq_error.mp h with h | ⟨_, -, h⟩
      · exact .inl (haccess (by decide) h)
      · cases h
  | divider =>
    rw [htype] at h
    rcases Outcome.bind_eq_error.mp h with h | ⟨_, -, h⟩
    · exact .inl (haccess (by decide) h)
    rcases Outcome.bind_eq_error.mp h with h | ⟨divisor, hdivisor, h⟩
    · exact .inl (haccess (by decide) h)
    split_ifs at h with hzero
    · cases h
      subst hzero
      exact .inr ⟨rfl, rfl, vectorAt_eq_ok.mp hdivisor⟩
    · cases h

/-- A computation fails, or finds no register that waits for its result. -/
theorem trycompute_error (h : k.trycompute p accepts = .error f) :
    k.doCompute p = .error f ∨ f = .assertion ∨
      f = .outOfRange "trycompute" ∧ ∀ i, k.statusAt i ≠ some .dataReady := by
  rcases Outcome.bind_eq_error.mp h with h | ⟨_, -, h⟩
  · exact .inl h
  rcases Outcome.bind_eq_error.mp h with h | ⟨_, -, h⟩
  · exact .inr (.inl (assert_eq_error.mp h).2)
  rcases Outcome.bind_eq_error.mp h with h | ⟨_, -, h⟩
  · obtain ⟨hle, hf⟩ := vectorAt_eq_error.mp h
    refine .inr (.inr ⟨hf, fun i hi => ?_⟩)
    obtain ⟨r, hr, hready⟩ := Option.map_eq_some_iff.mp hi
    have hlt : k.locateLatest < k.regs.length :=
      List.findIdx_lt_length_of_exists ⟨r, List.mem_of_getElem? hr, by simpa using hready⟩
    omega
  · cases accepts <;> cases h

/-- **How an event stops the program**: apart from a computation, it fails an assertion, or accesses
the registers past their end in a function of its own. -/
theorem step_error {e : KernelEvent} (h : step p k e = .error f) :
    (∃ b, e = .compute b ∧ { k with computeEvent := none }.trycompute p b = .error f) ∨
      f = .assertion ∨ ∃ name ∈ ["tick", "start", "finish"], f = .outOfRange name := by
  cases e with
  | advance t => cases h
  | compute b => exact .inl ⟨b, rfl, h⟩
  | tick b =>
    rcases tick_error h with hf | hf
    · exact .inr (.inl hf)
    · exact .inr (.inr ⟨_, by simp, hf⟩)
  | finish =>
    rcases Outcome.bind_eq_error.mp h with h | ⟨_, -, h⟩
    · exact .inr (.inl (assert_eq_error.mp h).2)
    refine .inr (.inr ⟨"finish", by simp, ?_⟩)
    rcases Outcome.bind_eq_error.mp h with h | ⟨_, -, h⟩
    · exact (vectorAt_eq_error.mp h).2
    rcases Outcome.bind_eq_error.mp h with h | ⟨_, -, h⟩
    · exact (vectorAt_eq_error.mp h).2
    rcases Outcome.bind_eq_error.mp h with h | ⟨_, -, h⟩
    · exact (vectorAt_eq_error.mp h).2
    · cases h
  | command addr b =>
    -- A command that does not start the kernel cannot fail; one that does fails as a tick fails.
    replace h : k.recvFunctional p b addr = .error f := h
    unfold recvFunctional start at h
    dsimp only at h
    split_ifs at h
    · cases h
      exact .inr (.inr ⟨_, by simp, rfl⟩)
    · rcases tick_error h with hf | hf
      · exact .inr (.inl hf)
      · exact .inr (.inr ⟨_, by simp, hf⟩)
    · cases h
  | retry b =>
    refine .inr (.inl ?_)
    rcases Outcome.bind_eq_error.mp h with h | ⟨_, -, h⟩
    · exact (assert_eq_error.mp h).2
    cases hpkt : k.retry_pkt with
    | none =>
      rw [hpkt] at h
      cases h
      rfl
    | some pkt =>
      rw [hpkt] at h
      rcases Outcome.bind_eq_error.mp h with h | ⟨_, -, h⟩
      · exact (assert_eq_error.mp h).2
      · cases h
  | response n value =>
    refine .inr (.inl ?_)
    unfold step at h
    cases hf : k.inFlight[n]? with
    | none =>
      simp only [hf] at h
      cases h
    | some g =>
      simp only [hf] at h
      rcases Outcome.bind_eq_error.mp h with h | ⟨_, -, h⟩
      · rcases Outcome.bind_eq_error.mp h with h | ⟨_, -, h⟩
        · exact (assert_eq_error.mp h).2
        rcases Outcome.bind_eq_error.mp h with h | ⟨_, -, h⟩
        · exact (assert_eq_error.mp h).2
        · split_ifs at h <;> cases h
      · cases h

end Errors

end PIMSim.Gem5.PIMKernel
