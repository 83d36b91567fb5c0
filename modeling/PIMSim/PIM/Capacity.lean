import PIMSim.PIM.Tidy
import PIMSim.Procs.Capacity

/-!
# The capacities of the processors

The buffers of the host processors in a run of the system.

## Main definitions

* `Host.Bounded`, `System.Bounded`: every buffer keeps its size
* `Host.Spare`: the write-back queues have places for the flushes of some blocks
* `System.Roomy`: what a transition needs

## Main results

* `Host.Bounded.flush`, `Host.Bounded.callbacks`: flushes and callbacks of all processors
* `System.step_bounded`: a transition
-/

namespace PIMSim

open CSharp CacheArray Transition PIMSim.Core Buffers

variable {Obj : Type} {cfg : Config}

/-- The requests that wait at the memory side after a cycle were waiting before it. -/
theorem PIMMctrl.step_length {info : List (Region Obj)} {c c' : Coherence} {pimMctrl pimMctrl' : Controller}
    (hstep : PIMMctrl.step cfg info c pimMctrl = .ok (c', pimMctrl')) :
    pimMctrl'.waitQueue.length ≤ pimMctrl.waitQueue.length := by
  obtain ⟨⟨⟨c₁, queues⟩, waiting⟩, hscan, heq⟩ := Outcome.bind_eq_ok.mp hstep
  cases heq
  exact (Sweep.scan_sublist hscan).length_le

namespace Host

variable {host host' : Host}

/-- **Every processor keeps the sizes** of its buffers, and the controller that of its wait queue. -/
structure Bounded (cfg : Config) (host : Host) : Prop where
  procs : ∀ proc ∈ host.procs, Fits cfg 0 0 0 (host.core proc).buffers
  waiting : (host.world.mctrl.waitQueue.length : Int) ≤ cfg.crtlQueueMax

/-- A processor that keeps the sizes is put back. -/
theorem Bounded.put {i : ℕ} {c : Core} (h : host.Bounded cfg) (hc : Fits cfg 0 0 0 c.buffers) :
    (host.put i c).Bounded cfg where
  procs := by
    intro proc hproc
    rcases List.mem_or_eq_of_mem_set hproc with hproc | rfl
    · exact (h.procs proc hproc).shrink rfl rfl (Nat.le_refl _) hc.waiting
    · exact hc
  waiting := hc.waiting

/-! ### Callbacks -/

theorem not_mayQueue_of_hits {c : Core} {b : UInt64} (h : c.hitsShared cfg b = true) :
    ¬ c.MayQueue cfg b := by
  rintro ⟨-, -, hmiss, -⟩
  exact absurd (hmiss.symm.trans h) Bool.false_ne_true

/-- Callbacks of a block that the shared cache holds, or without a shared cache. -/
theorem Bounded.callbacks_quiet {fill : RequestType} {callback : CallBackInfo} {pids : List Int}
    (h : host.Bounded cfg)
    (hquiet : cfg.useCache = true → cfg.sharedCache = true →
      ∀ proc, (host.core proc).hitsShared cfg callback.blockAddr = true)
    (hcall : System.hostCallbacks (·.handleCallback cfg fill callback) pids host = .ok host') :
    host'.Bounded cfg := by
  induction pids generalizing host with
  | nil =>
    cases hcall
    exact h
  | cons pid pids ih =>
    obtain ⟨host₁, hone, hcall⟩ := Outcome.bind_eq_ok.mp hcall
    obtain ⟨-, proc, c, hproc, hback, rfl⟩ := Host.run_eq_ok.mp hone
    have hfits := h.procs proc (List.mem_of_getElem? hproc)
    have hnone : ¬ (host.core proc).MayQueue cfg callback.blockAddr := fun hmay =>
      not_mayQueue_of_hits (hquiet hmay.1 hmay.2.1 proc) hmay
    refine ih (h.put ((callback_fits hfits fun hmay => absurd hmay hnone).1 c hback)) ?_ hcall
    intro huse hshared _
    exact (callback_hit hback hshared fun huse => hquiet huse hshared proc).2 huse

/-- **The callbacks of a completion** keep the sizes when the first one does: the other ones find the
block in the shared cache. -/
theorem Bounded.callbacks {fill : RequestType} {callback : CallBackInfo} {pids : List Int}
    (h : host.Bounded cfg) (htidy : host.Tidy)
    (hfree : ∀ pid ∈ pids.head?, ∀ proc, host.procs[pid.toNat]? = some proc →
      (host.core proc).MayQueue cfg callback.blockAddr →
        (proc.writebackReq.length : Int) < cfg.writebackQueueSize)
    (hcall : System.hostCallbacks (·.handleCallback cfg fill callback) pids host = .ok host') :
    host'.Bounded cfg := by
  cases pids with
  | nil =>
    cases hcall
    exact h
  | cons pid pids =>
    obtain ⟨host₁, hone, hcall⟩ := Outcome.bind_eq_ok.mp hcall
    obtain ⟨-, proc, c, hproc, hback, rfl⟩ := Host.run_eq_ok.mp hone
    have hfits := h.procs proc (List.mem_of_getElem? hproc)
    have hc : Fits cfg 0 0 0 c.buffers := by
      refine (callback_fits hfits fun hmay => { hfits with writeback := ?_ }).1 c hback
      have hlt := hfree pid (by simp) proc hproc hmay
      have hsame : (host.core proc).buffers.writeback.length = proc.writebackReq.length := rfl
      omega
    refine (h.put hc).callbacks_quiet (fun huse hshared _ => ?_) hcall
    cases hhit : (host.core proc).hitsShared cfg callback.blockAddr with
    | true => exact (callback_hit hback hshared fun _ => hhit).2 huse
    | false =>
      exact (callback_miss hback hshared huse hhit htidy.marked (htidy.core hproc).l1).2

/-! ### Flushes -/

/-- The write-back queue of the processor `i` has places for the flushes of the blocks `blocks i`. -/
structure Spare (cfg : Config) (blocks : ℕ → List UInt64) (host : Host) : Prop where
  procs : ∀ i proc, host.procs[i]? = some proc →
    Fits cfg 0 0 ((host.core proc).flushCount cfg (blocks i)) (host.core proc).buffers
  waiting : (host.world.mctrl.waitQueue.length : Int) ≤ cfg.crtlQueueMax

theorem Spare.bounded {blocks : ℕ → List UInt64} (h : host.Spare cfg blocks) : host.Bounded cfg where
  procs := by
    intro proc hproc
    obtain ⟨i, hi⟩ := List.getElem?_of_mem hproc
    exact (h.procs i proc hi).mono (Nat.le_refl 0) (Nat.le_refl 0) (Nat.zero_le _)
  waiting := h.waiting

/-- The processor `i` is put back after a flush. -/
theorem Spare.put {blocks blocks' : ℕ → List UInt64} {i : ℕ} {proc : Proc} {c : Core}
    (h : host.Spare cfg blocks) (hproc : host.procs[i]? = some proc)
    (hsheds : (host.core proc).Sheds c)
    (hc : Fits cfg 0 0 ((host.core proc).flushCount cfg (blocks' i)) c.buffers)
    (hother : ∀ j, j ≠ i → blocks' j = blocks j) : (host.put i c).Spare cfg blocks' where
  procs := by
    intro j other hj
    have hlt := (List.getElem?_eq_some_iff.mp hproc).1
    by_cases hji : j = i
    · subst hji
      rw [Host.put, List.getElem?_set_self hlt] at hj
      cases hj
      exact hc.mono (Nat.le_refl 0) (Nat.le_refl 0) (hsheds.flushCount_le _)
    · rw [Host.put, List.getElem?_set_ne (Ne.symm hji)] at hj
      have hsheds' : (host.core other).Sheds ((host.put i c).core other) :=
        ⟨fun _ => id, hsheds.shared⟩
      rw [hother j hji]
      have hold := h.procs j other hj
      have hfits := hold.mono (Nat.le_refl 0) (Nat.le_refl 0) (hsheds'.flushCount_le (blocks j))
      exact hfits.shrink rfl rfl (Nat.le_refl _) hc.waiting
  waiting := hc.waiting

/-- **The flush of a block from all processors** uses up the places that are for it. -/
theorem Spare.flush {b : UInt64} {blocks : List UInt64} {actual r : Bool}
    (h : host.Spare cfg fun _ => b :: blocks)
    (hflush : Coherence.flush cfg host b actual = .ok (r, host')) :
    host'.Spare cfg fun _ => blocks := by
  have hloop : ∀ n i stall (host : Host), i + n = host.procs.length →
      (host.Spare cfg fun j => if j < i then blocks else b :: blocks) →
      Coherence.flushFrom cfg b actual n i stall host = .ok (r, host') →
      host'.Spare cfg fun _ => blocks := by
    -- Induction on the processors that are left: those below `i` have used up the place for the
    -- block.
    intro n
    induction n with
    | zero =>
      intro i stall host hn h hflush
      cases hflush
      refine ⟨fun j proc hj => ?_, h.waiting⟩
      have hlt := (List.getElem?_eq_some_iff.mp hj).1
      have hold := h.procs j proc hj
      rwa [if_pos (by omega)] at hold
    | succ n ih =>
      intro i stall host hn h hflush
      obtain ⟨⟨stall', host₁⟩, hone, hflush⟩ := Outcome.bind_eq_ok.mp hflush
      obtain ⟨-, proc, c, hproc, hflushed, rfl⟩ := Host.onProc_eq_ok.mp hone
      rw [Int.toNat_natCast] at hproc hflush
      have hlength : i + 1 + n = (host.put i c).procs.length := by
        rw [Host.put, List.length_set]
        omega
      refine ih (i + 1) stall' _ hlength ?_ hflush
      have hspare := h.procs i proc hproc
      rw [if_neg (Nat.lt_irrefl i)] at hspare
      have hle : (host.core proc).flushCount cfg blocks ≤
          (host.core proc).flushCount cfg (b :: blocks) := (List.sublist_cons_self b blocks).countP_le
      have hflushes : Yields ((host.core proc).flush cfg b actual) fun r =>
          Fits cfg 0 0 ((host.core proc).flushCount cfg blocks) r.2.buffers ∧
            (host.core proc).Sheds r.2 :=
        flush_fits (hspare.mono (Nat.le_refl 0) (Nat.le_refl 0) hle)
          fun hmay => flushCount_cons hmay blocks ▸ hspare
      obtain ⟨hfits, hsheds⟩ := hflushes.1 _ hflushed
      refine h.put hproc hsheds ?_ fun j hji => ?_
      · rw [if_pos (Nat.lt_succ_self i)]
        exact hfits
      · have hiff : j < i + 1 ↔ j < i := by omega
        simp only [hiff]
  refine hloop _ 0 true host (Nat.zero_add _) ?_ hflush
  simpa using h

/-- Fewer blocks are flushed. -/
theorem Spare.mono {blocks blocks' : List UInt64} (h : host.Spare cfg fun _ => blocks)
    (hsub : blocks'.Sublist blocks) : host.Spare cfg fun _ => blocks' where
  procs := fun i proc hproc =>
    (h.procs i proc hproc).mono (Nat.le_refl 0) (Nat.le_refl 0) hsub.countP_le
  waiting := h.waiting

/-- The blocks of the requests that are due in a cycle of a controller. -/
def dueBlocks (cfg : Config) (cycle : UInt64) (reqs : List ProcRequest) : List UInt64 :=
  (reqs.filter (Controller.due cfg cycle)).map (·.blockAddr)

/-- **A step of the memory side's controller** flushes the blocks of the requests that are due. -/
theorem Spare.pimStep {info : List (Region Obj)} {c c' : Coherence} {pimMctrl pimMctrl' : Controller}
    (h : c.host.Spare cfg fun _ => dueBlocks cfg (pimMctrl.cycle + 1) pimMctrl.waitQueue)
    (hstep : PIMMctrl.step cfg info c pimMctrl = .ok (c', pimMctrl')) : c'.host.Bounded cfg := by
  obtain ⟨⟨⟨c₁, queues⟩, waiting⟩, hscan, heq⟩ := Outcome.bind_eq_ok.mp hstep
  cases heq
  obtain ⟨vs, hvs, rfl⟩ := Sweep.scan_eq_ok.mp hscan
  have hrest := Sweep.visits_rest_rule (P := fun (s : Coherence × List (List MemRequest))
    reqs => s.1.host.Spare cfg fun _ => dueBlocks cfg (pimMctrl.cycle + 1) reqs) ?_ h hvs
  · exact hrest.bounded
  rintro ⟨c₂, queues₂⟩ req reqs ⟨c₃, queues₃⟩ fate hspare hvisit
  by_cases hdue : Controller.due cfg (pimMctrl.cycle + 1) req = true
  · dsimp only at hspare
    rw [dueBlocks, List.filter_cons_of_pos hdue, List.map_cons, ← dueBlocks] at hspare
    by_cases hmodel : cfg.consistencyModel = .spinLock
    · rcases PIMMctrl.visit_cases hmodel hvisit with ⟨hearly, -, -⟩ |
        ⟨-, lock, lock', flushed, host, -, -, hflush, hcase⟩
      · exact absurd hearly (by simp [hdue])
      · have hnext := hspare.flush hflush
        rcases hcase with ⟨-, hc, -⟩ | ⟨-, -, -, lock'', -, hc⟩ <;> cases hc <;> exact hnext
    · simp only [PIMMctrl.visit, if_pos hdue, if_neg hmodel] at hvisit
      cases hvisit
      exact hspare.mono (List.sublist_cons_self _ _)
  · simp only [PIMMctrl.visit, if_neg hdue] at hvisit
    cases hvisit
    dsimp only at hspare
    rw [dueBlocks, List.filter_cons_of_neg hdue, ← dueBlocks] at hspare
    exact hspare

/-- Changes outside the buffers. -/
theorem Bounded.congr (h : host.Bounded cfg) (hprocs : host'.procs = host.procs)
    (hmctrl : (host'.world.mctrl.waitQueue.length : Int) ≤ cfg.crtlQueueMax) :
    host'.Bounded cfg where
  procs := by
    intro proc hproc
    exact (h.procs proc (hprocs ▸ hproc)).shrink rfl rfl (Nat.le_refl _) hmctrl
  waiting := hmctrl

end Host

/-- The configured sizes are no negative numbers. -/
structure Config.Sized (cfg : Config) : Prop where
  registers : 0 ≤ cfg.mshrSize
  window : 0 ≤ cfg.insWSize
  writeback : 0 ≤ cfg.writebackQueueSize
  waiting : 0 ≤ cfg.crtlQueueMax

namespace System

variable {info : List (Region Obj)} {s s' : System}

/-- **Every buffer keeps its size**: those of the host processors and the wait queues of both
controllers. -/
structure Bounded (cfg : Config) (s : System) : Prop where
  host : s.coherence.host.Bounded cfg
  pimWaiting : (s.pimMctrl.waitQueue.length : Int) ≤ cfg.crtlQueueMax

/-- **What a transition needs to keep the sizes.** A cycle of a processor needs room for its request. A
callback that queues a write-back request, and a flush of a dirty block, need a place in the write-back
queue. -/
def Roomy (cfg : Config) (s : System) : Event → Prop
  | .procStep i => ∀ proc ∈ s.coherence.host.procs[i]?, (s.coherence.host.core proc).Room cfg
  | .complete k => ∀ req ∈ s.memory[k]?, req.pim = false → ∀ pid ∈ req.pid.head?,
      ∀ proc ∈ s.coherence.host.procs[pid.toNat]?,
        (s.coherence.host.core proc).MayQueue cfg req.blockAddr →
          (proc.writebackReq.length : Int) < cfg.writebackQueueSize
  | .flush addr _ => ∀ proc ∈ s.coherence.host.procs, (s.coherence.host.core proc).MayFlush cfg addr →
      (proc.writebackReq.length : Int) < cfg.writebackQueueSize
  | .pimMctrlStep => ∀ proc ∈ s.coherence.host.procs,
      (proc.writebackReq.length + (s.coherence.host.core proc).flushCount cfg
        (Host.dueBlocks cfg (s.pimMctrl.cycle + 1) s.pimMctrl.waitQueue) : Int) ≤
          cfg.writebackQueueSize
  | _ => True

instance (cfg : Config) (s : System) : ∀ e, Decidable (Roomy cfg s e)
  | .procStep i => inferInstanceAs (Decidable (∀ proc ∈ s.coherence.host.procs[i]?, _))
  | .complete k => inferInstanceAs (Decidable (∀ req ∈ s.memory[k]?, _ → ∀ pid ∈ req.pid.head?,
      ∀ proc ∈ s.coherence.host.procs[pid.toNat]?, _ → _))
  | .flush _ _ => inferInstanceAs (Decidable (∀ proc ∈ s.coherence.host.procs, _ → _))
  | .pimMctrlStep => inferInstanceAs (Decidable (∀ proc ∈ s.coherence.host.procs, _))
  | .mctrlStep | .pimAdd _ | .take _ | .takePim _ | .merge _ _ | .tick => .isTrue trivial

theorem bounded_init {P : Platform Obj} (hsized : cfg.Sized) (h : System.init cfg P = .ok s) :
    s.Bounded cfg := by
  have hhost := System.host_of_init h
  obtain ⟨coherence, -, heq⟩ := Outcome.bind_eq_ok.mp h
  cases heq
  refine ⟨?_, hsized.waiting⟩
  rw [hhost]
  refine ⟨fun proc hproc => ?_, hsized.waiting⟩
  obtain ⟨i, hi, rfl⟩ := List.mem_mapIdx.mp hproc
  exact ⟨hsized.registers, List.Pairwise.nil, hsized.window, rfl, hsized.writeback, hsized.waiting⟩

/-- The write-back queues have places for the flushes that are counted. -/
theorem Bounded.spare (h : s.Bounded cfg) {blocks : List UInt64}
    (hroom : ∀ proc ∈ s.coherence.host.procs, (proc.writebackReq.length +
      (s.coherence.host.core proc).flushCount cfg blocks : Int) ≤ cfg.writebackQueueSize) :
    s.coherence.host.Spare cfg fun _ => blocks where
  procs := by
    intro i proc hproc
    have hmem := List.mem_of_getElem? hproc
    exact { h.host.procs proc hmem with writeback := hroom proc hmem }
  waiting := h.host.waiting

/-- The callbacks of a completion. -/
theorem Bounded.callBack {req : MemRequest} {fill : RequestType} {callback : CallBackInfo}
    {onPim : Coherence → PIMProc → Outcome (Coherence × PIMProc)}
    (hone : ∀ c c' p p', onPim c p = .ok (c', p') → c'.host = c.host)
    (h : s.Bounded cfg) (htidy : s.coherence.host.Tidy)
    (hfree : req.pim = false → ∀ pid ∈ req.pid.head?,
      ∀ proc, s.coherence.host.procs[pid.toNat]? = some proc →
        (s.coherence.host.core proc).MayQueue cfg callback.blockAddr →
          (proc.writebackReq.length : Int) < cfg.writebackQueueSize)
    (hcall : s.callBack req (·.handleCallback cfg fill callback) onPim = .ok s') :
    s'.Bounded cfg := by
  unfold System.callBack at hcall
  by_cases hpim : req.pim = true
  · rw [if_pos hpim] at hcall
    obtain ⟨_, -, hcall⟩ := Outcome.bind_eq_ok.mp hcall
    obtain ⟨⟨coherence, units⟩, hunits, heq⟩ := Outcome.bind_eq_ok.mp hcall
    cases heq
    refine ⟨?_, h.pimWaiting⟩
    show coherence.host.Bounded cfg
    rw [show coherence.host = s.coherence.host from pimCallbacks_host hone hunits]
    exact h.host
  · rw [if_neg hpim] at hcall
    obtain ⟨_, -, hcall⟩ := Outcome.bind_eq_ok.mp hcall
    obtain ⟨host, hprocs, heq⟩ := Outcome.bind_eq_ok.mp hcall
    cases heq
    exact ⟨h.host.callbacks htidy (hfree (Bool.eq_false_iff.mpr hpim)) hprocs, h.pimWaiting⟩

/-- The record of a write changes no buffer. -/
theorem Bounded.written (h : s.Bounded cfg) (req : MemRequest) : (s.written req).Bounded cfg := by
  unfold System.written
  split_ifs
  · exact h
  · exact ⟨h.host.congr rfl h.host.waiting, h.pimWaiting⟩

/-- A completion. -/
theorem Bounded.finish {req : MemRequest} (h : s.Bounded cfg) (htidy : s.coherence.host.Tidy)
    (hfree : req.pim = false → ∀ pid ∈ req.pid.head?,
      ∀ proc, s.coherence.host.procs[pid.toNat]? = some proc →
        (s.coherence.host.core proc).MayQueue cfg req.blockAddr →
          (proc.writebackReq.length : Int) < cfg.writebackQueueSize)
    (hfinish : s.finish cfg info req = .ok s') : s'.Bounded cfg := by
  unfold System.finish at hfinish
  dsimp only at hfinish
  cases hmemtype : req.memtype <;> rw [hmemtype] at hfinish
  case read =>
    exact h.callBack (fun _ _ _ _ => PIMProc.readCallback_host) htidy hfree hfinish
  case write =>
    refine (h.written req).callBack (fun _ _ _ _ => PIMProc.writeCallback_host)
      (htidy.written req) (fun hpim pid hpid proc hproc => ?_) hfinish
    obtain ⟨hprocs, hworld⟩ := written_eq s req
    rw [hprocs] at hproc
    have hsame : (s.written req).coherence.host.core proc = s.coherence.host.core proc := by
      unfold Host.core
      rw [hworld]
    rw [hsame]
    exact hfree hpim pid hpid proc hproc
  case flush =>
    cases hfinish
    have hwritten := h.written req
    exact ⟨hwritten.host.congr rfl hwritten.host.waiting, hwritten.pimWaiting⟩
  case load => cases hfinish
  case store => cases hfinish
  case returnData =>
    cases hfinish
    exact h
  case null =>
    cases hfinish
    exact h

/-- A completion keeps to the requests that are held. -/
theorem Bounded.withMemory (h : s.Bounded cfg) (memory : List MemRequest) :
    { s with memory := memory }.Bounded cfg := ⟨h.host, h.pimWaiting⟩

/-- The controller of the host gives out or forwards a request. -/
theorem Bounded.withMctrl (h : s.Bounded cfg) {mctrl : Controller}
    (hwaiting : mctrl.waitQueue.length ≤ s.mctrl.waitQueue.length) :
    (s.withMctrl mctrl).Bounded cfg := by
  have hle := h.host.waiting
  refine ⟨h.host.congr rfl ?_, h.pimWaiting⟩
  have hold : s.mctrl = s.coherence.host.world.mctrl := rfl
  show (mctrl.waitQueue.length : Int) ≤ cfg.crtlQueueMax
  rw [hold] at hwaiting
  omega

/-- **A transition** keeps the sizes when it has the room. -/
theorem step_bounded {e : Event} (h : s.Bounded cfg) (htidy : s.coherence.host.Tidy)
    (hroomy : Roomy cfg s e) (hstep : System.step cfg info s e = .ok s') : s'.Bounded cfg := by
  cases e with
  | procStep i =>
    obtain ⟨host, hrun, heq⟩ := Outcome.bind_eq_ok.mp hstep
    cases heq
    obtain ⟨-, proc, c, hproc, hcycle, rfl⟩ := Host.run_eq_ok.mp hrun
    have hfits := h.host.procs proc (List.mem_of_getElem? hproc)
    exact ⟨h.host.put ((Core.step_fits (hroomy proc hproc) hfits).1 c hcycle), h.pimWaiting⟩
  | mctrlStep =>
    obtain ⟨mctrl, hcycle, heq⟩ := Outcome.bind_eq_ok.mp hstep
    cases heq
    exact h.withMctrl (Mctrl.step_length hcycle)
  | pimMctrlStep =>
    obtain ⟨⟨coherence, pimMctrl⟩, hcycle, heq⟩ := Outcome.bind_eq_ok.mp hstep
    cases heq
    refine ⟨(h.spare hroomy).pimStep hcycle, ?_⟩
    have hwaiting := h.pimWaiting
    have hlength := PIMMctrl.step_length hcycle
    show (pimMctrl.waitQueue.length : Int) ≤ cfg.crtlQueueMax
    omega
  | pimAdd req =>
    cases hstep
    exact ⟨h.host, Controller.length_addToMctrl req h.pimWaiting⟩
  | take pid =>
    obtain ⟨⟨req, mctrl⟩, hget, heq⟩ := Outcome.bind_eq_ok.mp hstep
    cases heq
    have hsame := Controller.getReq_waitQueue hget
    exact (h.withMctrl (le_of_eq (congrArg List.length hsame))).withMemory _
  | takePim pid =>
    obtain ⟨⟨req, pimMctrl⟩, hget, heq⟩ := Outcome.bind_eq_ok.mp hstep
    cases heq
    refine ⟨h.host, ?_⟩
    show (pimMctrl.waitQueue.length : Int) ≤ cfg.crtlQueueMax
    rw [Controller.getReq_waitQueue hget]
    exact h.pimWaiting
  | merge i j =>
    cases hstep
    unfold merge
    split
    · split_ifs
      · exact h.withMemory _
      · exact h
    · exact h
  | complete k =>
    simp only [System.step, complete] at hstep
    split at hstep
    · cases hstep
      exact h
    · next req hreq =>
      exact (h.withMemory (s.memory.eraseIdx k)).finish htidy (hroomy req hreq) hstep
  | flush addr actual =>
    obtain ⟨⟨stall, host⟩, hflush, heq⟩ := Outcome.bind_eq_ok.mp hstep
    cases heq
    -- A flush from outside makes at most one item for each processor.
    have hspare : s.coherence.host.Spare cfg fun _ => [addr] := by
      refine h.spare fun proc hproc => ?_
      have hfits := (h.host.procs proc hproc).writeback
      have hsame : (s.coherence.host.core proc).buffers.writeback.length =
        proc.writebackReq.length := rfl
      by_cases hmay : (s.coherence.host.core proc).MayFlush cfg addr
      · have hlt := hroomy proc hproc hmay
        rw [Core.flushCount_cons hmay]
        simp only [Core.flushCount, List.countP_nil]
        omega
      · simp only [Core.flushCount, List.countP_cons, List.countP_nil, decide_eq_true_iff, if_neg hmay]
        omega
    exact ⟨(hspare.flush hflush).bounded, h.pimWaiting⟩
  | tick =>
    cases hstep
    exact ⟨h.host.congr rfl h.host.waiting, h.pimWaiting⟩

end System

end PIMSim
