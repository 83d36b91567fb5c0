import PIMSim.Library.Queues
import PIMSim.PIM.System
import PIMSim.PIM.Traffic

/-!
# Mutual exclusion by the spin lock

The memory side's controller sets the lock of a request's page without a look at its state, and the
lock is handed back by the first completion, or by a flush that is not finished. The lock of a
request on its way stays set as long as the requests that the controller takes up have pages of
their own.

## Main definitions

* `Exclusive`: the locks of the requests on their way are set, each is one request's, and the host's
  controller forwards nothing of their pages
* `OwnPages`: the requests that a step of the memory side's controller takes up have pages of their
  own, among themselves and among the requests on their way

## Main results

* `exclusive_step`: a step with pages of their own keeps the exclusion
* `mutual_exclusion`: so does every run of such steps
-/

namespace PIMSim

open CSharp Sweep Transition Queues

variable {Obj : Type}

/-- No two of the addresses have one lock. -/
def Apart (info : List (Region Obj)) (size : UInt64) (addrs : List UInt64) : Prop :=
  (addrs.map (SpinLock.slot info size)).Nodup

/-- The addresses are locked. -/
def Guarded (info : List (Region Obj)) (lock : SpinLock) (addrs : List UInt64) : Prop :=
  ∀ a ∈ addrs, SpinLock.getLockState info lock a = .ok true

/-- **Mutual exclusion.** The locks of the requests on their way are set, none is the lock of two,
and the host's controller forwards no request of their pages. -/
structure Exclusive (cfg : Config) (info : List (Region Obj)) (s : System) : Prop where
  locked : ∀ a ∈ s.inFlight, ∃ lock, s.coherence.spinLock = some lock ∧
    SpinLock.getLockState info lock a = .ok true
  apart : Apart info cfg.pageSize s.inFlight
  host : ∀ c, Mctrl.step cfg info s.coherence.spinLock s.mctrl = .ok c →
    ∀ req ∈ s.mctrl.waitQueue, req ∉ c.waitQueue → ∀ a ∈ s.inFlight,
      SpinLock.slot info cfg.pageSize req.actualAddr ≠ SpinLock.slot info cfg.pageSize a

/-- The addresses of the requests that a step takes up. -/
def dueAddrs (cfg : Config) (cycle : UInt64) (reqs : List ProcRequest) : List UInt64 :=
  (reqs.filter (Controller.due cfg cycle)).map (·.actualAddr)

/-- A step of the memory side's controller takes up requests with locks of their own. -/
def OwnPages (cfg : Config) (info : List (Region Obj)) (s : System) : Event → Prop
  | .pimMctrlStep =>
    Apart info cfg.pageSize
      (dueAddrs cfg (s.pimMctrl.cycle + 1) s.pimMctrl.waitQueue ++ s.inFlight)
  | _ => True

instance (cfg : Config) (info : List (Region Obj)) (s : System) (e : Event) :
    Decidable (OwnPages cfg info s e) := by
  unfold OwnPages Apart
  split <;> infer_instance

/-! ### Locks -/

section Locks

variable {info : List (Region Obj)} {size : UInt64} {lock lock' : SpinLock} {addrs : List UInt64}

theorem Apart.perm {addrs' : List UInt64} (h : Apart info size addrs) (hp : addrs.Perm addrs') :
    Apart info size addrs' :=
  (hp.map _).nodup_iff.mp h

theorem Apart.sublist {addrs' : List UInt64} (h : Apart info size addrs)
    (hs : addrs'.Sublist addrs) : Apart info size addrs' :=
  List.Nodup.sublist (hs.map _) h

theorem Guarded.subset {addrs' : List UInt64} (h : Guarded info lock addrs)
    (hs : addrs' ⊆ addrs) : Guarded info lock addrs' := fun a ha => h a (hs ha)

/-- Setting a lock keeps what is locked, and locks the address. -/
theorem Guarded.setlock (h : Guarded info lock addrs) {addr : UInt64}
    (hset : SpinLock.setlock info lock addr = .ok lock') : Guarded info lock' (addr :: addrs) := by
  obtain ⟨-, p, hslot, hstate⟩ := SpinLock.setlock_spec hset
  intro a ha
  rw [hstate a]
  split_ifs with hp
  · rfl
  · rcases List.mem_cons.mp ha with rfl | ha
    · exact absurd hslot hp
    · exact h a ha

/-- Handing a lock back keeps the addresses with other locks locked. -/
theorem Guarded.releseLock (h : Guarded info lock addrs) {addr : UInt64}
    (hsize : lock.size = size) (hown : Apart info size (addr :: addrs))
    (hrelese : SpinLock.releseLock info lock addr = .ok lock') : Guarded info lock' addrs := by
  obtain ⟨-, p, hslot, hstate⟩ := SpinLock.releseLock_spec hrelese
  intro a ha
  rw [hstate a]
  split_ifs with hp
  · refine absurd (List.mem_map.mpr ⟨a, ha, ?_⟩) (List.nodup_cons.mp hown).1
    rw [← hsize, hslot, hp]
  · exact h a ha

end Locks

/-- There is a lock table, and the addresses are locked. -/
def Kept (cfg : Config) (info : List (Region Obj)) (addrs : List UInt64) (c : Coherence) : Prop :=
  ∃ lock, c.spinLock = some lock ∧ lock.size = cfg.pageSize ∧ Guarded info lock addrs

/-! ### The memory side's controller -/

/-- What the sweep keeps: the requests on their way are locked, and have pages of their own, also
among the requests still to take up. -/
structure Sweeping (cfg : Config) (info : List (Region Obj)) (cycle : UInt64)
    (memory : List MemRequest) (s : Coherence × List (List MemRequest))
    (reqs : List ProcRequest) : Prop where
  kept : Kept cfg info ((s.2.flatten ++ memory).map (·.address)) s.1
  apart : Apart info cfg.pageSize
    (dueAddrs cfg cycle reqs ++ (s.2.flatten ++ memory).map (·.address))

theorem PIMMctrl.resize_of_transfer {info : List (Region Obj)} {req : ProcRequest} {m : MemRequest}
    (h : PIMMctrl.transfer info req = .ok m) :
    MemorySelector.resize info req.actualAddr = .ok m.address := by
  obtain ⟨address, haddr, heq⟩ := Outcome.bind_eq_ok.mp h
  cases heq
  exact haddr

/-- **One visit** of the memory side's controller keeps the locks. -/
theorem Sweeping.visit {cfg : Config} {info : List (Region Obj)} {cycle : UInt64}
    (hmodel : cfg.consistencyModel = .spinLock) {memory : List MemRequest}
    {s s' : Coherence × List (List MemRequest)} {req : ProcRequest} {reqs : List ProcRequest}
    {fate : Fate} (h : Sweeping cfg info cycle memory s (req :: reqs))
    (hv : PIMMctrl.visit cfg info cycle s req = .ok (s', fate)) :
    Sweeping cfg info cycle memory s' reqs := by
  rcases PIMMctrl.visit_cases hmodel hv with ⟨hearly, rfl, -⟩ |
    ⟨hdue, lock, lock', flushed, host, hlock, hset, -, hcase⟩
  · refine ⟨h.kept, h.apart.sublist ?_⟩
    simp [dueAddrs, hearly]
  · obtain ⟨l, hl, hsize, hguarded⟩ := h.kept
    obtain rfl : lock = l := Option.some.inj (hlock.symm.trans hl)
    have hsize' : lock'.size = cfg.pageSize := (SpinLock.setlock_spec hset).1.trans hsize
    have hdues : dueAddrs cfg cycle (req :: reqs) = req.actualAddr :: dueAddrs cfg cycle reqs := by
      simp [dueAddrs, hdue]
    have hset' := hguarded.setlock hset
    have hown := h.apart
    rw [hdues, List.cons_append] at hown
    rcases hcase with ⟨-, hs', hplace⟩ | ⟨-, -, hqueues, lock'', hrelese, hs'⟩
    · -- The request joins those on their way, with its lock set.
      obtain ⟨k, m, queue, -, -, htrans, hget, hqueues⟩ := Controller.place_eq_ok hplace
      have hperm : ((s'.2.flatten ++ memory).map (·.address)).Perm
          (m.address :: (s.2.flatten ++ memory).map (·.address)) := by
        rw [hqueues]
        exact ((flatten_push_perm hget m).append_right memory).map _
      have hslot := SpinLock.slot_resize (PIMMctrl.resize_of_transfer htrans)
      refine ⟨⟨lock', by rw [hs'], hsize', ?_⟩, ?_⟩
      · intro a ha
        rcases List.mem_cons.mp (hperm.subset ha) with rfl | ha
        · rw [SpinLock.getLockState_congr (hslot lock'.size)]
          exact hset' _ List.mem_cons_self
        · exact hset' a (List.mem_cons_of_mem _ ha)
      · have hmoved : Apart info cfg.pageSize (dueAddrs cfg cycle reqs ++
            m.address :: (s.2.flatten ++ memory).map (·.address)) := by
          have := hown.perm (List.perm_middle (a := req.actualAddr)).symm
          unfold Apart at this ⊢
          simpa [hslot cfg.pageSize] using this
        exact hmoved.perm (hperm.symm.append_left _)
    · -- The lock is handed back, and no request on its way has it.
      have hsize'' : lock''.size = cfg.pageSize :=
        (SpinLock.releseLock_spec hrelese).1.trans hsize'
      rw [← hqueues] at hown hset'
      refine ⟨⟨lock'', by rw [hs'], hsize'', ?_⟩, hown.sublist (List.sublist_cons_self ..)⟩
      refine (hset'.subset (List.subset_cons_self ..)).releseLock hsize' ?_ hrelese
      exact hown.sublist (List.Sublist.cons_cons _ (List.sublist_append_right ..))

/-! ### Completions -/

section Completions

variable {cfg : Config} {info : List (Region Obj)} {addrs : List UInt64} {c c' : Coherence}
  {callback : CallBackInfo}

theorem Kept.releseLock {addr : UInt64} (h : Kept cfg info addrs c)
    (hown : Apart info cfg.pageSize (addr :: addrs))
    (hr : PIMProc.releseLock info c addr = .ok c') : Kept cfg info addrs c' := by
  obtain ⟨lock, hlock, hsize, hguarded⟩ := h
  simp only [PIMProc.releseLock, Outcome.bind_eq_ok, spinLockOf_eq_ok] at hr
  obtain ⟨l, hl, lock', hrelese, heq⟩ := hr
  obtain rfl : lock = l := Option.some.inj (hlock.symm.trans hl)
  cases heq
  exact ⟨lock', rfl, (SpinLock.releseLock_spec hrelese).1.trans hsize,
    hguarded.releseLock hsize hown hrelese⟩

theorem Kept.readCallback {p p' : PIMProc} (h : Kept cfg info addrs c)
    (hown : Apart info cfg.pageSize (callback.address :: addrs))
    (hr : p.handleReadCallback cfg info c callback = .ok (c', p')) : Kept cfg info addrs c' := by
  unfold PIMProc.handleReadCallback at hr
  split_ifs at hr
  · simp only [Outcome.bind_eq_ok] at hr
    obtain ⟨c₁, hfirst, p₁, -, c₂, hlast, heq⟩ := hr
    cases heq
    exact (h.releseLock hown hfirst).releseLock hown hlast
  · simp only [pure_bind, Outcome.bind_eq_ok] at hr
    obtain ⟨p₁, -, c₂, hlast, heq⟩ := hr
    cases heq
    exact h.releseLock hown hlast

theorem Kept.writeCallback {p p' : PIMProc} (h : Kept cfg info addrs c)
    (hown : Apart info cfg.pageSize (callback.address :: addrs))
    (hr : p.handleWriteCallback cfg info c callback = .ok (c', p')) : Kept cfg info addrs c' := by
  simp only [PIMProc.handleWriteCallback, Outcome.bind_eq_ok] at hr
  obtain ⟨p₁, -, c₂, hlast, heq⟩ := hr
  cases heq
  exact h.releseLock hown hlast

/-- Callbacks that keep the locks of other requests keep them one after the other. -/
theorem Kept.pimCallbacks {onPim : Coherence → PIMProc → Outcome (Coherence × PIMProc)}
    (hone : ∀ c c' p p', Kept cfg info addrs c → onPim c p = .ok (c', p') → Kept cfg info addrs c')
    {pids : List Int} {units units' : List PIMProc} (h : Kept cfg info addrs c)
    (hr : System.pimCallbacks onPim pids (c, units) = .ok (c', units')) :
    Kept cfg info addrs c' := by
  induction pids generalizing c units with
  | nil =>
    cases hr
    exact h
  | cons pid pids ih =>
    simp only [System.pimCallbacks, Outcome.bind_eq_ok] at hr
    obtain ⟨unit, -, ⟨c₁, unit'⟩, hcall, hr⟩ := hr
    exact ih (hone c c₁ unit unit' h hcall) hr

end Completions

/-! ### Transitions -/

/-- The requests on their way are locked, and have pages of their own. -/
structure Mutex (cfg : Config) (info : List (Region Obj)) (s : System) : Prop where
  kept : Kept cfg info s.inFlight s.coherence
  apart : Apart info cfg.pageSize s.inFlight

variable {cfg : Config} {info : List (Region Obj)} {s s' : System}

/-- The requests on their way and the lock table are all that matters. -/
theorem Mutex.congr (h : Mutex cfg info s) (hflight : s'.inFlight = s.inFlight)
    (hlock : s'.coherence.spinLock = s.coherence.spinLock) : Mutex cfg info s' := by
  obtain ⟨⟨lock, hl, hsize, hguarded⟩, hapart⟩ := h
  exact ⟨⟨lock, hlock.trans hl, hsize, hflight ▸ hguarded⟩, hflight ▸ hapart⟩

/-- The order of the requests on their way does not matter. -/
theorem Mutex.perm (h : Mutex cfg info s) (hflight : s.inFlight.Perm s'.inFlight)
    (hlock : s'.coherence.spinLock = s.coherence.spinLock) : Mutex cfg info s' := by
  obtain ⟨⟨lock, hl, hsize, hguarded⟩, hapart⟩ := h
  exact ⟨⟨lock, hlock.trans hl, hsize, hguarded.subset hflight.symm.subset⟩, hapart.perm hflight⟩

/-- Fewer requests on their way need fewer locks. -/
theorem Mutex.sublist (h : Mutex cfg info s) (hflight : s'.inFlight.Sublist s.inFlight)
    (hlock : s'.coherence.spinLock = s.coherence.spinLock) : Mutex cfg info s' := by
  obtain ⟨⟨lock, hl, hsize, hguarded⟩, hapart⟩ := h
  exact ⟨⟨lock, hlock.trans hl, hsize, hguarded.subset hflight.subset⟩, hapart.sublist hflight⟩

theorem mutex_init {P : Platform Obj} (hmodel : cfg.consistencyModel = .spinLock)
    (h : System.init cfg P = .ok s) : Mutex cfg P.memory s := by
  simp only [System.init, Coherence.init, if_pos hmodel, Outcome.bind_eq_ok] at h
  obtain ⟨coherence, ⟨lock, hlock, hc⟩, hs⟩ := h
  cases hc
  cases hs
  have hflight : (Controller.init P.memory.length).sendQueue.flatten = [] := by
    simp [Controller.init]
  refine ⟨⟨lock, rfl, SpinLock.size_create hlock, ?_⟩, ?_⟩
  · simp [Guarded, System.inFlight, hflight]
  · simp [Apart, System.inFlight, hflight]

/-- A completion hands back the lock of its own request only. -/
theorem Mutex.callBack {req : MemRequest} {onHost : Core → Outcome Core}
    {onPim : Coherence → PIMProc → Outcome (Coherence × PIMProc)} (h : Mutex cfg info s)
    (hone : req.pim = true → ∀ c c' p p', Kept cfg info s.inFlight c → onPim c p = .ok (c', p') →
      Kept cfg info s.inFlight c')
    (hs : s.callBack req onHost onPim = .ok s') : Mutex cfg info s' := by
  unfold System.callBack at hs
  split_ifs at hs with hpim
  · simp only [Outcome.bind_eq_ok] at hs
    obtain ⟨_, -, ⟨coherence, units⟩, hcall, heq⟩ := hs
    cases heq
    exact ⟨h.kept.pimCallbacks (hone hpim) hcall, h.apart⟩
  · simp only [Outcome.bind_eq_ok] at hs
    obtain ⟨_, -, host, -, heq⟩ := hs
    cases heq
    exact h.congr rfl rfl

theorem Mutex.finish {req : MemRequest} (h : Mutex cfg info s)
    (hown : req.pim = true → Apart info cfg.pageSize (req.address :: s.inFlight))
    (hs : System.finish cfg info s req = .ok s') : Mutex cfg info s' := by
  have hwritten : (s.written req).inFlight = s.inFlight := by
    unfold System.written
    split_ifs <;> rfl
  have hlock : (s.written req).coherence.spinLock = s.coherence.spinLock := by
    unfold System.written
    split_ifs <;> rfl
  unfold System.finish at hs
  split at hs
  · refine h.callBack (fun hpim c c' p p' hc hr => ?_) hs
    have hown' : Apart info cfg.pageSize ((System.callBackInfo req).address :: s.inFlight) :=
      hown hpim
    exact hc.readCallback hown' hr
  · refine (h.congr hwritten hlock).callBack (fun hpim c c' p p' hc hr => ?_) hs
    rw [hwritten] at hc ⊢
    have hown' : Apart info cfg.pageSize ((System.callBackInfo req).address :: s.inFlight) :=
      hown hpim
    exact hc.writeCallback hown' hr
  · cases hs
    exact h.congr hwritten hlock
  · cases hs
  · cases hs
  · cases hs
    exact h
  · cases hs
    exact h

/-- A completion keeps the exclusion of the requests still on their way. -/
theorem Mutex.complete {k : ℕ} (h : Mutex cfg info s) (hs : s.complete cfg info k = .ok s') :
    Mutex cfg info s' := by
  unfold System.complete at hs
  split at hs
  · cases hs
    exact h
  · next req hreq =>
    obtain ⟨hk, rfl⟩ := List.getElem?_eq_some_iff.mp hreq
    have hrest : Mutex cfg info { s with memory := s.memory.eraseIdx k } := by
      refine h.sublist ?_ rfl
      exact ((List.eraseIdx_sublist ..).filter _).append_left _ |>.map _
    refine hrest.finish (fun hpim => h.apart.perm ?_) hs
    -- The request is one of those on their way.
    have hperm := ((List.getElem_cons_eraseIdx_perm hk).filter (·.pim)).symm
    rw [List.filter_cons_of_pos hpim] at hperm
    exact ((hperm.append_left s.pimMctrl.sendQueue.flatten).trans List.perm_middle).map _

/-- A request that is replaced keeps its address and its side. -/
theorem map_filter_set {l : List MemRequest} {i : ℕ} {req : MemRequest} (req' : MemRequest)
    (h : l[i]? = some req) (haddr : req'.address = req.address) (hpim : req'.pim = req.pim) :
    ((l.set i req').filter (·.pim)).map (·.address) = (l.filter (·.pim)).map (·.address) := by
  induction l generalizing i with
  | nil => rfl
  | cons m l ih =>
    cases i with
    | zero =>
      obtain rfl : m = req := Option.some.inj h
      rw [List.set_cons_zero, List.filter_cons, List.filter_cons, hpim]
      split_ifs <;> simp [haddr]
    | succ i =>
      have hrest := ih h
      rw [List.set_cons_succ, List.filter_cons, List.filter_cons]
      split_ifs <;> simp [hrest]

theorem Mutex.merge (i j : ℕ) (h : Mutex cfg info s) : Mutex cfg info (s.merge i j) := by
  unfold System.merge
  split
  · next req other hreq _ =>
    split_ifs
    · refine h.sublist ?_ rfl
      simp only [System.inFlight, List.map_append]
      apply List.Sublist.append_left
      rw [← map_filter_set { req with pid := req.pid ++ other.pid } hreq rfl rfl]
      exact ((List.eraseIdx_sublist ..).filter _).map _
    · exact h
  · exact h

/-- A request taken from the controller is still on its way. -/
theorem Mutex.takePim {pid : Int} {req : Option MemRequest} {pimMctrl : Controller}
    (h : Mutex cfg info s) (hr : s.pimMctrl.getReq true pid = .ok (req, pimMctrl)) :
    Mutex cfg info (System.fetch { s with pimMctrl := pimMctrl } req) := by
  simp only [Controller.getReq, Outcome.bind_eq_ok] at hr
  obtain ⟨queue, hqueue, hr⟩ := hr
  cases queue with
  | nil =>
    cases hr
    exact h.congr (by simp [System.inFlight, System.fetch]) rfl
  | cons m queue =>
    cases hr
    obtain ⟨-, hget⟩ := listAt_eq_ok.mp hqueue
    refine h.perm ?_ rfl
    have hpop := (flatten_pop_perm hget).map (·.address)
    have hfetch : (System.fetch { s with pimMctrl := { s.pimMctrl with
        sendQueue := s.pimMctrl.sendQueue.set pid.toNat queue } }
        (some { m with pim := true })).inFlight =
        ((s.pimMctrl.sendQueue.set pid.toNat queue).flatten.map (·.address) ++
          (s.memory.filter (·.pim)).map (·.address)) ++ [m.address] := by
      simp [System.inFlight, System.fetch]
    rw [hfetch, System.inFlight, List.map_append]
    refine (hpop.append_right _).trans ?_
    exact (List.perm_append_singleton m.address _).symm

/-- **A step whose requests have pages of their own** keeps the exclusion. -/
theorem mutex_step (hmodel : cfg.consistencyModel = .spinLock) {e : Event} (h : Mutex cfg info s)
    (hown : OwnPages cfg info s e) (hs : System.step cfg info s e = .ok s') :
    Mutex cfg info s' := by
  cases e with
  | procStep i =>
    obtain ⟨host, -, heq⟩ := Outcome.bind_eq_ok.mp hs
    cases heq
    exact h.congr rfl rfl
  | mctrlStep =>
    obtain ⟨mctrl, -, heq⟩ := Outcome.bind_eq_ok.mp hs
    cases heq
    exact h.congr rfl rfl
  | pimMctrlStep =>
    simp only [System.step, PIMMctrl.step, Outcome.bind_eq_ok] at hs
    obtain ⟨⟨coherence, pimMctrl⟩, ⟨⟨t, waiting⟩, hscan, hstep⟩, heq⟩ := hs
    cases hstep
    cases heq
    obtain ⟨vs, hvs, rfl⟩ := scan_eq_ok.mp hscan
    -- The controller visits its queue one request at a time: what holds between two visits is
    -- carried along the scan.
    have hstart : Sweeping cfg info (s.pimMctrl.cycle + 1) (s.memory.filter (·.pim))
        (s.coherence, s.pimMctrl.sendQueue) s.pimMctrl.waitQueue := ⟨h.kept, hown⟩
    have hend := visits_rest_rule
      (P := Sweeping cfg info (s.pimMctrl.cycle + 1) (s.memory.filter (·.pim)))
      (fun _ _ _ _ _ hP hv => hP.visit hmodel hv) hstart hvs
    exact ⟨hend.kept, hend.apart⟩
  | pimAdd req =>
    cases hs
    refine h.congr ?_ rfl
    rcases Controller.addToMctrl_eq cfg s.pimMctrl req with hadd | hadd <;>
      simp [System.inFlight, hadd]
  | take pid =>
    simp only [System.step, Outcome.bind_eq_ok] at hs
    obtain ⟨⟨req, mctrl⟩, hr, heq⟩ := hs
    cases heq
    refine h.congr ?_ rfl
    simp only [Controller.getReq, Outcome.bind_eq_ok] at hr
    obtain ⟨queue, -, hr⟩ := hr
    cases queue <;> cases hr <;>
      simp [System.inFlight, System.fetch, System.withMctrl, System.withHost]
  | takePim pid =>
    simp only [System.step, Outcome.bind_eq_ok] at hs
    obtain ⟨⟨req, pimMctrl⟩, hr, heq⟩ := hs
    cases heq
    exact h.takePim hr
  | merge i j =>
    cases hs
    exact h.merge i j
  | complete k => exact h.complete hs
  | flush addr actual =>
    obtain ⟨⟨stall, host⟩, -, heq⟩ := Outcome.bind_eq_ok.mp hs
    cases heq
    exact h.congr rfl rfl
  | tick =>
    cases hs
    exact h.congr rfl rfl

/-! ### Runs -/

/-- A request that a step of the host's controller forwards was not locked. -/
theorem Mctrl.unlocked_of_gone {lock : Option SpinLock} {c c' : Controller}
    (hmodel : cfg.consistencyModel = .spinLock) (h : Mctrl.step cfg info lock c = .ok c')
    {req : ProcRequest} (hreq : req ∈ c.waitQueue) (hgone : req ∉ c'.waitQueue) :
    ∃ l, lock = some l ∧ SpinLock.getLockState info l req.actualAddr = .ok false := by
  simp only [Mctrl.step, Outcome.bind_eq_ok] at h
  obtain ⟨⟨queues, waiting⟩, hscan, heq⟩ := h
  cases heq
  obtain ⟨vs, hvs, rfl⟩ := scan_eq_ok.mp hscan
  have hmem : req ∈ vs.map Prod.fst := by
    rw [visits_map_fst hvs]
    exact hreq
  obtain ⟨⟨r, fate⟩, hv, rfl⟩ := List.mem_map.mp hmem
  have hl : ¬ fate.leaves = false := fun hl => hgone (mem_kept.mpr ⟨fate, hv, hl⟩)
  obtain ⟨u, u', -, hvisit⟩ := visits_verdict (I := fun _ => True) (fun _ _ _ _ _ _ => trivial)
    trivial hvs _ hv
  rcases Mctrl.visit_cases hmodel hvisit with ⟨-, -, rfl⟩ |
    ⟨-, l, locked, hlock, hlocked, ⟨-, -, rfl⟩ | ⟨rfl, -⟩⟩
  · exact absurd rfl hl
  · exact absurd rfl hl
  · exact ⟨l, hlock, hlocked⟩

theorem Mutex.exclusive (hmodel : cfg.consistencyModel = .spinLock) (h : Mutex cfg info s) :
    Exclusive cfg info s := by
  obtain ⟨⟨lock, hlock, hsize, hguarded⟩, hapart⟩ := h
  refine ⟨fun a ha => ⟨lock, hlock, hguarded a ha⟩, hapart, ?_⟩
  intro c hstep req hreq hgone a ha hslot
  obtain ⟨l, hl, hfree⟩ := Mctrl.unlocked_of_gone hmodel hstep hreq hgone
  obtain rfl : lock = l := Option.some.inj (hlock.symm.trans hl)
  rw [← hsize] at hslot
  rw [SpinLock.getLockState_congr hslot, hguarded a ha] at hfree
  cases hfree

/-- **Mutual exclusion holds in every run** whose steps of the memory side's controller take up
requests with pages of their own. -/
theorem mutual_exclusion (hmodel : cfg.consistencyModel = .spinLock) (P : Platform Obj)
    {s₀ s : System} {es : List Event} (hinit : System.init cfg P = .ok s₀)
    (hown : Along (System.step cfg P.memory) (OwnPages cfg P.memory) s₀ es)
    (h : exec (System.step cfg P.memory) s₀ es = .ok s) : Exclusive cfg P.memory s :=
  (exec_along (I := Mutex cfg P.memory)
    (fun _ _ _ hI hgood hstep => mutex_step hmodel hI hgood hstep) (mutex_init hmodel hinit) hown
    h).exclusive hmodel

/-- Two requests of different pages, of which one has completed. -/
theorem mutual_exclusion_two_pages : ∃ s, exec (System.step {} oneObject) (smallSystem {} [])
    [.pimAdd {}, .pimAdd { actualAddr := 4096 }, .pimMctrlStep, .takePim 0, .complete 0] = .ok s ∧
      s.inFlight = [4096] ∧ Exclusive {} oneObject s := by
  have hrun : (exec (System.step {} oneObject) (smallSystem {} [])
      [.pimAdd {}, .pimAdd { actualAddr := 4096 }, .pimMctrlStep, .takePim 0, .complete 0]).map
        System.inFlight = .ok [4096] := by decide +kernel
  obtain ⟨s, hs, hflight⟩ := Outcome.exists_of_map_eq_ok hrun
  refine ⟨s, hs, hflight, mutual_exclusion rfl (smallPlatform []) ?_ ?_ hs⟩
  · exact init_smallPlatform rfl rfl []
  · decide +kernel

/-- Two requests of one page: the completion of the first hands back the lock of the second. -/
theorem not_exclusive_one_page : ¬ ∀ s, exec (System.step {} oneObject) (smallSystem {} [])
    [.pimAdd {}, .pimAdd { actualAddr := 64 }, .pimMctrlStep, .takePim 0, .complete 0] = .ok s →
      Exclusive {} oneObject s := by
  intro h
  have hrun : (exec (System.step {} oneObject) (smallSystem {} [])
      [.pimAdd {}, .pimAdd { actualAddr := 64 }, .pimMctrlStep, .takePim 0, .complete 0]).map
        (fun s => (s.inFlight, s.coherence.spinLock)) = .ok ([64], some SpinLock.freeLock) := by
    decide +kernel
  obtain ⟨s, hs, hstate⟩ := Outcome.exists_of_map_eq_ok hrun
  obtain ⟨hflight, hlock⟩ := Prod.mk.inj hstate
  obtain ⟨lock, hl, hlocked⟩ := (h s hs).locked 64 (by rw [hflight]; simp)
  obtain rfl : SpinLock.freeLock = lock := Option.some.inj (hlock.symm.trans hl)
  exact absurd hlocked (by decide +kernel)

end PIMSim
