import PIMSim.PIM.FlushReturns
import PIMSim.PIM.Traffic

/-!
# Progress of the controllers

A request past its latency should be forwarded unless its page is locked or the flush of its block is
under way, and the callbacks of the memory side should find the lock they hand back. Both controllers
forward under the spin lock only, and the callbacks hand back a lock whatever the consistency model
is.

## Main definitions

* `Progress`: the requests that should be forwarded are, and the callbacks find their lock
* `Served`: the model is the spin lock, and what the steps look up is there

## Main results

* `Mctrl.step_returns`, `PIMMctrl.step_progress_iff`: the steps of the two controllers
* `progress_iff`: in every reachable state progress is made exactly when the state is served
-/

namespace PIMSim

open CSharp Transition Sweep

variable {Obj : Type}

/-- The page of the request is in the lock table, and its address selects a memory object. -/
def PIMMctrl.Ready (info : List (Region Obj)) (s : Coherence × List (List MemRequest))
    (req : ProcRequest) : Prop :=
  (∃ lock lock', s.1.spinLock = some lock ∧
    SpinLock.setlock info lock req.actualAddr = .ok lock') ∧
    Controller.Routable info s.2.length req.actualAddr

/-- The request waits for the flush of its block and for nothing else: the host has the block dirty,
and the address of the request selects a memory object. -/
structure PIMMctrl.AwaitsFlush (cfg : Config) (info : List (Region Obj)) (host : Host)
    (p p' : Controller) (req : ProcRequest) : Prop where
  waits : req ∈ p'.waitQueue
  dirty : SeesDirty cfg host req.blockAddr
  routable : Controller.Routable info p.sendQueue.length req.actualAddr

/-- **Progress.** Both controllers forward what is past its latency, unless its page is locked or the
flush of its block is under way, and no callback of a memory-side processor uses a lock table that was
not created. -/
structure Progress (cfg : Config) (info : List (Region Obj)) (coherence : Coherence)
    (c p : Controller) : Prop where
  host : ∃ c', Mctrl.step cfg info coherence.spinLock c = .ok c' ∧
    ∀ req ∈ c.waitQueue, Controller.due cfg (c.cycle + 1) req = true →
      Forwarded info (Mctrl.transfer info) c' req ∨ ∃ lock, coherence.spinLock = some lock ∧
        SpinLock.getLockState info lock req.actualAddr = .ok true
  pim : ∃ coherence' p', PIMMctrl.step cfg info coherence p = .ok (coherence', p') ∧
    ∀ req ∈ p.waitQueue, Controller.due cfg (p.cycle + 1) req = true →
      Forwarded info (PIMMctrl.transfer info) p' req ∨
        PIMMctrl.AwaitsFlush cfg info coherence.host p p' req
  callbacks : ∀ (p : PIMProc) (callback : CallBackInfo),
    p.handleReadCallback cfg info coherence callback ≠ .error .nullReference ∧
      p.handleWriteCallback cfg info coherence callback ≠ .error .nullReference

/-- The consistency model is the spin lock, the pages of the requests past their latency are in the
lock table, and the addresses to forward select a memory object. For the memory side's requests the
caches can be asked for their blocks. -/
structure Served (cfg : Config) (info : List (Region Obj)) (coherence : Coherence)
    (c p : Controller) : Prop where
  model : cfg.consistencyModel = .spinLock
  host : ∀ req ∈ c.waitQueue, Controller.due cfg (c.cycle + 1) req = true →
    ∃ lock locked, coherence.spinLock = some lock ∧
      SpinLock.getLockState info lock req.actualAddr = .ok locked ∧
      (locked = false → Controller.Routable info c.sendQueue.length req.actualAddr)
  pim : ∀ req ∈ p.waitQueue, Controller.due cfg (p.cycle + 1) req = true →
    PIMMctrl.Ready info (coherence, p.sendQueue) req ∧ coherence.host.Flushable cfg req.blockAddr

/-! ### The host's controller -/

theorem Mctrl.transfer_returns {info : List (Region Obj)} {req : ProcRequest}
    (h : ∃ res, MemorySelector.resize info req.actualAddr = .ok res) :
    ∃ m, Mctrl.transfer info req = .ok m := by
  obtain ⟨res, hres⟩ := h
  simp [Mctrl.transfer, hres]

/-- When a step of the host's controller returns. -/
theorem Mctrl.step_returns {cfg : Config} {info : List (Region Obj)} {lock : Option SpinLock}
    {c : Controller} (hmodel : cfg.consistencyModel = .spinLock) :
    (∃ c', Mctrl.step cfg info lock c = .ok c') ↔
      ∀ req ∈ c.waitQueue, Controller.due cfg (c.cycle + 1) req = true →
        ∃ l locked, lock = some l ∧ SpinLock.getLockState info l req.actualAddr = .ok locked ∧
          (locked = false → Controller.Routable info c.sendQueue.length req.actualAddr) := by
  have hstep := (Mctrl.lawful hmodel info).step_eq lock c
  simp only [Mctrl.discipline] at hstep
  constructor
  · rintro ⟨c', hc'⟩ req hreq hdue
    -- The visits keep the number of queues, so each one tells what it looked up.
    rw [hstep, scan_eq_visits] at hc'
    cases hvs : visits (Mctrl.visit cfg info lock (c.cycle + 1)) c.sendQueue c.waitQueue with
    | error e =>
      rw [hvs] at hc'
      cases hc'
    | ok r =>
      obtain ⟨queues, vs⟩ := r
      have hkeep : ∀ s x s' b, s.length = c.sendQueue.length →
          Mctrl.visit cfg info lock (c.cycle + 1) s x = .ok (s', b) →
            s'.length = c.sendQueue.length := by
        intro s x s' b hs hv
        rcases Mctrl.visit_cases hmodel hv with ⟨-, rfl, -⟩ |
          ⟨-, l, locked, -, -, ⟨-, rfl, -⟩ | ⟨-, hplace⟩⟩
        · exact hs
        · exact hs
        · exact (Controller.length_of_place hplace).trans hs
      have hmem : req ∈ vs.map Prod.fst := by
        rw [visits_map_fst hvs]
        exact hreq
      obtain ⟨v, hv, rfl⟩ := List.mem_map.mp hmem
      obtain ⟨u, u', hu, hvisit⟩ := visits_verdict hkeep rfl hvs v hv
      rcases Mctrl.visit_cases hmodel hvisit with ⟨hearly, -⟩ |
        ⟨-, l, locked, hl, hlocked, ⟨rfl, -⟩ | ⟨-, hplace⟩⟩
      · -- the request is due, so it was looked up: its page is locked, or it was placed
        rw [hdue] at hearly
        cases hearly
      · exact ⟨l, true, hl, hlocked, by simp⟩
      · refine ⟨l, locked, hl, hlocked, fun _ => ?_⟩
        rw [← hu]
        exact .of_place hplace
  · intro h
    have hvisit : ∀ s : List (List MemRequest), s.length = c.sendQueue.length →
        ∀ req ∈ c.waitQueue, ∃ s' b, Mctrl.visit cfg info lock (c.cycle + 1) s req = .ok (s', b) ∧
          s'.length = c.sendQueue.length := by
      intro s hs req hreq
      by_cases hdue : Controller.due cfg (c.cycle + 1) req = true
      · obtain ⟨l, locked, rfl, hlocked, hroute⟩ := h req hreq hdue
        simp only [Mctrl.visit, if_pos hdue, if_pos hmodel, spinLockOf, hlocked, Outcome.ok_bind]
        cases locked with
        -- a locked page keeps the request, a free one places it
        | true => exact ⟨s, .locked, rfl, hs⟩
        | false =>
          obtain ⟨m, hm⟩ := Mctrl.transfer_returns (SpinLock.resize_of_getLockState hlocked)
          obtain ⟨s', k, hplace⟩ := Controller.place_returns (hs ▸ hroute rfl) hm
          exact ⟨s', _, hplace, (Controller.length_of_place hplace).trans hs⟩
      · exact ⟨s, .early, if_neg hdue, hs⟩
    obtain ⟨t, vs, hvs⟩ := visits_returns hvisit rfl
    rw [hstep, scan_eq_visits, hvs]
    exact ⟨_, rfl⟩

/-! ### The memory side's controller -/

theorem PIMMctrl.transfer_returns {info : List (Region Obj)} {req : ProcRequest}
    (h : ∃ res, MemorySelector.resize info req.actualAddr = .ok res) :
    ∃ m, PIMMctrl.transfer info req = .ok m := by
  obtain ⟨res, hres⟩ := h
  simp [PIMMctrl.transfer, hres]

theorem PIMMctrl.ready_congr {info : List (Region Obj)}
    {s s' : Coherence × List (List MemRequest)} {lock lock' : SpinLock}
    (h : s.1.spinLock = some lock) (h' : s'.1.spinLock = some lock')
    (halike : SpinLock.Alike lock lock') (hlen : s'.2.length = s.2.length) (req : ProcRequest) :
    PIMMctrl.Ready info s' req ↔ PIMMctrl.Ready info s req := by
  unfold PIMMctrl.Ready
  rw [hlen, h, h']
  -- whether a page is in the table depends on the shape of the table only
  refine and_congr_left fun _ => ⟨?_, ?_⟩
  · rintro ⟨l, t, hl, ht⟩
    obtain rfl : lock' = l := Option.some.inj hl
    obtain ⟨t', ht'⟩ := SpinLock.setlock_returns halike.symm ⟨t, ht⟩
    exact ⟨lock, t', rfl, ht'⟩
  · rintro ⟨l, t, hl, ht⟩
    obtain rfl : lock = l := Option.some.inj hl
    obtain ⟨t', ht'⟩ := SpinLock.setlock_returns halike ⟨t, ht⟩
    exact ⟨lock', t', rfl, ht'⟩

/-- What a sweep keeps: the shape of the lock table, the number of the queues, and what the flushes
of the blocks need. -/
structure PIMMctrl.Sweeps (s s' : Coherence × List (List MemRequest)) : Prop where
  lock : ∃ l l', s.1.spinLock = some l ∧ s'.1.spinLock = some l' ∧ SpinLock.Alike l l'
  queues : s'.2.length = s.2.length
  host : Host.Fades s.1.host s'.1.host
  tidy : s'.1.host.Tidy

section Sweeps

variable {cfg : Config} {info : List (Region Obj)} {cycle : UInt64}
  {s₀ s s' : Coherence × List (List MemRequest)} {req : ProcRequest} {fate : Fate}

theorem PIMMctrl.Sweeps.ready_iff (h : Sweeps s₀ s) (req : ProcRequest) :
    Ready info s req ↔ Ready info s₀ req := by
  obtain ⟨l, l', hl, hl', halike⟩ := h.lock
  exact ready_congr hl hl' halike h.queues req

theorem PIMMctrl.Sweeps.visit (hmodel : cfg.consistencyModel = .spinLock) (h : Sweeps s₀ s)
    (hvisit : PIMMctrl.visit cfg info cycle s req = .ok (s', fate)) : Sweeps s₀ s' := by
  rcases PIMMctrl.visit_cases hmodel hvisit with ⟨-, rfl, -⟩ |
    ⟨-, lock, lock', flushed, host, hlock, hset, hflush, hcase⟩
  · exact h
  · obtain ⟨l, l', hl, hl', halike⟩ := h.lock
    obtain rfl : l' = lock := Option.some.inj (hl'.symm.trans hlock)
    obtain ⟨hfades, htidy, -⟩ := Coherence.flush_fades hflush h.tidy
    have halike' := halike.trans (SpinLock.setlock_alike hset)
    -- the request is placed under its lock, or the lock is handed back
    rcases hcase with ⟨-, hc, hplace⟩ | ⟨-, -, hqueues, lock'', hrelese, hc⟩
    · refine ⟨⟨l, lock', hl, by rw [hc], halike'⟩,
        (Controller.length_of_place hplace).trans h.queues, ?_, ?_⟩
      · rw [hc]
        exact h.host.trans hfades
      · rw [hc]
        exact htidy
    · refine ⟨⟨l, lock'', hl, by rw [hc], halike'.trans (SpinLock.releseLock_alike hrelese)⟩,
        by rw [hqueues, h.queues], ?_, ?_⟩
      · rw [hc]
        exact h.host.trans hfades
      · rw [hc]
        exact htidy

/-- What a visit of a request past its latency needs, and that it keeps the request for a dirty block
only. -/
theorem PIMMctrl.Sweeps.verdict (hmodel : cfg.consistencyModel = .spinLock) (h : Sweeps s₀ s)
    (hvisit : PIMMctrl.visit cfg info cycle s req = .ok (s', fate))
    (hdue : Controller.due cfg cycle req = true) :
    (∃ lock lock', s₀.1.spinLock = some lock ∧
      SpinLock.setlock info lock req.actualAddr = .ok lock') ∧
      s₀.1.host.Flushable cfg req.blockAddr ∧
      (fate.leaves = true ∧ Controller.Routable info s₀.2.length req.actualAddr ∨
        fate.leaves = false ∧ SeesDirty cfg s₀.1.host req.blockAddr) := by
  rcases PIMMctrl.visit_cases hmodel hvisit with ⟨hearly, -, -⟩ |
    ⟨-, lock, lock', flushed, host, hlock, hset, hflush, hcase⟩
  · exact absurd hdue (by simp [hearly])
  · obtain ⟨l, l', hl, hl', halike⟩ := h.lock
    obtain rfl : l' = lock := Option.some.inj (hl'.symm.trans hlock)
    obtain ⟨t, ht⟩ := SpinLock.setlock_returns halike.symm ⟨lock', hset⟩
    obtain ⟨-, -, hflushable⟩ := Coherence.flush_fades hflush h.tidy
    refine ⟨⟨l, t, hl, ht⟩, h.host.flushable_iff.mp hflushable, ?_⟩
    -- placed: its queue is there already at the start; kept: the block is dirty already at the
    -- start
    rcases hcase with ⟨-, -, hplace⟩ | ⟨hnot, rfl, -⟩
    · obtain ⟨k, m, -, rfl, -⟩ := Controller.place_eq_ok hplace
      exact .inl ⟨rfl, h.queues ▸ .of_place hplace⟩
    · subst hnot
      exact .inr ⟨rfl, h.host.seesDirty ((Coherence.flush_answer hflush h.tidy).mp rfl)⟩

/-- A visit of a request that finds what it needs returns. -/
theorem PIMMctrl.Sweeps.visit_returns (hmodel : cfg.consistencyModel = .spinLock) (h : Sweeps s₀ s)
    (hready : Controller.due cfg cycle req = true →
      Ready info s₀ req ∧ s₀.1.host.Flushable cfg req.blockAddr) :
    ∃ s' fate, PIMMctrl.visit cfg info cycle s req = .ok (s', fate) := by
  obtain ⟨coherence, queues⟩ := s
  unfold PIMMctrl.visit
  by_cases hdue : Controller.due cfg cycle req = true
  · obtain ⟨hready, hflushable⟩ := hready hdue
    obtain ⟨⟨lock, lock', hlock, hset⟩, hroute⟩ := (h.ready_iff req).mpr hready
    obtain ⟨flushed, host, hflush⟩ :=
      (Coherence.flush_returns_iff h.tidy).mpr (h.host.flushable_iff.mpr hflushable)
    simp only at hlock hflush hroute
    simp only [if_pos hdue, if_pos hmodel, hlock, spinLockOf, hset, hflush, Outcome.ok_bind]
    cases flushed with
    -- the lock that was set can be handed back
    | false =>
      obtain ⟨lock'', hrelese⟩ := SpinLock.releseLock_of_setlock hset
      simp only [Bool.not_false, if_true, hrelese, Outcome.ok_bind]
      exact ⟨_, _, rfl⟩
    | true =>
      obtain ⟨m, hm⟩ := PIMMctrl.transfer_returns (SpinLock.resize_of_setlock hset)
      obtain ⟨queues', k, hplace⟩ := Controller.place_returns hroute hm
      simp only [Bool.not_true, Bool.false_eq_true, if_false, hplace, Outcome.ok_bind]
      exact ⟨_, _, rfl⟩
  · simp only [if_neg hdue]
    exact ⟨_, _, rfl⟩

end Sweeps

/-- **The memory side's controller makes progress** exactly when its requests past their latency are
ready and their blocks can be flushed. -/
theorem PIMMctrl.step_progress_iff {cfg : Config} {info : List (Region Obj)} {coherence : Coherence}
    {p : Controller} (hmodel : cfg.consistencyModel = .spinLock)
    (hlock : coherence.spinLock.isSome) (htidy : coherence.host.Tidy) :
    (∃ coherence' p', PIMMctrl.step cfg info coherence p = .ok (coherence', p') ∧
        ∀ req ∈ p.waitQueue, Controller.due cfg (p.cycle + 1) req = true →
          Forwarded info (PIMMctrl.transfer info) p' req ∨
            AwaitsFlush cfg info coherence.host p p' req) ↔
      ∀ req ∈ p.waitQueue, Controller.due cfg (p.cycle + 1) req = true →
        Ready info (coherence, p.sendQueue) req ∧ coherence.host.Flushable cfg req.blockAddr := by
  obtain ⟨lock, hlock⟩ := Option.isSome_iff_exists.mp hlock
  have hfirst : Sweeps (coherence, p.sendQueue) (coherence, p.sendQueue) :=
    ⟨⟨lock, lock, hlock, hlock, rfl, rfl⟩, rfl, .refl, htidy⟩
  constructor
  · rintro ⟨coherence', p', hstep, hall⟩ req hreq hdue
    simp only [PIMMctrl.step, Outcome.bind_eq_ok] at hstep
    obtain ⟨⟨t, waiting⟩, hscan, heq⟩ := hstep
    obtain ⟨vs, hvs, rfl⟩ := scan_eq_ok.mp hscan
    cases heq
    have hmem : req ∈ vs.map Prod.fst := by
      rw [visits_map_fst hvs]
      exact hreq
    obtain ⟨v, hv, rfl⟩ := List.mem_map.mp hmem
    obtain ⟨u, u', hu, hvisit⟩ := visits_verdict (fun _ _ _ _ hI hv => hI.visit hmodel hv) hfirst
      hvs v hv
    obtain ⟨hset, hflushable, hroute⟩ := hu.verdict hmodel hvisit hdue
    refine ⟨⟨hset, ?_⟩, hflushable⟩
    rcases hroute with ⟨-, hroute⟩ | ⟨hstays, -⟩
    · exact hroute
    · -- A request that stays was not forwarded, so it waits for its flush only.
      rcases hall v.1 hreq hdue with ⟨hgone, -⟩ | hawaits
      · exact absurd (mem_kept.mpr ⟨v.2, hv, hstays⟩) hgone
      · exact hawaits.routable
  · intro hready
    obtain ⟨t, vs, hvs⟩ := visits_returns (I := Sweeps (coherence, p.sendQueue))
      (fun s hs req hreq => by
        obtain ⟨s', fate, hvisit⟩ := hs.visit_returns hmodel (hready req hreq)
        exact ⟨s', fate, hvisit, hs.visit hmodel hvisit⟩) hfirst
    have hscan : scan (PIMMctrl.visit cfg info (p.cycle + 1)) Fate.leaves (coherence, p.sendQueue)
        p.waitQueue = .ok (t, kept Fate.leaves vs) := scan_eq_ok.mpr ⟨vs, hvs, rfl⟩
    have hstep : PIMMctrl.step cfg info coherence p = .ok (t.1,
        { waitQueue := kept Fate.leaves vs, sendQueue := t.2, cycle := p.cycle + 1 }) := by
      simp only [PIMMctrl.step, hscan, Outcome.ok_bind]
      rfl
    refine ⟨t.1, _, hstep, fun req hreq hdue => ?_⟩
    have hD : (PIMMctrl.discipline cfg info).step coherence p = .ok
        { waitQueue := kept Fate.leaves vs, sendQueue := t.2, cycle := p.cycle + 1 } := by
      simp only [PIMMctrl.discipline, hstep]
      rfl
    -- what the step keeps waits for its flush, and what it does not keep is forwarded
    by_cases hwait : req ∈ kept Fate.leaves vs
    · obtain ⟨fate, hv, hstays⟩ := mem_kept.mp hwait
      obtain ⟨u, u', hu, hvisit⟩ := visits_verdict (fun _ _ _ _ hI hv => hI.visit hmodel hv)
        hfirst hvs (req, fate) hv
      obtain ⟨-, -, ⟨hleaves, -⟩ | ⟨-, hdirty⟩⟩ := hu.verdict hmodel hvisit hdue
      · exact absurd hleaves (by simp [hstays])
      · exact .inr ⟨hwait, hdirty, (hready req hreq hdue).1.2⟩
    · exact .inl ((PIMMctrl.lawful hmodel info).forwarded_of_gone hD hreq hwait)

/-! ### The callbacks -/

theorem avoids_releseLock (info : List (Region Obj)) (s : SpinLock) (addr : UInt64) :
    Avoids .nullReference (SpinLock.releseLock info s addr) := by
  have hresize : Avoids .nullReference (MemorySelector.resize info addr) := by
    cases hl : info.getLast? with
    | none => simp [MemorySelector.resize, MemorySelector.lastRegion_eq, hl]
    | some last =>
      rw [MemorySelector.resize_eq hl]
      split_ifs <;> simp
  apply Avoids.bind
  · apply Avoids.bind
    · apply hresize.bind
      intro addr_ _
      split_ifs <;> simp
    · intro index _
      exact avoids_ok _
  · intro p _
    apply (avoids_listAt (by decide) _ _).bind
    intro data _
    apply (avoids_arrayAt (by decide) _ _).bind
    intro bit _
    exact avoids_ok _

theorem avoids_index (c : CacheArray) (b : UInt64) : Avoids .nullReference (c.index b) := by
  unfold CacheArray.index
  split_ifs <;> simp

theorem avoids_searchBlock (c : Cache) (b : UInt64) (t : RequestType) :
    Avoids .nullReference (Cache.searchBlock c b t) := by
  apply (avoids_index _ b).bind
  intro i _
  split_ifs <;> exact avoids_ok _

theorem avoids_add (c : Cache) (b : UInt64) (t : RequestType) (pid : Int) :
    Avoids .nullReference (Cache.add c b t pid) := by
  apply (avoids_index _ b).bind
  intro i _
  dsimp only
  split
  · simp
  · split <;> simp

/-- The fill of a memory-side cache uses no object that may be missing. -/
theorem PIMProc.avoids_fill (cfg : Config) (p : PIMProc) (b : UInt64) :
    Avoids .nullReference (p.fill cfg b) := by
  unfold fill
  dsimp only
  split_ifs
  · apply (avoids_searchBlock _ b .read).bind
    rintro ⟨hit, l1⟩ _
    cases hit with
    | true => exact avoids_ok _
    | false =>
      apply (avoids_add l1 b .read _).bind
      rintro ⟨victim, l1'⟩ _
      exact avoids_ok _
  · exact avoids_ok _

theorem PIMProc.avoids_releseLock {info : List (Region Obj)} {coherence : Coherence}
    (h : coherence.spinLock.isSome) (addr : UInt64) :
    Avoids .nullReference (PIMProc.releseLock info coherence addr) := by
  obtain ⟨lock, hlock⟩ := Option.isSome_iff_exists.mp h
  unfold PIMProc.releseLock
  rw [hlock]
  apply (PIMSim.avoids_releseLock info lock addr).bind
  intro lock' _
  exact avoids_ok _

theorem PIMProc.isSome_releseLock {info : List (Region Obj)} {coherence coherence' : Coherence}
    {addr : UInt64} (h : PIMProc.releseLock info coherence addr = .ok coherence') :
    coherence'.spinLock.isSome := by
  simp only [PIMProc.releseLock, Outcome.bind_eq_ok] at h
  obtain ⟨lock, -, lock', -, heq⟩ := h
  cases heq
  rfl

/-- With a lock table no callback misses it. -/
theorem PIMProc.avoids_callbacks (cfg : Config) {info : List (Region Obj)} {coherence : Coherence}
    (h : coherence.spinLock.isSome) (p : PIMProc) (callback : CallBackInfo) :
    Avoids .nullReference (p.handleReadCallback cfg info coherence callback) ∧
      Avoids .nullReference (p.handleWriteCallback cfg info coherence callback) := by
  have hfinish : ∀ c : Coherence, c.spinLock.isSome → Avoids .nullReference (do
      let p ← p.fill cfg callback.blockAddr
      let c ← PIMProc.releseLock info c callback.address
      return (c, p) : Outcome (Coherence × PIMProc)) := by
    intro c hc
    apply (p.avoids_fill cfg callback.blockAddr).bind
    intro p' _
    apply (PIMProc.avoids_releseLock hc callback.address).bind
    intro c' _
    exact avoids_ok _
  refine ⟨?_, hfinish coherence h⟩
  unfold handleReadCallback
  split_ifs
  · apply (PIMProc.avoids_releseLock h callback.address).bind
    intro c hc
    exact hfinish c (isSome_releseLock hc)
  · exact hfinish coherence h

theorem PIMProc.fill_fresh (cfg : Config) : ∃ p, PIMProc.fresh.fill cfg 0 = .ok p := by
  have hfill : (PIMProc.fresh.fill cfg 0).map (fun _ => ()) = .ok () := by
    unfold PIMProc.fill
    cases cfg.pimUseL1Cache <;> rfl
  obtain ⟨p, hp, -⟩ := Outcome.exists_of_map_eq_ok hfill
  exact ⟨p, hp⟩

/-- Without a lock table a write callback throws. -/
theorem PIMProc.writeCallback_null {cfg : Config} (info : List (Region Obj)) {coherence : Coherence}
    (h : coherence.spinLock = none) (callback : CallBackInfo) (hblock : callback.blockAddr = 0) :
    PIMProc.fresh.handleWriteCallback cfg info coherence callback = .error .nullReference := by
  obtain ⟨p, hp⟩ := PIMProc.fill_fresh cfg
  simp only [handleWriteCallback, hblock, hp, releseLock, h, spinLockOf, Outcome.ok_bind,
    Outcome.error_bind]

/-! ### Progress -/

/-- The host's controller forwards what is not locked, when its step returns. -/
theorem Mctrl.forwarded_or_locked {cfg : Config} {info : List (Region Obj)}
    {lock : Option SpinLock} {c c' : Controller} (hmodel : cfg.consistencyModel = .spinLock)
    (h : Mctrl.step cfg info lock c = .ok c') {req : ProcRequest} (hreq : req ∈ c.waitQueue)
    (hdue : Controller.due cfg (c.cycle + 1) req = true) :
    Forwarded info (Mctrl.transfer info) c' req ∨ ∃ l, lock = some l ∧
      SpinLock.getLockState info l req.actualAddr = .ok true := by
  by_cases hkept : req ∈ c'.waitQueue
  · obtain ⟨fate, -, ⟨-, hearly⟩ | ⟨-, hlocked⟩⟩ :=
      (Mctrl.lawful hmodel info).held_of_kept (D := Mctrl.discipline cfg info) h hkept
    · rw [hdue] at hearly
      cases hearly
    · exact .inr hlocked
  · exact .inl ((Mctrl.lawful hmodel info).forwarded_of_gone (D := Mctrl.discipline cfg info) h hreq
      hkept)

/-! ### The coherence component in a run -/

namespace Coherence

variable {cfg : Config} {info : List (Region Obj)} {c c' : Coherence}

theorem Initialised.releseLock {addr : UInt64} (h : c.Initialised cfg)
    (hrelese : PIMProc.releseLock info c addr = .ok c') : c'.Initialised cfg := by
  obtain ⟨lock, hlock, hrelese⟩ := Outcome.bind_eq_ok.mp hrelese
  obtain ⟨lock', -, heq⟩ := Outcome.bind_eq_ok.mp hrelese
  cases heq
  have hmodel := h.2.mp (Option.isSome_iff_exists.mpr ⟨lock, spinLockOf_eq_ok.mp hlock⟩)
  exact ⟨h.1, iff_of_true rfl hmodel⟩

theorem Initialised.readCallback {p p' : PIMProc} {callback : CallBackInfo} (h : c.Initialised cfg)
    (hcall : p.handleReadCallback cfg info c callback = .ok (c', p')) : c'.Initialised cfg := by
  unfold PIMProc.handleReadCallback at hcall
  split_ifs at hcall
  · simp only [Outcome.bind_eq_ok] at hcall
    obtain ⟨c₁, hfirst, p₁, -, c₂, hlast, heq⟩ := hcall
    cases heq
    exact (h.releseLock hfirst).releseLock hlast
  · simp only [pure_bind, Outcome.bind_eq_ok] at hcall
    obtain ⟨p₁, -, c₂, hlast, heq⟩ := hcall
    cases heq
    exact h.releseLock hlast

theorem Initialised.writeCallback {p p' : PIMProc} {callback : CallBackInfo} (h : c.Initialised cfg)
    (hcall : p.handleWriteCallback cfg info c callback = .ok (c', p')) : c'.Initialised cfg := by
  simp only [PIMProc.handleWriteCallback, Outcome.bind_eq_ok] at hcall
  obtain ⟨p₁, -, c₂, hlast, heq⟩ := hcall
  cases heq
  exact h.releseLock hlast

theorem Initialised.step {p p' : Controller} (h : c.Initialised cfg)
    (hstep : PIMMctrl.step cfg info c p = .ok (c', p')) : c'.Initialised cfg := by
  obtain ⟨⟨⟨c₁, queues⟩, waiting⟩, hscan, heq⟩ := Outcome.bind_eq_ok.mp hstep
  cases heq
  obtain ⟨vs, hvs, -⟩ := scan_eq_ok.mp hscan
  refine visits_rest_rule (P := fun (s : Coherence × List (List MemRequest)) _ =>
    s.1.Initialised cfg) (fun s req _ s' fate h hvisit => ?_) h hvs
  by_cases hmodel : cfg.consistencyModel = .spinLock
  · rcases PIMMctrl.visit_cases hmodel hvisit with ⟨-, rfl, -⟩ |
      ⟨-, lock, lock', flushed, host, -, -, -, ⟨-, hc, -⟩ | ⟨-, -, -, lock'', -, hc⟩⟩
    · exact h
    · rw [hc]
      exact ⟨h.1, iff_of_true rfl hmodel⟩
    · rw [hc]
      exact ⟨h.1, iff_of_true rfl hmodel⟩
  · have heq : s' = s := by
      unfold PIMMctrl.visit at hvisit
      dsimp only at hvisit
      split_ifs at hvisit <;> cases hvisit <;> rfl
    rw [heq]
    exact h

end Coherence

namespace System

variable {cfg : Config} {info : List (Region Obj)} {s s' : System}

theorem initialised_callBack {req : MemRequest} {onHost : Core → Outcome Core}
    {onPim : Coherence → PIMProc → Outcome (Coherence × PIMProc)}
    (hone : ∀ c c' p p', c.Initialised cfg → onPim c p = .ok (c', p') → c'.Initialised cfg)
    (h : s.coherence.Initialised cfg) (hs : s.callBack req onHost onPim = .ok s') :
    s'.coherence.Initialised cfg := by
  unfold callBack at hs
  split_ifs at hs
  · simp only [Outcome.bind_eq_ok] at hs
    obtain ⟨_, -, ⟨coherence, units⟩, hcall, heq⟩ := hs
    cases heq
    exact pimCallbacks_invariant hone h hcall
  · simp only [Outcome.bind_eq_ok] at hs
    obtain ⟨_, -, host, -, heq⟩ := hs
    cases heq
    exact h

theorem initialised_written (h : s.coherence.Initialised cfg) (req : MemRequest) :
    (s.written req).coherence.Initialised cfg := by
  unfold written
  split_ifs <;> exact h

theorem initialised_finish {req : MemRequest} (h : s.coherence.Initialised cfg)
    (hs : s.finish cfg info req = .ok s') : s'.coherence.Initialised cfg := by
  unfold finish at hs
  dsimp only at hs
  cases hmemtype : req.memtype <;> rw [hmemtype] at hs
  case read => exact initialised_callBack (fun _ _ _ _ hc => hc.readCallback) h hs
  case write =>
    refine initialised_callBack (fun _ _ _ _ hc => hc.writeCallback) ?_ hs
    exact initialised_written h req
  case flush =>
    cases hs
    exact initialised_written h req
  case load => cases hs
  case store => cases hs
  case returnData =>
    cases hs
    exact h
  case null =>
    cases hs
    exact h

/-- **A transition** keeps the model of the coherence component, and its lock table. -/
theorem initialised_step {e : Event} (h : s.coherence.Initialised cfg)
    (hs : System.step cfg info s e = .ok s') : s'.coherence.Initialised cfg := by
  cases e with
  | procStep i =>
    obtain ⟨host, -, heq⟩ := Outcome.bind_eq_ok.mp hs
    cases heq
    exact h
  | mctrlStep =>
    obtain ⟨mctrl, -, heq⟩ := Outcome.bind_eq_ok.mp hs
    cases heq
    exact h
  -- Of the two controllers only this one takes locks.
  | pimMctrlStep =>
    obtain ⟨⟨coherence, pimMctrl⟩, hstep, heq⟩ := Outcome.bind_eq_ok.mp hs
    cases heq
    exact h.step hstep
  | pimAdd req =>
    cases hs
    exact h
  | take pid =>
    obtain ⟨⟨req, mctrl⟩, -, heq⟩ := Outcome.bind_eq_ok.mp hs
    cases heq
    exact h
  | takePim pid =>
    obtain ⟨⟨req, pimMctrl⟩, -, heq⟩ := Outcome.bind_eq_ok.mp hs
    cases heq
    exact h
  | merge i j =>
    cases hs
    unfold merge
    split
    · split_ifs <;> exact h
    · exact h
  | complete k =>
    simp only [System.step, complete] at hs
    split at hs
    · cases hs
      exact h
    · exact initialised_finish (s := { s with memory := s.memory.eraseIdx k }) h hs
  | flush addr actual =>
    obtain ⟨⟨stall, host⟩, -, heq⟩ := Outcome.bind_eq_ok.mp hs
    cases heq
    exact h
  | tick =>
    cases hs
    exact h

end System

variable {cfg : Config} {P : Platform Obj} {s₀ s : System} {es : List Event}

theorem Coherence.initialised_of_exec (hinit : System.init cfg P = .ok s₀)
    (h : exec (System.step cfg P.memory) s₀ es = .ok s) : s.coherence.Initialised cfg := by
  obtain ⟨coherence, hc, heq⟩ := Outcome.bind_eq_ok.mp hinit
  cases heq
  exact exec_invariant (I := fun s => s.coherence.Initialised cfg)
    (fun _ _ _ hI hstep => System.initialised_step hI hstep) (initialised_init hc) h

/-- **In every reachable state progress is made exactly when the state is served**, whatever waits in
the controllers: the consistency model is the spin lock, and what the steps look up is there. -/
theorem progress_iff (hinit : System.init cfg P = .ok s₀)
    (h : exec (System.step cfg P.memory) s₀ es = .ok s) (c p : Controller) :
    Progress cfg P.memory s.coherence c p ↔ Served cfg P.memory s.coherence c p := by
  have hkeeps := Coherence.initialised_of_exec hinit h
  have htidy := (Host.tidy_of_exec hinit h).1
  constructor
  · intro hprogress
    have hmodel : cfg.consistencyModel = .spinLock := by
      by_contra hne
      -- Under the other models there is no lock table, and a write callback throws.
      have hnone : s.coherence.spinLock = none := by
        rw [← Option.not_isSome_iff_eq_none, hkeeps.2]
        exact hne
      exact (hprogress.callbacks PIMProc.fresh
        { address := 0, blockAddr := 0, pim := true, pid := [] }).2
          (PIMProc.writeCallback_null P.memory hnone _ rfl)
    obtain ⟨c', hstep, -⟩ := hprogress.host
    exact ⟨hmodel, (Mctrl.step_returns hmodel).mp ⟨c', hstep⟩,
      (PIMMctrl.step_progress_iff hmodel (hkeeps.2.mpr hmodel) htidy).mp hprogress.pim⟩
  · intro hserved
    have hlock := hkeeps.2.mpr hserved.model
    obtain ⟨c', hstep⟩ := (Mctrl.step_returns hserved.model).mpr hserved.host
    refine ⟨⟨c', hstep, fun req hreq hdue => ?_⟩, ?_, fun p callback => ?_⟩
    · exact Mctrl.forwarded_or_locked hserved.model hstep hreq hdue
    · exact (PIMMctrl.step_progress_iff hserved.model hlock htidy).mpr hserved.pim
    · exact PIMProc.avoids_callbacks cfg hlock p callback

/-- A processor has written a block, which is dirty in both caches. A request of the memory side for
the block waits for its flush, and a request of the host is forwarded. -/
theorem progress_one_flush : ∃ s,
    exec (System.step {} oneObject) (smallSystem {} oneWrite) writeBlock = .ok s ∧
      SeesDirty {} s.coherence.host 64 ∧ Progress {} oneObject s.coherence
        { waitQueue := [{}], sendQueue := [[]] }
        { waitQueue := [{ actualAddr := 64, blockAddr := 64 }], sendQueue := [[]] } := by
  have hrun : (exec (System.step {} oneObject) (smallSystem {} oneWrite) writeBlock).map (fun s =>
      (s.coherence.spinLock, decide (SeesDirty {} s.coherence.host 64),
        decide (s.coherence.host.Flushable {} 64))) = .ok (some SpinLock.freeLock, true, true) := by
    decide +kernel
  obtain ⟨s, hs, hstate⟩ := Outcome.exists_of_map_eq_ok hrun
  obtain ⟨hlock, hstate⟩ := Prod.mk.inj hstate
  obtain ⟨hdirty, hflushable⟩ := Prod.mk.inj hstate
  have hid : MemorySelector.getId oneObject 0 = .ok 0 := by decide +kernel
  have hid' : MemorySelector.getId oneObject 64 = .ok 0 := by decide +kernel
  have hfree : SpinLock.getLockState oneObject SpinLock.freeLock 0 = .ok false := by decide +kernel
  have hset : (SpinLock.setlock oneObject SpinLock.freeLock 64).map (fun _ => ()) = .ok () := by
    decide +kernel
  obtain ⟨lock', hlock', -⟩ := Outcome.exists_of_map_eq_ok hset
  have hinit : System.init {} (smallPlatform oneWrite) = .ok (smallSystem {} oneWrite) :=
    init_smallPlatform rfl rfl oneWrite
  refine ⟨s, hs, of_decide_eq_true hdirty, (progress_iff hinit hs _ _).mpr ⟨rfl, ?_, ?_⟩⟩
  · intro req hreq _
    obtain rfl := List.mem_singleton.mp hreq
    exact ⟨SpinLock.freeLock, false, hlock, hfree, fun _ => ⟨0, hid, by decide⟩⟩
  · intro req hreq _
    obtain rfl := List.mem_singleton.mp hreq
    exact ⟨⟨⟨SpinLock.freeLock, lock', hlock, hlock'⟩, 0, hid', Nat.zero_lt_one⟩,
      of_decide_eq_true hflushable⟩

/-- Under the model `NoCache` the host's controller keeps its requests for ever. -/
theorem not_progress_noCache : ∃ s₀,
    System.init { consistencyModel := .noCache } (smallPlatform oneWrite) = .ok s₀ ∧
      ¬ Progress { consistencyModel := .noCache } oneObject s₀.coherence
        { waitQueue := [{}], sendQueue := [[]] } { sendQueue := [[]] } := by
  refine ⟨_, rfl, fun h => ?_⟩
  obtain ⟨c', hstep, hall⟩ := h.host
  cases hstep
  rcases hall {} (by simp) rfl with ⟨hgone, -⟩ | ⟨lock, hlock, -⟩
  · exact hgone (by decide)
  · cases hlock

end PIMSim
