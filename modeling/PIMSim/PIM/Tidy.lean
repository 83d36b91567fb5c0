import PIMSim.PIM.Moves

/-!
# The caches in every reachable state

No cache holds a block twice, a line of the shared cache without the valid bit is blank, the flush
queue of the coherence component is empty, as nothing is ever added to it, and the page table has a
page only behind a translation that returned.

## Main definitions

* `Core.Tidy`, `Host.Tidy`: the invariant of one processor's stores, and of the host

## Main results

* `Core.Effect.tidy`: every effect keeps it
* `Host.tidy_of_exec`: it holds in every reachable state
-/

namespace PIMSim

open CSharp Transition CacheArray

variable {Obj : Type} {cfg : Config} {w : Waiver} {W : Host → Waiver}

namespace Core

variable {c c' : Core}

/-- No cache holds a block twice, nothing is in the flush queue, and the page table is sound. -/
structure Tidy (c : Core) : Prop where
  l1 : Distinct c.proc.l1Cache
  shared : Distinct c.world.sharedCache
  marked : Marked c.world.sharedCache
  flushQueue : c.world.flushQueue = []
  tlb : c.world.tlb.Sound

/-- A block that a search of the shared cache misses is not there, unless it marks blank lines. -/
theorem Tidy.absent {b : UInt64} (h : c.Tidy)
    (hb : ∀ e ∈ c.world.sharedCache.lines (b.toNat % c.world.sharedCache.maxSet),
      (e.blockAddr = b && e.valid) = false) : b ≠ NULL → ¬ Present c.world.sharedCache b := by
  rintro hne ⟨e, he, heb⟩
  -- A line of the block that is no hit has no valid bit, so it is blank.
  have hvalid : e.valid = false := by simpa [heb] using hb e he
  exact hne (heb ▸ h.marked _ e he hvalid)

/-- A fill of the shared cache, of a block that a search misses. -/
theorem Tidy.addShared {b v : UInt64} {t : RequestType} {shared : SharedCache} {pid : Int}
    (h : c.Tidy) (hb : ∀ e ∈ c.world.sharedCache.lines (b.toNat % c.world.sharedCache.maxSet),
      (e.blockAddr = b && e.valid) = false)
    (hadd : SharedCache.add c.world.sharedCache b t pid = .ok (v, shared)) :
    Distinct shared ∧ Marked shared := by
  obtain ⟨-, hdistinct, hmarked, -⟩ := SharedCache.add_spec hadd (h.absent hb) h.marked
  exact ⟨hdistinct h.shared, hmarked⟩

theorem Tidy.queueWriteback {v : UInt64} (h : c.Tidy) (hq : c.queueWriteback cfg v = .ok c') :
    c'.Tidy := by
  obtain ⟨-, rfl⟩ := queueWriteback_eq_ok.mp hq
  exact ⟨h.l1, h.shared, h.marked, h.flushQueue, h.tlb⟩

/-- **Every effect** keeps the caches tidy. -/
theorem Effect.tidy (heffect : Effect cfg w c c') (h : c.Tidy) : c'.Tidy := by
  cases heffect with
  | quiet hsame =>
    refine ⟨fun s => ?_, fun s => ?_, fun s => ?_, hsame.flushQueue.trans h.flushQueue,
      hsame.tlb h.tlb⟩
    · rw [hsame.l1.1]
      exact h.l1 s
    · rw [hsame.shared.1]
      exact h.shared s
    · rw [hsame.shared.1]
      exact h.marked s
  | note => exact ⟨h.l1, h.shared, h.marked, h.flushQueue, h.tlb⟩
  | searchL1 hsearch =>
    obtain ⟨⟨hit, l1⟩, hone, heq⟩ := Outcome.bind_eq_ok.mp hsearch
    cases heq
    obtain ⟨-, hdistinct, -⟩ := search_spec hone (by simp)
    exact ⟨hdistinct h.l1, h.shared, h.marked, h.flushQueue, h.tlb⟩
  | searchShared hsearch =>
    obtain ⟨⟨hit, shared⟩, hone, heq⟩ := Outcome.bind_eq_ok.mp hsearch
    cases heq
    obtain ⟨-, hdistinct, hmarked, -⟩ := search_spec hone fun e he => by simp_all
    exact ⟨h.l1, hdistinct h.shared, hmarked h.marked, h.flushQueue, h.tlb⟩
  -- A fill keeps the lines distinct because the block has missed before.
  | fillL1 hb hadd =>
    obtain ⟨-, hdistinct, -⟩ := Cache.add_spec hadd hb
    split_ifs <;> exact ⟨hdistinct h.l1, h.shared, h.marked, h.flushQueue, h.tlb⟩
  | fillShared hb hadd =>
    obtain ⟨hdistinct, hmarked⟩ := h.addShared hb hadd
    exact ⟨h.l1, hdistinct, hmarked, h.flushQueue, h.tlb⟩
  | evict hb hadd hq =>
    obtain ⟨hdistinct, hmarked⟩ := h.addShared hb hadd
    refine Tidy.queueWriteback ?_ hq
    exact ⟨h.l1, hdistinct, hmarked, h.flushQueue, h.tlb⟩
  | removeL1 _ hremove =>
    obtain ⟨-, hdistinct, -⟩ := remove_spec hremove
    exact ⟨hdistinct h.l1, h.shared, h.marked, h.flushQueue, h.tlb⟩
  | removeShared _ hremove =>
    obtain ⟨-, hdistinct, hmarked, -⟩ := remove_spec hremove
    exact ⟨h.l1, hdistinct h.shared, hmarked h.marked, h.flushQueue, h.tlb⟩
  | @queueFlush addr actualAddr =>
    unfold Core.queueFlush
    split_ifs
    · exact ⟨h.l1, h.shared, h.marked, h.flushQueue, h.tlb⟩
    · rcases addToMctrl_cases cfg c (c.flushItem addr actualAddr) with hadd | hadd <;>
        rw [hadd] <;> exact ⟨h.l1, h.shared, h.marked, h.flushQueue, h.tlb⟩
  | @send req =>
    rcases addToMctrl_cases cfg c req with hadd | hadd <;> rw [hadd] <;>
      exact ⟨h.l1, h.shared, h.marked, h.flushQueue, h.tlb⟩
  | writeBack =>
    unfold writeBackOne handleWritebackQueue
    cases c.proc.writebackReq with
    | nil => exact h
    | cons req reqs =>
      rcases addToMctrl_cases cfg c req with hadd | hadd <;> simp only [hadd] <;>
        exact ⟨h.l1, h.shared, h.marked, h.flushQueue, h.tlb⟩
  | movedOn => exact ⟨h.l1, h.shared, h.marked, h.flushQueue, h.tlb⟩

theorem Effects.tidy (heffects : Effects cfg w c c') (h : c.Tidy) : c'.Tidy :=
  heffects.invariant (fun _ _ hc heffect => heffect.tidy hc) h

end Core

/-- The record of a write keeps the processors and the caches. -/
theorem System.written_eq (s : System) (req : MemRequest) :
    (s.written req).coherence.host.procs = s.coherence.host.procs ∧
      (s.written req).coherence.host.world = s.coherence.host.world := by
  unfold System.written
  split_ifs <;> exact ⟨rfl, rfl⟩

namespace Host

/-- Every processor's stores are tidy. -/
structure Tidy (host : Host) : Prop where
  l1 : ∀ proc ∈ host.procs, Distinct proc.l1Cache
  shared : Distinct host.world.sharedCache
  marked : Marked host.world.sharedCache
  flushQueue : host.world.flushQueue = []
  tlb : host.world.tlb.Sound

theorem Tidy.core {host : Host} {i : ℕ} {proc : Proc} (h : host.Tidy)
    (hproc : host.procs[i]? = some proc) : (host.core proc).Tidy :=
  ⟨h.l1 proc (List.mem_of_getElem? hproc), h.shared, h.marked, h.flushQueue, h.tlb⟩

/-- A processor is put back after some effects. -/
theorem Tidy.put {host : Host} {i : ℕ} {proc : Proc} {c : Core} (h : host.Tidy)
    (hproc : host.procs[i]? = some proc) (heffects : Core.Effects cfg w (host.core proc) c) :
    (host.put i c).Tidy := by
  have hc : c.Tidy := heffects.tidy (h.core hproc)
  refine ⟨fun p hp => ?_, hc.shared, hc.marked, hc.flushQueue, hc.tlb⟩
  rcases List.mem_or_eq_of_mem_set hp with hp | rfl
  · exact h.l1 p hp
  · exact hc.l1

theorem Tidy.work {host host' : Host} (h : host.Tidy) (hwork : Work cfg W host host') :
    host'.Tidy := by
  obtain ⟨hproc, heffects, -⟩ := hwork
  exact h.put hproc heffects

theorem Tidy.move {host host' : Host} (h : host.Tidy) (hmove : Move cfg W host host') :
    host'.Tidy := by
  cases hmove with
  | work hwork => exact h.work hwork
  | written => exact ⟨h.l1, h.shared, h.marked, h.flushQueue, h.tlb⟩
  | @unqueue b =>
    refine ⟨h.l1, h.shared, h.marked, ?_, h.tlb⟩
    show host.world.flushQueue.erase b = []
    rw [h.flushQueue]
    rfl
  | mctrl => exact ⟨h.l1, h.shared, h.marked, h.flushQueue, h.tlb⟩
  | tick => exact ⟨h.l1, h.shared, h.marked, h.flushQueue, h.tlb⟩

theorem Tidy.written {s : System} (h : s.coherence.host.Tidy) (req : MemRequest) :
    (s.written req).coherence.host.Tidy := by
  unfold System.written
  split_ifs
  · exact h
  · exact ⟨h.l1, h.shared, h.marked, h.flushQueue, h.tlb⟩

/-- The first request of a processor is paired with its instruction. -/
def Paired (host : Host) : Prop := ∀ proc ∈ host.procs, (host.core proc).Paired

theorem Paired.put {host : Host} {i : ℕ} {c : Core} (h : host.Paired) (hc : c.Paired) :
    (host.put i c).Paired := by
  intro p hp
  rcases List.mem_or_eq_of_mem_set hp with hp | rfl
  · exact h p hp
  · exact hc

theorem Paired.move {host host' : Host} (h : host.Paired) (hmove : Move cfg W host host') :
    host'.Paired := by
  cases hmove with
  | work hwork =>
    obtain ⟨hproc, -, haside⟩ := hwork
    exact h.put (haside.paired (h _ (List.mem_of_getElem? hproc)))
  | written => exact h
  | unqueue => exact h
  | mctrl => exact h
  | tick => exact h

end Host

/-! ### Runs -/

theorem System.host_of_init {P : Platform Obj} {s : System} (h : System.init cfg P = .ok s) :
    s.coherence.host = P.host cfg := by
  obtain ⟨coherence, hc, heq⟩ := Outcome.bind_eq_ok.mp h
  cases heq
  unfold Coherence.init at hc
  split_ifs at hc
  · obtain ⟨lock, -, heq⟩ := Outcome.bind_eq_ok.mp hc
    cases heq
    rfl
  · cases hc
    rfl

theorem Host.tidy_host (P : Platform Obj) : (P.host cfg).Tidy := by
  refine ⟨fun proc hproc => ?_, distinct_create _ _, marked_create _ _, rfl,
    PageConverter.sound_create _ _ _ _ _⟩
  obtain ⟨i, hi, rfl⟩ := List.mem_mapIdx.mp hproc
  exact distinct_create _ _

theorem Host.paired_host (P : Platform Obj) : (P.host cfg).Paired := by
  intro proc hproc
  obtain ⟨i, hi, rfl⟩ := List.mem_mapIdx.mp hproc
  rfl

/-- **A transition** keeps the caches tidy, and the requests with their instructions. -/
theorem Host.tidy_step {info : List (Region Obj)} {s s' : System} {e : Event}
    (h : s.coherence.host.Tidy ∧ s.coherence.host.Paired)
    (hs : System.step cfg info s e = .ok s') :
    s'.coherence.host.Tidy ∧ s'.coherence.host.Paired := by
  rcases System.step_cases hs with ⟨i, proc, c, rfl, hproc, hstep, rfl⟩ | hmoves
  · have hpassage := Core.step_passage (h.2 proc (List.mem_of_getElem? hproc)) Core.waives_all hstep
    exact ⟨h.1.put hproc hpassage.effects, h.2.put hpassage.paired⟩
  · exact hmoves.invariant (I := fun host => host.Tidy ∧ host.Paired)
      (fun _ _ h hmove => ⟨h.1.move hmove, h.2.move hmove⟩) h

/-- **In every reachable state** the caches are tidy, and the requests with their instructions. -/
theorem Host.tidy_of_exec {P : Platform Obj} {s₀ s : System} {es : List Event}
    (hinit : System.init cfg P = .ok s₀) (h : exec (System.step cfg P.memory) s₀ es = .ok s) :
    s.coherence.host.Tidy ∧ s.coherence.host.Paired := by
  have hfirst : s₀.coherence.host.Tidy ∧ s₀.coherence.host.Paired := by
    rw [System.host_of_init hinit]
    exact ⟨tidy_host P, paired_host P⟩
  exact exec_invariant (I := fun s => s.coherence.host.Tidy ∧ s.coherence.host.Paired)
    (fun _ _ _ hI hstep => tidy_step hI hstep) hfirst h

end PIMSim
