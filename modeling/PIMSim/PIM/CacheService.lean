import PIMSim.Library.Service
import PIMSim.PIM.PIMCore
import PIMSim.Procs.Effects
import PIMSim.Procs.Replacement

/-!
# The service of the requests that wait for a cache

The requests of the first-level cache and of the shared cache wait in one queue, each until its own
latency has passed. The service looks at the head again and again, until the queue is empty.

## Main definitions

* `CacheArray.Ready n`: a cache can serve `n` more calls
* `Core.ServesDue`, `PIMCore.ServesDue`: the service ends, and takes the due requests at the head of
  the queue

## Main results

* `fill_ready`: a fill of a cache that can serve its calls
* `serves_iff`: the queues that are served are those whose requests are all due
-/

namespace PIMSim

open CSharp CacheArray FirstMatch

namespace CacheArray

/-- The cache can serve `n` more calls: it has sets and ways, and its cycle stays below the value that
a fill takes for the largest timestamp. -/
structure Ready (n : ℕ) (c : CacheArray) : Prop where
  sets : 0 < c.maxSet
  ways : ∀ i < c.maxSet, c.lines i ≠ []
  stamps : ∀ i, ∀ e ∈ c.lines i, e.timestamp.toNat ≤ c.cycle.toNat
  calls : c.cycle.toNat + n < NULL.toNat

theorem ready_create {assoc maxSet n : ℕ} (hassoc : 0 < assoc) (hmax : 0 < maxSet)
    (hn : n < NULL.toNat) : Ready n (create assoc maxSet) where
  sets := hmax
  ways := by
    intro i _ hnil
    exact absurd (List.replicate_eq_nil_iff _ |>.mp hnil) (Nat.ne_of_gt hassoc)
  stamps := by
    intro i e he
    rw [List.eq_of_mem_replicate he]
    exact Nat.le_refl 0
  calls := by
    rw [show (create assoc maxSet).cycle.toNat = 0 from rfl, Nat.zero_add]
    exact hn

variable {n : ℕ} {c : CacheArray}

/-- A cache can serve fewer calls. -/
theorem Ready.mono {m : ℕ} (h : Ready n c) (hm : m ≤ n) : Ready m c where
  sets := h.sets
  ways := h.ways
  stamps := h.stamps
  calls := by
    have := h.calls
    omega

theorem Ready.toNat_cycle (h : Ready (n + 1) c) : (c.cycle + 1).toNat = c.cycle.toNat + 1 := by
  have hcalls := h.calls
  have hnull : NULL.toNat < 2 ^ 64 := NULL.toNat_lt
  rw [UInt64.toNat_add]
  exact Nat.mod_eq_of_lt (by simp; omega)

theorem Ready.index (h : Ready n c) (b : UInt64) : c.index b = .ok (b.toNat % c.maxSet) :=
  if_neg (Nat.ne_of_gt h.sets)

/-- A call that writes the lines of one set, and marks them with its cycle. -/
theorem Ready.setWays (h : Ready (n + 1) c) {i : ℕ} {ways : List CacheEntity} (hways : ways ≠ [])
    (hmem : ∀ e ∈ ways, e ∈ c.lines i ∨ e.timestamp = c.cycle + 1) :
    Ready n (CacheArray.setWays { c with cycle := c.cycle + 1 } i ways) where
  sets := h.sets
  ways := by
    intro j hj
    rw [setWays_lines]
    split_ifs
    · exact hways
    · exact h.ways j hj
  stamps := by
    intro j e he
    rw [show (CacheArray.setWays { c with cycle := c.cycle + 1 } i ways).cycle = c.cycle + 1 from rfl,
      h.toNat_cycle]
    rw [setWays_lines] at he
    split_ifs at he with hji
    · rcases hmem e he with hold | hnew
      · exact Nat.le_succ_of_le (h.stamps i e hold)
      · rw [hnew, h.toNat_cycle]
    · exact Nat.le_succ_of_le (h.stamps j e he)
  calls := by
    have hcalls := h.calls
    rw [show (CacheArray.setWays { c with cycle := c.cycle + 1 } i ways).cycle = c.cycle + 1 from rfl,
      h.toNat_cycle]
    omega

/-- A search of a cache that can serve it. -/
theorem Ready.search (h : Ready (n + 1) c) (hit : CacheEntity → Bool) (b : UInt64) (t : RequestType) :
    ∃ r c', c.search hit b t = .ok (r, c') ∧ Ready n c' := by
  have hindex : ({ c with cycle := c.cycle + 1 } : CacheArray).index b = .ok (b.toNat % c.maxSet) :=
    h.index b
  simp only [CacheArray.search, hindex, Outcome.ok_bind]
  split_ifs with hany
  · refine ⟨true, _, rfl, h.setWays ?_ fun e he => ?_⟩
    · obtain ⟨e, -, -, hmem⟩ := exists_update hany
      exact List.ne_nil_of_mem hmem
    · rcases mem_update he with he | ⟨f, -, -, rfl⟩
      · exact .inl he
      · exact .inr rfl
  · refine ⟨false, _, rfl, h.sets, h.ways, fun i e he => ?_, ?_⟩
    · rw [h.toNat_cycle]
      exact Nat.le_succ_of_le (h.stamps i e he)
    · have hcalls := h.calls
      rw [h.toNat_cycle]
      omega

end CacheArray

/-- A way is chosen when one of them has a timestamp below the bound. -/
theorem Cache.calculateRep_isSome {ways : List CacheEntity} {i : ℕ} {m : Option ℕ} {t : UInt64}
    (h : m.isSome ∨ ∃ e ∈ ways, e.timestamp < t) : ∃ r k, calculateRep ways i m t = (r, some k) ∧
      (m = some k ∨ i ≤ k ∧ k < i + ways.length) := by
  induction ways generalizing i m t with
  | nil =>
    obtain ⟨k, rfl⟩ : ∃ k, m = some k := by simpa [Option.isSome_iff_exists] using h
    exact ⟨true, k, rfl, .inl rfl⟩
  | cons x ways ih =>
    rw [calculateRep]
    split_ifs with hnull hlt
    · exact ⟨false, i, rfl, .inr ⟨Nat.le_refl i, by simp⟩⟩
    · obtain ⟨r, k, hrep, hk⟩ := ih (i := i + 1) (m := some i) (t := x.timestamp) (.inl rfl)
      refine ⟨r, k, hrep, .inr ?_⟩
      rw [List.length_cons]
      rcases hk with hk | ⟨hik, hk⟩
      · obtain rfl := Option.some.inj hk
        exact ⟨Nat.le_refl _, by omega⟩
      · exact ⟨by omega, by omega⟩
    · have hlater : m.isSome ∨ ∃ e ∈ ways, e.timestamp < t := by
        rcases h with h | ⟨e, he, het⟩
        · exact .inl h
        · rcases List.mem_cons.mp he with rfl | he
          · exact absurd het hlt
          · exact .inr ⟨e, he, het⟩
      obtain ⟨r, k, hrep, hk⟩ := ih (i := i + 1) hlater
      rw [List.length_cons]
      rcases hk with hk | ⟨hik, hk⟩
      · exact ⟨r, k, hrep, .inl hk⟩
      · exact ⟨r, k, hrep, .inr ⟨by omega, by omega⟩⟩

/-- A fill of a first-level cache that can serve it. -/
theorem CacheArray.Ready.add {n : ℕ} {c : Cache} (h : Ready (n + 1) c) (b : UInt64) (t : RequestType)
    (pid : Int) : ∃ v c', Cache.add c b t pid = .ok (v, c') ∧ Ready n c' := by
  have hne := h.ways _ (Nat.mod_lt b.toNat h.sets)
  obtain ⟨e, he⟩ := List.exists_mem_of_ne_nil _ hne
  have hlt : e.timestamp < NULL := by
    have hstamp := h.stamps _ e he
    have hcalls := h.calls
    exact UInt64.lt_iff_toNat_lt.mpr (by omega)
  obtain ⟨r, k, hrep, hk⟩ := Cache.calculateRep_isSome (i := 0) (m := none) (.inr ⟨e, he, hlt⟩)
  obtain ⟨-, hk⟩ := hk.resolve_left (by simp)
  rw [Nat.zero_add] at hk
  have hindex : ({ c with cycle := c.cycle + 1 } : CacheArray).index b = .ok (b.toNat % c.maxSet) :=
    h.index b
  simp only [Cache.add, hindex, Outcome.ok_bind, hrep, List.getElem?_eq_getElem hk]
  refine ⟨_, _, rfl, h.setWays ?_ fun f hf => ?_⟩
  · simpa using hne
  · rcases List.mem_or_eq_of_mem_set hf with hf | rfl
    · exact .inl hf
    · exact .inr rfl

/-- **A fill of a block** makes at most two calls of the cache. -/
theorem fill_ready {n : ℕ} {c : Cache} (h : Ready (n + 2) c) (b : UInt64) (t : RequestType)
    (pid : Int) : ∃ hit c', Cache.searchBlock c b .read = .ok (hit, c') ∧ Ready n c' ∧
      ∃ v c'', Cache.add c' b t pid = .ok (v, c'') ∧ Ready n c'' := by
  obtain ⟨hit, c', hsearch, hready⟩ := h.search (·.blockAddr = b) b .read
  exact ⟨hit, c', hsearch, hready.mono (by omega), hready.add b t pid⟩

/-! ### The host processor -/

namespace Core

/-- **The service of the cache's queue** ends, and takes the requests at its head that are due. -/
def ServesDue (c : Core) : Prop :=
  ∃ c', c.handleCacheReq = .ok c' ∧ c'.proc.cacheReqQueue =
    c.proc.cacheReqQueue.dropWhile fun req => req.tsDeparture ≤ c.proc.cycle

/-- A request is due. -/
def due (c : Core) (req : ProcRequest) : Bool := req.tsDeparture ≤ c.proc.cycle

/-- The service of the head of the queue. -/
def serveCache (req : ProcRequest) (queue : List ProcRequest) (c : Core) : Outcome Core := do
  let c ← c.fillL1 req.blockAddr req.type
  return { c with proc := { c.proc with cacheReqQueue := queue } }.settle req.blockAddr

theorem cacheReqLoop_eq (queue : List ProcRequest) (c : Core) :
    cacheReqLoop queue c = serveQueue due serveCache queue c := by
  induction queue generalizing c with
  | nil => rfl
  | cons req queue ih =>
    simp only [cacheReqLoop, serveQueue, serveCache, due, decide_eq_true_eq, bind_assoc, pure_bind, ih]

/-- A fill of a cache that can serve it leaves the queues and the cycle. -/
theorem fillL1_eq_ok {n : ℕ} {c : Core} (h : Ready (n + 2) c.proc.l1Cache) (b : UInt64)
    (t : RequestType) : ∃ c', c.fillL1 b t = .ok c' ∧ Ready n c'.proc.l1Cache := by
  obtain ⟨hit, l1, hsearch, hready, v, l1', hadd, hready'⟩ := fill_ready h b t c.proc.pid
  have hfirst : c.searchL1 b .read = .ok (hit, c.withL1 l1) := by
    simp [searchL1, hsearch, Outcome.ok_bind, pure, Except.pure]
  simp only [fillL1, hfirst, Outcome.ok_bind]
  cases hit with
  | true => exact ⟨_, rfl, hready⟩
  | false =>
    have hnext : Cache.add (c.withL1 l1).proc.l1Cache b t (c.withL1 l1).proc.pid = .ok (v, l1') := hadd
    simp only [hnext, Bool.not_false, if_true, Outcome.ok_bind]
    split_ifs
    · exact ⟨_, rfl, hready'⟩
    · exact ⟨_, rfl, hready'⟩

theorem serveCache_eq_ok {n : ℕ} {c : Core} (h : Ready (n + 2) c.proc.l1Cache) (req : ProcRequest)
    (queue : List ProcRequest) : ∃ c', serveCache req queue c = .ok c' ∧
      Ready n c'.proc.l1Cache ∧ c'.proc.cacheReqQueue = queue := by
  obtain ⟨c', hfill, hready⟩ := fillL1_eq_ok h req.blockAddr req.type
  rw [serveCache, hfill, Outcome.ok_bind]
  exact ⟨_, rfl, hready, rfl⟩

theorem due_serveCache (req : ProcRequest) (queue : List ProcRequest) (c c' : Core)
    (h : serveCache req queue c = .ok c') : c'.due = c.due := by
  obtain ⟨c₁, hfill, heq⟩ := Outcome.bind_eq_ok.mp h
  obtain ⟨l1, hproc, -⟩ := fillL1_frame hfill
  cases heq
  funext r
  simp only [due, settle, hproc]

/-- What the service needs: the queue, and a cache that can serve its requests. -/
def Serviceable (queue : List ProcRequest) (c : Core) : Prop :=
  Ready (2 * queue.length) c.proc.l1Cache ∧ c.proc.cacheReqQueue = queue

theorem serveCache_serviceable (req : ProcRequest) (queue : List ProcRequest) (c : Core)
    (h : Serviceable (req :: queue) c) :
    ∃ c', serveCache req queue c = .ok c' ∧ Serviceable queue c' :=
  serveCache_eq_ok h.1 req queue

/-- **The queue is served** if and only if all its requests are due. -/
theorem servesDue_iff {c : Core} (h : Ready (2 * c.proc.cacheReqQueue.length) c.proc.l1Cache) :
    c.ServesDue ↔ ∀ req ∈ c.proc.cacheReqQueue, req.tsDeparture ≤ c.proc.cycle := by
  have hserve := serveQueue_iff due_serveCache serveCache_serviceable (fun _ hs => hs.2) ⟨h, rfl⟩
  simp only [← cacheReqLoop_eq, due, decide_eq_true_eq] at hserve
  exact hserve

/-- A queue with a request that is not due is never left. -/
theorem handleCacheReq_stuck {c : Core}
    (h : Ready (2 * c.proc.cacheReqQueue.length) c.proc.l1Cache)
    (hnot : ∃ req ∈ c.proc.cacheReqQueue, c.proc.cycle < req.tsDeparture) :
    c.handleCacheReq = .error .nonTermination := by
  rw [handleCacheReq, cacheReqLoop_eq]
  apply serveQueue_stuck due_serveCache serveCache_serviceable ⟨h, rfl⟩
  simpa [due] using hnot

end Core

/-! ### The processor at the memory side -/

namespace PIMCore

/-- **The service of the cache's queue** ends, and takes the requests at its head that are due. -/
def ServesDue (c : PIMCore) : Prop :=
  ∃ c', c.handleCacheReq = .ok c' ∧
    c'.cacheReqQueue = c.cacheReqQueue.dropWhile fun req => req.tsDeparture ≤ c.cycle

/-- A request is due. -/
def due (c : PIMCore) (req : ProcRequest) : Bool := req.tsDeparture ≤ c.cycle

/-- The service of the head of the queue. -/
def serveCache (req : ProcRequest) (queue : List ProcRequest) (c : PIMCore) : Outcome PIMCore := do
  let c ← c.fillL1 req.blockAddr req.type
  return { c with cacheReqQueue := queue }.settle req.blockAddr

theorem cacheReqLoop_eq (queue : List ProcRequest) (c : PIMCore) :
    cacheReqLoop queue c = serveQueue due serveCache queue c := by
  induction queue generalizing c with
  | nil => rfl
  | cons req queue ih =>
    simp only [cacheReqLoop, serveQueue, serveCache, due, decide_eq_true_eq, bind_assoc, pure_bind, ih]

/-- A fill of the first-level cache changes that cache only. -/
theorem fillL1_frame {c c' : PIMCore} {b : UInt64} {t : RequestType} (h : c.fillL1 b t = .ok c') :
    ∃ l1, c' = { c with l1Cache := l1 } := by
  obtain ⟨⟨hit, l1⟩, -, h⟩ := Outcome.bind_eq_ok.mp h
  cases hit with
  | true =>
    cases h
    exact ⟨l1, rfl⟩
  | false =>
    obtain ⟨⟨v, l1'⟩, -, heq⟩ := Outcome.bind_eq_ok.mp h
    cases heq
    exact ⟨l1', rfl⟩

theorem fillL1_eq_ok {n : ℕ} {c : PIMCore} (h : Ready (n + 2) c.l1Cache) (b : UInt64)
    (t : RequestType) : ∃ c', c.fillL1 b t = .ok c' ∧ Ready n c'.l1Cache := by
  obtain ⟨hit, l1, hsearch, hready, v, l1', hadd, hready'⟩ := fill_ready h b t c.pid
  simp only [fillL1, hsearch, Outcome.ok_bind]
  cases hit with
  | true => exact ⟨_, rfl, hready⟩
  | false =>
    simp only [Bool.not_false, if_true, hadd, Outcome.ok_bind]
    exact ⟨_, rfl, hready'⟩

theorem serveCache_eq_ok {n : ℕ} {c : PIMCore} (h : Ready (n + 2) c.l1Cache) (req : ProcRequest)
    (queue : List ProcRequest) : ∃ c', serveCache req queue c = .ok c' ∧
      Ready n c'.l1Cache ∧ c'.cacheReqQueue = queue := by
  obtain ⟨c', hfill, hready⟩ := fillL1_eq_ok h req.blockAddr req.type
  rw [serveCache, hfill, Outcome.ok_bind]
  exact ⟨_, rfl, hready, rfl⟩

theorem due_serveCache (req : ProcRequest) (queue : List ProcRequest) (c c' : PIMCore)
    (h : serveCache req queue c = .ok c') : c'.due = c.due := by
  obtain ⟨c₁, hfill, heq⟩ := Outcome.bind_eq_ok.mp h
  obtain ⟨l1, rfl⟩ := fillL1_frame hfill
  cases heq
  rfl

/-- What the service needs: the queue, and a cache that can serve its requests. -/
def Serviceable (queue : List ProcRequest) (c : PIMCore) : Prop :=
  Ready (2 * queue.length) c.l1Cache ∧ c.cacheReqQueue = queue

theorem serveCache_serviceable (req : ProcRequest) (queue : List ProcRequest) (c : PIMCore)
    (h : Serviceable (req :: queue) c) :
    ∃ c', serveCache req queue c = .ok c' ∧ Serviceable queue c' :=
  serveCache_eq_ok h.1 req queue

/-- **The queue is served** if and only if all its requests are due. -/
theorem servesDue_iff {c : PIMCore} (h : Ready (2 * c.cacheReqQueue.length) c.l1Cache) :
    c.ServesDue ↔ ∀ req ∈ c.cacheReqQueue, req.tsDeparture ≤ c.cycle := by
  have hserve := serveQueue_iff due_serveCache serveCache_serviceable (fun _ hs => hs.2) ⟨h, rfl⟩
  simp only [← cacheReqLoop_eq, due, decide_eq_true_eq] at hserve
  exact hserve

/-- A queue with a request that is not due is never left. -/
theorem handleCacheReq_stuck {c : PIMCore}
    (h : Ready (2 * c.cacheReqQueue.length) c.l1Cache)
    (hnot : ∃ req ∈ c.cacheReqQueue, c.cycle < req.tsDeparture) :
    c.handleCacheReq = .error .nonTermination := by
  rw [handleCacheReq, cacheReqLoop_eq]
  apply serveQueue_stuck due_serveCache serveCache_serviceable ⟨h, rfl⟩
  simpa [due] using hnot

end PIMCore

/-- **The service of the requests that wait for a cache**: either processor's queue is served if and
only if all its requests are due. -/
theorem serves_iff {c : Core} {p : PIMCore}
    (hc : Ready (2 * c.proc.cacheReqQueue.length) c.proc.l1Cache)
    (hp : Ready (2 * p.cacheReqQueue.length) p.l1Cache) :
    (c.ServesDue ↔ ∀ req ∈ c.proc.cacheReqQueue, req.tsDeparture ≤ c.proc.cycle) ∧
      (p.ServesDue ↔ ∀ req ∈ p.cacheReqQueue, req.tsDeparture ≤ p.cycle) :=
  ⟨Core.servesDue_iff hc, PIMCore.servesDue_iff hp⟩

/-- A host processor in the given cycle, with a request that departs in cycle 5. -/
def waitingCore (cycle : UInt64) : Core where
  proc := {
    pid := 0
    l1Cache := create 1 1
    insW := { ins := [], size := 4 }
    cacheReqQueue := [{ blockAddr := 64, tsDeparture := 5 }]
    cycle := cycle }
  world := {
    sharedCache := create 1 1
    tlb := PageConverter.create 4096 1 1 1 false
    mctrl := Controller.init 1 }

/-- A processor at the memory side in the given cycle, with a request that departs in cycle 5. -/
def waitingPIMCore (cycle : UInt64) : PIMCore where
  toPIMProc := { pid := 0, l1Cache := create 1 1, insW := { ins := [], size := 4 } }
  tlb := PageConverter.create 4096 1 1 1 false
  cacheReqQueue := [{ blockAddr := 64, tsDeparture := 5 }]
  cycle := cycle

theorem ready_waiting : Ready 2 (create 1 1) := ready_create Nat.one_pos Nat.one_pos (by decide)

/-- In cycle 5 the request is due. -/
theorem serves_iff_due : (waitingCore 5).ServesDue ∧ (waitingPIMCore 5).ServesDue := by
  obtain ⟨hcore, hpim⟩ := serves_iff (c := waitingCore 5) (p := waitingPIMCore 5) ready_waiting
    ready_waiting
  exact ⟨hcore.mpr (by decide), hpim.mpr (by decide)⟩

/-- In cycle 4 the request is not due, and the service never ends. -/
theorem not_servesDue_early : (waitingCore 4).handleCacheReq = .error .nonTermination ∧
    (waitingPIMCore 4).handleCacheReq = .error .nonTermination ∧
    ¬ (waitingCore 4).ServesDue ∧ ¬ (waitingPIMCore 4).ServesDue := by
  have hcore : (waitingCore 4).handleCacheReq = .error .nonTermination :=
    Core.handleCacheReq_stuck ready_waiting ⟨_, List.mem_singleton_self _, by decide⟩
  have hpim : (waitingPIMCore 4).handleCacheReq = .error .nonTermination :=
    PIMCore.handleCacheReq_stuck ready_waiting ⟨_, List.mem_singleton_self _, by decide⟩
  refine ⟨hcore, hpim, ?_, ?_⟩
  · rintro ⟨c', hserve, -⟩
    rw [hcore] at hserve
    cases hserve
  · rintro ⟨c', hserve, -⟩
    rw [hpim] at hserve
    cases hserve

end PIMSim
