import PIMSim.Procs.Proc
import Mathlib.Logic.Relation

/-!
# What a processor does to the stores

A block of data is held by the caches, the write-back queue and the wait queue of the controller.
Everything a processor does is a sequence of effects on these stores, each with the facts that the
code has established when it comes to it. What the effects may give up is a parameter, so that one
account of the code serves the properties that need no such bound and the one that does.

## Main definitions

* `Core.Holds`: a block is held dirty, or in a request that writes it
* `Waiver`: the blocks whose data may be given up, by the branch that gives it up
* `Core.cacheEvicted`, `Core.callbackEvicted`, `Core.refuses`: what comes next gives up
* `Core.Effect`: one change of the stores
* `Core.Effects`: a sequence of effects

## Main results

* `Core.callback_effects`, `Core.flush_effects`: a completion callback and a flush are sequences of
  effects
-/

namespace PIMSim

open CSharp CacheArray

/-- Acts that say nothing about the stores. -/
def Act.quiet : Act → Bool
  | .loaded _ | .sent _ | .refused _ | .unsent _ | .mshrRefused _ => true
  | .windowHit _ | .l1Hit _ | .sharedHit _ => true
  | .movedOn _ | .wroteBack _ | .evicted _ | .dropped _ | .flushed _ | .flushRefused _ => false

/-- A request that writes its block to the memory. -/
def ProcRequest.writes (req : ProcRequest) : Bool := req.type = .write || req.type = .flush

/-- The blocks whose data may be given up: a dirty line of the block is dropped, the request of its
flush is refused, or a write of it is passed over. `written` bounds the blocks of the writes. -/
structure Waiver where
  dropped : UInt64 → Prop
  refused : UInt64 → Prop
  unserved : UInt64 → Prop
  written : UInt64 → Prop

/-- Everything may be given up. -/
def Waiver.all : Waiver := ⟨fun _ => True, fun _ => True, fun _ => True, fun _ => True⟩

namespace Core

/-- The block is dirty in a cache, or in a request that writes it. -/
def Holds (c : Core) (b : UInt64) : Prop :=
  Dirty c.proc.l1Cache b ∨ Dirty c.world.sharedCache b ∨
    (∃ req ∈ c.proc.writebackReq, req.blockAddr = b) ∨
    ∃ req ∈ c.world.mctrl.waitQueue, req.writes = true ∧ req.blockAddr = b

/-- The block is in a request that writes it, or the request of its flush may be refused. -/
def Queued (w : Waiver) (c : Core) (b : UInt64) : Prop :=
  (∃ req ∈ c.proc.writebackReq, req.blockAddr = b) ∨
    (∃ req ∈ c.world.mctrl.waitQueue, req.writes = true ∧ req.blockAddr = b) ∨ w.refused b

/-- The written block is held, or the write may be passed over. -/
def Secured (w : Waiver) (c : Core) (b : UInt64) : Prop := w.written b ∧ (c.Holds b ∨ w.unserved b)

/-- The block of the instruction is secured, when it is a write. -/
def Delivered (w : Waiver) (c : Core) (ins : Instruction) : Prop :=
  ins.isMem = true → ins.type = .write → c.Secured w ins.blockAddr

/-! ### What comes next gives up -/

/-- The shared cache is in use and holds the block. -/
def hitsShared (cfg : Config) (c : Core) (b : UInt64) : Bool :=
  cfg.useCache && cfg.sharedCache &&
    (c.world.sharedCache.lines (b.toNat % c.world.sharedCache.maxSet)).any
      fun e => e.blockAddr = b && e.valid

/-- The controller refuses requests. -/
def waitQueueFull (cfg : Config) (c : Core) : Bool :=
  decide (cfg.crtlQueueMax - 1 < c.world.mctrl.waitQueue.length)

/-- The cache behind the fill of a block that it may hold. -/
def filled (pid : Int) (l1 : Cache) (blockAddr : UInt64) (reqt : RequestType) : Outcome Cache := do
  let (hit, l1) ← Cache.searchBlock l1 blockAddr .read
  if hit then return l1 else Prod.snd <$> Cache.add l1 blockAddr reqt pid

/-- The dirty blocks that leave the first-level cache for the requests that wait for its latency. -/
def cacheReqEvicted (pid : Int) : List ProcRequest → Cache → List UInt64
  | [], _ => []
  | req :: queue, l1 => (Cache.evicted l1 req.blockAddr).toList ++
    match filled pid l1 req.blockAddr req.type with
    | .ok l1 => cacheReqEvicted pid queue l1
    | .error _ => []

/-- The dirty blocks that leave the first-level cache in the next cycle, when it comes to the caches. -/
def cacheEvicted (cfg : Config) (c : Core) : List UInt64 :=
  if cfg.useCache && !(cfg.simType = .cycle && cfg.simCycle < c.proc.cycle + 1) then
    cacheReqEvicted c.proc.pid c.proc.cacheReqQueue c.proc.l1Cache
  else []

/-- The dirty block that leaves the first-level cache in a completion callback. -/
def callbackEvicted (cfg : Config) (c : Core) (b : UInt64) : Option UInt64 :=
  if cfg.useCache && !c.hitsShared cfg b then Cache.evicted c.proc.l1Cache b else none

/-- The processor finds the block dirty: the test of the flush. -/
def finds (cfg : Config) (c : Core) (b : UInt64) : Bool :=
  c.proc.l1Cache.sees b || cfg.sharedCache && c.world.sharedCache.sees b

/-- A flush of the block finds it dirty, and the controller refuses its request. -/
def refuses (cfg : Config) (c : Core) (b : UInt64) : Bool :=
  cfg.useCache && !cfg.writeback && c.waitQueueFull cfg && c.finds cfg b

/-! ### Effects -/

/-- The stores are the same, but for the cycles of the caches. -/
structure SameStores (c c' : Core) : Prop where
  l1 : c'.proc.l1Cache.lines = c.proc.l1Cache.lines ∧
    c'.proc.l1Cache.maxSet = c.proc.l1Cache.maxSet
  shared : c'.world.sharedCache.lines = c.world.sharedCache.lines ∧
    c'.world.sharedCache.maxSet = c.world.sharedCache.maxSet
  writeback : c'.proc.writebackReq = c.proc.writebackReq
  mctrl : c'.world.mctrl = c.world.mctrl
  flushQueue : c'.world.flushQueue = c.world.flushQueue
  tlb : c.world.tlb.Sound → c'.world.tlb.Sound
  acts : c'.acts = c.acts

/-- One change of the stores. -/
inductive Effect (cfg : Config) (w : Waiver) : Core → Core → Prop
  | quiet {c c' : Core} (h : SameStores c c') : Effect cfg w c c'
  | note {c : Core} {a : Act} (h : a.quiet = true) : Effect cfg w c (c.note a)
  | searchL1 {c c' : Core} {b : UInt64} {t : RequestType} {hit : Bool}
      (h : c.searchL1 b t = .ok (hit, c')) : Effect cfg w c c'
  | searchShared {c c' : Core} {b : UInt64} {t : RequestType} {hit : Bool}
      (h : c.searchShared b t = .ok (hit, c')) : Effect cfg w c c'
  | fillL1 {c : Core} {b v : UInt64} {t : RequestType} {l1 : Cache}
      (hb : ¬ Present c.proc.l1Cache b) (h : Cache.add c.proc.l1Cache b t c.proc.pid = .ok (v, l1))
      (hv : v ≠ NULL → w.dropped v) :
      Effect cfg w c (if v = NULL then c.withL1 l1 else (c.withL1 l1).note (.dropped v))
  | fillShared {c : Core} {b : UInt64} {t : RequestType} {shared : SharedCache}
      (hb : ∀ e ∈ c.world.sharedCache.lines (b.toNat % c.world.sharedCache.maxSet),
        (e.blockAddr = b && e.valid) = false)
      (h : SharedCache.add c.world.sharedCache b t c.proc.pid = .ok (NULL, shared)) :
      Effect cfg w c (c.withShared shared)
  | evict {c c' : Core} {b v : UInt64} {t : RequestType} {shared : SharedCache}
      (hb : ∀ e ∈ c.world.sharedCache.lines (b.toNat % c.world.sharedCache.maxSet),
        (e.blockAddr = b && e.valid) = false)
      (h : SharedCache.add c.world.sharedCache b t c.proc.pid = .ok (v, shared))
      (hq : ((c.withShared shared).note (.evicted v)).queueWriteback cfg v = .ok c') :
      Effect cfg w c c'
  | removeL1 {c : Core} {b : UInt64} {l1 : Cache} {r : Bool} (hq : b = NULL ∨ c.Queued w b)
      (h : CacheArray.remove c.proc.l1Cache b = .ok (r, l1)) :
      Effect cfg w c (c.withL1 l1)
  | removeShared {c : Core} {b : UInt64} {shared : SharedCache} {r : Bool} (hq : c.Queued w b)
      (h : CacheArray.remove c.world.sharedCache b = .ok (r, shared)) :
      Effect cfg w c (c.withShared shared)
  | queueFlush {c : Core} {addr actualAddr : UInt64} :
      Effect cfg w c (c.queueFlush cfg (c.flushItem addr actualAddr))
  | send {c : Core} {req : ProcRequest} : Effect cfg w c (c.addToMctrl cfg req).2
  | writeBack {c : Core} : Effect cfg w c (c.writeBackOne cfg)
  | movedOn {c : Core} {ins : Instruction} (h : c.Delivered w ins) :
      Effect cfg w c (c.note (.movedOn ins))

/-- A sequence of effects. -/
def Effects (cfg : Config) (w : Waiver) : Core → Core → Prop := Relation.ReflTransGen (Effect cfg w)

/-- What every effect preserves holds after a sequence of them. -/
theorem Effects.invariant {cfg : Config} {w : Waiver} {I : Core → Prop}
    (hstep : ∀ c c', I c → Effect cfg w c c' → I c') {c c' : Core} (h : Effects cfg w c c')
    (hc : I c) : I c' := by
  induction h with
  | refl => exact hc
  | tail _ heffect ih => exact hstep _ _ ih heffect

variable {cfg : Config} {w : Waiver} {c c' c'' : Core}

theorem Effects.refl : Effects cfg w c c := Relation.ReflTransGen.refl

theorem Effects.trans (h : Effects cfg w c c') (h' : Effects cfg w c' c'') : Effects cfg w c c'' :=
  Relation.ReflTransGen.trans h h'

theorem Effect.effects (h : Effect cfg w c c') : Effects cfg w c c' := Relation.ReflTransGen.single h

theorem SameStores.effects (h : SameStores c c') : Effects cfg w c c' := (Effect.quiet h).effects

/-- Changes outside the stores. -/
theorem effects_of_eq (hl1 : c'.proc.l1Cache = c.proc.l1Cache)
    (hwriteback : c'.proc.writebackReq = c.proc.writebackReq)
    (hshared : c'.world.sharedCache = c.world.sharedCache)
    (hmctrl : c'.world.mctrl = c.world.mctrl)
    (hflush : c'.world.flushQueue = c.world.flushQueue)
    (htlb : c.world.tlb.Sound → c'.world.tlb.Sound) (hacts : c'.acts = c.acts) :
    Effects cfg w c c' := by
  apply SameStores.effects
  exact ⟨by rw [hl1]; exact ⟨rfl, rfl⟩, by rw [hshared]; exact ⟨rfl, rfl⟩, hwriteback, hmctrl, hflush,
    htlb, hacts⟩

/-! ### Simple methods -/

/-- The core after the controller accepted a request. -/
def withWaiting (c : Core) (req : ProcRequest) : Core :=
  { c with world := { c.world with mctrl := { c.world.mctrl with
      waitQueue := c.world.mctrl.waitQueue ++ [req] } } }

theorem addToMctrl_cases (cfg : Config) (c : Core) (req : ProcRequest) :
    c.addToMctrl cfg req = (false, c) ∨ c.addToMctrl cfg req = (true, c.withWaiting req) := by
  unfold addToMctrl
  rcases Controller.addToMctrl_eq cfg c.world.mctrl req with h | h <;> rw [h]
  · exact .inl rfl
  · exact .inr rfl

/-- The controller refuses the request when its queue is full. -/
theorem addToMctrl_full (cfg : Config) (c : Core) (req : ProcRequest) :
    c.waitQueueFull cfg = true ∧ c.addToMctrl cfg req = (false, c) ∨
      c.waitQueueFull cfg = false ∧ c.addToMctrl cfg req = (true, c.withWaiting req) := by
  unfold waitQueueFull addToMctrl Controller.addToMctrl
  split_ifs with hfull
  · exact .inl ⟨by simpa using hfull, rfl⟩
  · exact .inr ⟨by simpa using hfull, rfl⟩

theorem note_effects {a : Act} (h : a.quiet = true) : Effects cfg w c (c.note a) :=
  (Effect.note h).effects

theorem scanPage_effects {addr res : UInt64} (h : c.scanPage addr = .ok (res, c')) :
    Effects cfg w c c' := by
  obtain ⟨⟨r, tlb⟩, hscan, heq⟩ := Outcome.bind_eq_ok.mp h
  cases heq
  exact effects_of_eq rfl rfl rfl rfl rfl (fun hsound => (hsound.scanPage hscan).2.1) rfl

theorem scanPage_mctrl {addr res : UInt64} (h : c.scanPage addr = .ok (res, c')) :
    c'.world.mctrl = c.world.mctrl := by
  obtain ⟨⟨r, tlb⟩, -, heq⟩ := Outcome.bind_eq_ok.mp h
  cases heq
  rfl

theorem settle_effects (b : UInt64) : Effects cfg w c (c.settle b) :=
  effects_of_eq rfl rfl rfl rfl rfl id rfl

theorem updateInsW_effects : Effects cfg w c (c.updateInsW cfg) := by
  unfold updateInsW
  split_ifs
  · exact .refl
  · exact effects_of_eq rfl rfl rfl rfl rfl id rfl

/-! ### Fills -/

/-- A fill of the first-level cache leaves it as `filled` says. -/
theorem filled_of_fillL1 {b : UInt64} {t : RequestType} (h : c.fillL1 b t = .ok c') :
    filled c.proc.pid c.proc.l1Cache b t = .ok c'.proc.l1Cache ∧ c'.proc.pid = c.proc.pid := by
  obtain ⟨⟨hit, c₁⟩, hsearch, h⟩ := Outcome.bind_eq_ok.mp h
  obtain ⟨⟨_, l1⟩, hl1, heq⟩ := Outcome.bind_eq_ok.mp hsearch
  cases heq
  unfold filled
  rw [hl1, Outcome.ok_bind]
  cases hit with
  | true =>
    cases h
    exact ⟨rfl, rfl⟩
  | false =>
    obtain ⟨⟨v, l1'⟩, hadd, heq⟩ := Outcome.bind_eq_ok.mp h
    cases heq
    replace hadd : Cache.add l1 b t c.proc.pid = .ok (v, l1') := hadd
    dsimp only
    rw [if_neg Bool.false_ne_true, hadd]
    split_ifs <;> exact ⟨rfl, rfl⟩

/-- The block is added to the first-level cache where the search misses it. -/
theorem fillL1_effects {b : UInt64} {t : RequestType} (h : c.fillL1 b t = .ok c')
    (hv : ∀ v ∈ Cache.evicted c.proc.l1Cache b, w.dropped v) : Effects cfg w c c' := by
  obtain ⟨⟨hit, c₁⟩, hsearch, h⟩ := Outcome.bind_eq_ok.mp h
  have hfirst : Effects cfg w c c₁ := (Effect.searchL1 hsearch).effects
  cases hit with
  | true =>
    -- a hit changes no more than the search does
    cases h
    exact hfirst
  | false =>
    obtain ⟨⟨v, l1⟩, hadd, heq⟩ := Outcome.bind_eq_ok.mp h
    cases heq
    -- The search that missed left the lines as they were.
    obtain ⟨⟨r, l1'⟩, hl1, heq⟩ := Outcome.bind_eq_ok.mp hsearch
    cases heq
    obtain ⟨hmax, -, -, -, -, hmiss⟩ := search_spec hl1 (by simp)
    obtain ⟨hlines, hnone⟩ := hmiss rfl
    have habsent : ¬ Present (c.withL1 l1').proc.l1Cache b := by
      rintro ⟨e, he, hb⟩
      rw [show (c.withL1 l1').proc.l1Cache = l1' from rfl, hlines, hmax] at he
      exact absurd (hnone e he) (by simp [hb])
    refine hfirst.trans (Effect.fillL1 habsent hadd fun hnull => hv v ?_).effects
    have hevicted := Cache.evicted_of_add hadd habsent hnull
    unfold Cache.evicted at hevicted ⊢
    rw [← hlines, ← hmax]
    exact hevicted

theorem handleCacheReq_effects (h : c.handleCacheReq = .ok c')
    (hv : ∀ v ∈ cacheReqEvicted c.proc.pid c.proc.cacheReqQueue c.proc.l1Cache, w.dropped v) :
    Effects cfg w c c' := by
  have hloop : ∀ (queue : List ProcRequest) (c : Core), cacheReqLoop queue c = .ok c' →
      (∀ v ∈ cacheReqEvicted c.proc.pid queue c.proc.l1Cache, w.dropped v) → Effects cfg w c c' := by
    intro queue
    induction queue with
    | nil =>
      intro c h _
      cases h
      exact .refl
    | cons req queue ih =>
      intro c h hv
      unfold cacheReqLoop at h
      split_ifs at h
      obtain ⟨c₁, hfill, h⟩ := Outcome.bind_eq_ok.mp h
      obtain ⟨hfilled, hpid⟩ := filled_of_fillL1 hfill
      rw [cacheReqEvicted, hfilled] at hv
      have hone : Effects cfg w c c₁ := fillL1_effects hfill fun v hmem =>
        hv v (List.mem_append_left _ (Option.mem_toList.mpr hmem))
      -- The head is served, and the rest of the queue finds the cache that the head has filled.
      refine hone.trans (.trans ?_ (ih _ h fun v hmem => hv v (List.mem_append_right _ ?_)))
      · exact effects_of_eq rfl rfl rfl rfl rfl id rfl
      · rw [← hpid]
        exact hmem
  exact hloop _ c h hv

/-! ### Completion callbacks -/

/-- The write-back queue after the block `v` is queued. -/
def queued (pid : Int) (v : UInt64) (reqs : List ProcRequest) : List ProcRequest :=
  if reqs.any (·.blockAddr = v) then reqs else reqs ++ [writebackItem pid v]

theorem mem_queued (pid : Int) (v : UInt64) (reqs : List ProcRequest) :
    ∃ req ∈ queued pid v reqs, req.blockAddr = v := by
  unfold queued
  split_ifs with hany
  · simpa using hany
  · exact ⟨writebackItem pid v, by simp, rfl⟩

theorem queueWriteback_eq_ok {v : UInt64} : c.queueWriteback cfg v = .ok c' ↔
    cfg.writeback = true ∧ c' = c.withWriteback (queued c.proc.pid v c.proc.writebackReq) := by
  unfold queueWriteback queued
  cases cfg.writeback with
  | false => exact iff_of_false nofun fun h => nomatch h.1
  | true =>
    by_cases hany : c.proc.writebackReq.any (·.blockAddr = v) = true
    · simp only [hany, if_true, true_and]
      exact ⟨fun h => (Except.ok.inj h).symm, fun h => congrArg Except.ok h.symm⟩
    · simp only [hany, true_and]
      exact ⟨fun h => (Except.ok.inj h).symm, fun h => congrArg Except.ok h.symm⟩

/-- A fill of the first-level cache does not look at what is queued for write-back. -/
theorem fillL1_withWriteback (c : Core) (b : UInt64) (t : RequestType) (reqs : List ProcRequest) :
    (c.withWriteback reqs).fillL1 b t = (c.fillL1 b t).map (·.withWriteback reqs) := by
  unfold fillL1 searchL1
  have hl1 : (c.withWriteback reqs).proc.l1Cache = c.proc.l1Cache := rfl
  rw [hl1]
  cases Cache.searchBlock c.proc.l1Cache b .read with
  | error e => rfl
  | ok r =>
    obtain ⟨hit, l1⟩ := r
    cases hit with
    | true => rfl
    | false =>
      show (Cache.add l1 b t c.proc.pid >>= _) = Except.map _ (Cache.add l1 b t c.proc.pid >>= _)
      cases Cache.add l1 b t c.proc.pid with
      | error e => rfl
      | ok r =>
        simp only [Outcome.ok_bind]
        split_ifs <;> rfl

/-- A fill of the first-level cache changes that cache and the record only. -/
theorem fillL1_frame {b : UInt64} {t : RequestType} (h : c.fillL1 b t = .ok c') :
    ∃ l1, c'.proc = { c.proc with l1Cache := l1 } ∧ c'.world = c.world := by
  simp only [fillL1, searchL1, Outcome.bind_eq_ok] at h
  obtain ⟨⟨hit, c₁⟩, ⟨⟨hit', l1⟩, -, heq⟩, h⟩ := h
  cases heq
  cases hit' with
  | true =>
    cases h
    exact ⟨l1, rfl, rfl⟩
  | false =>
    obtain ⟨⟨v, l1'⟩, -, heq⟩ := Outcome.bind_eq_ok.mp h
    cases heq
    refine ⟨l1', ?_⟩
    dsimp only
    split_ifs <;> exact ⟨rfl, rfl⟩

/-- What a search of the shared cache that misses has found. -/
theorem searchShared_miss {b : UInt64} {t : RequestType} (h : c.searchShared b t = .ok (false, c')) :
    ∀ e ∈ c'.world.sharedCache.lines (b.toNat % c'.world.sharedCache.maxSet),
      (e.blockAddr = b && e.valid) = false := by
  obtain ⟨⟨r, shared⟩, hsearch, heq⟩ := Outcome.bind_eq_ok.mp h
  cases heq
  obtain ⟨hmax, -, -, -, -, hmiss⟩ := search_spec hsearch fun e he => by simp_all
  obtain ⟨hlines, hnone⟩ := hmiss rfl
  intro e he
  rw [show (c.withShared shared).world.sharedCache = shared from rfl, hlines, hmax] at he
  exact hnone e he

theorem hitsShared_of_miss {b : UInt64} {t : RequestType}
    (h : c.searchShared b t = .ok (false, c')) : c.hitsShared cfg b = false := by
  obtain ⟨⟨r, shared⟩, hsearch, heq⟩ := Outcome.bind_eq_ok.mp h
  cases heq
  obtain ⟨-, -, -, -, -, hmiss⟩ := search_spec hsearch fun e he => by simp_all
  unfold hitsShared
  rw [Bool.and_eq_false_iff, List.any_eq_false]
  exact .inr fun e he => by simpa using (hmiss rfl).2 e he

/-- The fills of a callback that misses the shared cache. A dirty block that leaves it is queued for
write-back only behind the fill of the first-level cache, which does not look at the queue: the
effects queue it at once. -/
theorem fill_effects {b v : UInt64} {t : RequestType} {shared : SharedCache} {c₁ : Core} {r : Bool}
    {l1 : Cache} (hb : ∀ e ∈ c.world.sharedCache.lines (b.toNat % c.world.sharedCache.maxSet),
      (e.blockAddr = b && e.valid) = false)
    (hadd : SharedCache.add c.world.sharedCache b t c.proc.pid = .ok (v, shared))
    (hfill : (if v = NULL then c.withShared shared else (c.withShared shared).note (.evicted v)
      ).fillL1 b t = .ok c₁)
    (hremove : CacheArray.remove c₁.proc.l1Cache v = .ok (r, l1))
    (hqueue : (if v ≠ NULL then (c₁.withL1 l1).queueWriteback cfg v else .ok (c₁.withL1 l1)) =
      .ok c') (hdrop : ∀ x ∈ Cache.evicted c.proc.l1Cache b, w.dropped x) : Effects cfg w c c' := by
  by_cases hv : v = NULL
  · rw [if_pos hv] at hfill
    rw [if_neg (not_not.mpr hv)] at hqueue
    cases hqueue
    subst hv
    exact (Effect.fillShared hb hadd).effects.trans
      ((fillL1_effects hfill hdrop).trans (Effect.removeL1 (.inl rfl) hremove).effects)
  · rw [if_neg hv] at hfill
    rw [if_pos hv, queueWriteback_eq_ok] at hqueue
    obtain ⟨hwriteback, rfl⟩ := hqueue
    obtain ⟨_, hproc, -⟩ := fillL1_frame hfill
    have hpid : c₁.proc.pid = c.proc.pid := by
      rw [hproc]
      rfl
    have hreqs : c₁.proc.writebackReq = c.proc.writebackReq := by
      rw [hproc]
      rfl
    -- The queue with the block, as the effects have it from the start.
    let reqs := queued c.proc.pid v c.proc.writebackReq
    have hqueue : ((c.withShared shared).note (.evicted v)).queueWriteback cfg v =
        .ok (((c.withShared shared).note (.evicted v)).withWriteback reqs) :=
      queueWriteback_eq_ok.mpr ⟨hwriteback, rfl⟩
    have hfill' : (((c.withShared shared).note (.evicted v)).withWriteback reqs).fillL1 b t =
        .ok (c₁.withWriteback reqs) := by
      rw [fillL1_withWriteback, hfill]
      rfl
    have hqueued : (c₁.withWriteback reqs).Queued w v := .inl (mem_queued ..)
    have hend : (c₁.withL1 l1).withWriteback (queued (c₁.withL1 l1).proc.pid v
        (c₁.withL1 l1).proc.writebackReq) = (c₁.withWriteback reqs).withL1 l1 := by
      show (c₁.withWriteback (queued c₁.proc.pid v c₁.proc.writebackReq)).withL1 l1 = _
      rw [hpid, hreqs]
    rw [hend]
    exact (Effect.evict hb hadd hqueue).effects.trans
      ((fillL1_effects hfill' hdrop).trans (Effect.removeL1 (.inr hqueued) hremove).effects)

/-- **A completion callback** is a sequence of effects. -/
theorem callback_effects {fill : RequestType} {callback : CallBackInfo}
    (h : c.handleCallback cfg fill callback = .ok c')
    (hv : ∀ v ∈ c.callbackEvicted cfg callback.blockAddr, w.dropped v) : Effects cfg w c c' := by
  unfold handleCallback at h
  refine (settle_effects callback.blockAddr).trans ?_
  dsimp only at h
  by_cases huse : cfg.useCache = true
  · rw [if_pos huse] at h
    by_cases hshared : cfg.sharedCache = true
    · rw [if_pos hshared] at h
      obtain ⟨⟨hit, c₁⟩, hsearch, h⟩ := Outcome.bind_eq_ok.mp h
      refine (Effect.searchShared hsearch).effects.trans ?_
      cases hit with
      -- a block that the shared cache has is not filled again
      | true =>
        cases h
        exact .refl
      | false =>
        simp only [Bool.not_false, if_true, Outcome.bind_eq_ok] at h
        obtain ⟨⟨v, shared⟩, hadd, c₂, hfill, ⟨r, l1⟩, hremove, hqueue⟩ := h
        refine fill_effects (searchShared_miss hsearch) hadd hfill hremove hqueue fun x hx => hv x ?_
        -- The search that misses tells that the shared cache does not hold the block.
        have hmiss : c.hitsShared cfg callback.blockAddr = false :=
          hitsShared_of_miss (c := c.settle callback.blockAddr) hsearch
        obtain ⟨⟨r', shared'⟩, -, heq⟩ := Outcome.bind_eq_ok.mp hsearch
        cases heq
        simp only [callbackEvicted, huse, hmiss, Bool.not_false, Bool.and_true, if_true]
        exact hx
    · rw [if_neg hshared] at h
      refine fillL1_effects h fun x hx => hv x ?_
      simp only [callbackEvicted, hitsShared, huse, hshared, Bool.and_false, Bool.false_and,
        Bool.not_false, Bool.and_true, if_true]
      exact hx
  · rw [if_neg huse] at h
    cases h
    exact .refl

/-! ### Flushes -/

theorem ifdirty_sameStores {b : UInt64} {r : Bool} {l1 : Cache}
    (h : CacheArray.ifdirty c.proc.l1Cache b = .ok (r, l1)) : SameStores c (c.withL1 l1) := by
  obtain ⟨hmax, hlines, -, -⟩ := ifdirty_spec h
  exact ⟨⟨hlines, hmax⟩, ⟨rfl, rfl⟩, rfl, rfl, rfl, id, rfl⟩

theorem ifdirty_shared_sameStores {b : UInt64} {r : Bool} {shared : SharedCache}
    (h : CacheArray.ifdirty c.world.sharedCache b = .ok (r, shared)) :
    SameStores c (c.withShared shared) := by
  obtain ⟨hmax, hlines, -, -⟩ := ifdirty_spec h
  exact ⟨⟨rfl, rfl⟩, ⟨hlines, hmax⟩, rfl, rfl, rfl, id, rfl⟩

/-- The answer of the first two tests, which change no line. -/
theorem anyDirty_spec {b : UInt64} {r : Bool} (h : c.anyDirty cfg b = .ok (r, c')) :
    r = c.finds cfg b ∧ c'.world.sharedCache.sees b = c.world.sharedCache.sees b ∧
      c'.world.flushQueue = c.world.flushQueue ∧ c'.world.mctrl = c.world.mctrl ∧
      (Distinct c.world.sharedCache → Distinct c'.world.sharedCache) := by
  obtain ⟨⟨dirty, l1⟩, hdirty, h⟩ := Outcome.bind_eq_ok.mp h
  obtain ⟨rfl, -, -⟩ := ifdirty_eq_ok hdirty
  dsimp only at h
  cases hl1 : c.proc.l1Cache.sees b with
  | true =>
    rw [hl1, if_pos rfl] at h
    cases h
    exact ⟨by simp [finds, hl1], rfl, rfl, rfl, id⟩
  | false =>
    rw [hl1, if_neg Bool.false_ne_true] at h
    by_cases hshared : cfg.sharedCache = true
    · rw [if_pos hshared] at h
      obtain ⟨⟨dirty', shared⟩, hdirty', heq⟩ := Outcome.bind_eq_ok.mp h
      cases heq
      obtain ⟨rfl, hlines, hmax⟩ := ifdirty_eq_ok hdirty'
      refine ⟨by simp [finds, hl1, hshared, withL1], sees_congr hlines hmax b, rfl, rfl, fun hd s => ?_⟩
      show (shared.lines s).Pairwise CacheArray.Apart
      rw [hlines]
      exact hd s
    · rw [if_neg hshared] at h
      cases h
      exact ⟨by simp [finds, hl1, hshared], rfl, rfl, rfl, id⟩

theorem anyDirty_effects {b : UInt64} {r : Bool} (h : c.anyDirty cfg b = .ok (r, c')) :
    Effects cfg w c c' := by
  obtain ⟨⟨dirty, l1⟩, hdirty, h⟩ := Outcome.bind_eq_ok.mp h
  have hfirst : Effects cfg w c (c.withL1 l1) := (ifdirty_sameStores hdirty).effects
  dsimp only at h
  split_ifs at h
  · cases h
    exact hfirst
  · obtain ⟨⟨dirty', shared⟩, hshared, heq⟩ := Outcome.bind_eq_ok.mp h
    cases heq
    exact hfirst.trans (ifdirty_shared_sameStores hshared).effects
  · cases h
    exact hfirst

/-- The flush of a block queues the request that writes it, unless the controller refuses it. -/
theorem queueFlush_queued (addr actualAddr : UInt64)
    (hr : cfg.writeback = false → c.waitQueueFull cfg = true → w.refused addr) :
    (c.queueFlush cfg (c.flushItem addr actualAddr)).Queued w addr := by
  unfold queueFlush
  split_ifs with hback
  · exact .inl ⟨c.flushItem addr actualAddr, by simp [withWriteback, note], rfl⟩
  · rcases addToMctrl_full cfg c (c.flushItem addr actualAddr) with ⟨hfull, hadd⟩ | ⟨-, hadd⟩
    · simp only [hadd]
      exact .inr (.inr (hr (by simpa using hback) hfull))
    · simp only [hadd]
      exact .inr (.inl ⟨c.flushItem addr actualAddr, by simp [note, withWaiting], rfl, rfl⟩)

theorem flushBlock_effects {addr : UInt64} {r : Bool} (h : c.flushBlock cfg addr = .ok (r, c'))
    (hr : c.refuses cfg addr = true → w.refused addr) : Effects cfg w c c' := by
  unfold flushBlock at h
  by_cases huse : (!cfg.useCache) = true
  · rw [if_pos huse] at h
    cases h
    exact .refl
  rw [if_neg huse] at h
  by_cases hwait : c.world.flushQueue.contains addr = true
  · rw [if_pos hwait] at h
    -- a block of the flush queue is not flushed a second time
    cases h
    exact .refl
  rw [if_neg hwait] at h
  obtain ⟨⟨dirty, c₂⟩, hdirty, h⟩ := Outcome.bind_eq_ok.mp h
  refine (anyDirty_effects hdirty).trans ?_
  dsimp only at h
  cases dirty with
  | false =>
    cases h
    exact .refl
  | true =>
    -- dirty: the request is queued before the lines are removed
    simp only [if_true, Outcome.bind_eq_ok] at h
    obtain ⟨⟨actualAddr, c₃⟩, hscan, ⟨r₁, l1⟩, hl1, h⟩ := h
    obtain ⟨hsees, -, -, hmctrl, -⟩ := anyDirty_spec hdirty
    have hmctrl₃ : c₃.world.mctrl = c.world.mctrl := (scanPage_mctrl hscan).trans hmctrl
    have hqueued : (c₃.queueFlush cfg (c₃.flushItem addr actualAddr)).Queued w addr := by
      apply queueFlush_queued
      intro hback hfull
      apply hr
      have huse' : cfg.useCache = true := by simpa using huse
      rw [waitQueueFull, hmctrl₃] at hfull
      simp only [refuses, huse', hback, waitQueueFull, hfull, ← hsees, Bool.not_false, Bool.and_self]
    refine (scanPage_effects hscan).trans ((Effect.queueFlush).effects.trans
      ((Effect.removeL1 (.inr hqueued) hl1).effects.trans ?_))
    split_ifs at h
    · obtain ⟨⟨r₂, shared⟩, hshared, heq⟩ := Outcome.bind_eq_ok.mp h
      cases heq
      have hqueued' : ((c₃.queueFlush cfg (c₃.flushItem addr actualAddr)).withL1 l1).Queued w addr :=
        hqueued
      exact (Effect.removeShared hqueued' hshared).effects
    · cases h
      exact .refl

/-- **A flush** is a sequence of effects. -/
theorem flush_effects {addr : UInt64} {actual r : Bool}
    (h : c.flush cfg addr actual = .ok (r, c')) (hr : c.refuses cfg addr = true → w.refused addr) :
    Effects cfg w c c' := by
  unfold flush at h
  split_ifs at h
  · obtain ⟨⟨res, c₁⟩, hscan, h⟩ := Outcome.bind_eq_ok.mp h
    refine (scanPage_effects hscan).trans (flushBlock_effects h fun hrefuses => hr ?_)
    -- The translation changes the page table only.
    obtain ⟨⟨res', tlb⟩, -, heq⟩ := Outcome.bind_eq_ok.mp hscan
    cases heq
    exact hrefuses
  · exact flushBlock_effects h hr

end Core

end PIMSim
