import PIMSim.Procs.Effects
import PIMSim.Procs.Record

/-!
# What the parts of a cycle do

What the next issue or retry comes to, and the parts of a cycle that keep the current request: they
belong to no instruction, and are sequences of effects on the stores.

## Main definitions

* `Core.Serving`: the memory request and the instruction object that the processor is at
* `Core.keepsUp`: the issue or retry that comes next does not end where the request is lost
* `Core.Waives`: a cycle gives up no data but what a waiver covers
* `Core.Aside`, `Core.Frame`: a part that belongs to no instruction, and one that leaves the stores
* `Core.Passage`: a sequence of effects that keeps the current request and instruction together,
  and conserves the instructions under a condition

## Main results

* `Core.Passage.trans`: passages compose
* `Core.callback_aside`, `Core.flush_aside`: completion callbacks and flushes keep the current request
-/

namespace PIMSim.Core

open CSharp CacheArray

variable {cfg : Config} {w : Waiver} {c c' c'' : Core} {req : ProcRequest} {ref : ℕ}

/-- The current request is the one of the current instruction. -/
def Paired (c : Core) : Prop := c.proc.currReq = c.proc.currIns.map parseIns

/-- The processor is at the memory request `req` of the instruction object `ref`. -/
def Serving (c : Core) (req : ProcRequest) (ref : ℕ) : Prop :=
  c.proc.currReq = some req ∧ req.ifMem = true ∧
    ∃ ins, c.proc.currIns = some ins ∧ parseIns ins = req ∧ ins.ref = ref

theorem Serving.paired (h : c.Serving req ref) : c.Paired := by
  obtain ⟨hreq, -, ins, hins, hparse, -⟩ := h
  rw [Paired, hreq, hins, Option.map_some, hparse]

theorem Paired.serving (h : c.Paired) (hreq : c.proc.currReq = some req)
    (hmem : req.ifMem = true) : ∃ ref, c.Serving req ref := by
  rw [Paired, hreq] at h
  obtain ⟨ins, hins, hparse⟩ := Option.map_eq_some_iff.mp h.symm
  exact ⟨ins.ref, hreq, hmem, ins, hins, hparse, rfl⟩

/-! ### What the next issue comes to -/

/-- The first-level cache is in use and holds the block. -/
def hitsL1 (cfg : Config) (c : Core) (b : UInt64) : Bool :=
  cfg.useCache && (c.proc.l1Cache.lines (b.toNat % c.proc.l1Cache.maxSet)).any (·.blockAddr = b)

/-- The miss registers refuse the request. -/
def registersFull (cfg : Config) (c : Core) (req : ProcRequest) : Bool :=
  !(c.proc.mshr.any fun x => x.actualAddr = req.actualAddr && x.blockAddr = req.blockAddr) &&
    decide (cfg.mshrSize < c.proc.mshr.length)

/-- The retry of the request does not lose it: the registers refuse it again, or it hits the shared
cache. -/
def keepsRetry (cfg : Config) (c : Core) (req : ProcRequest) : Bool :=
  (c.proc.mshrRetry && c.registersFull cfg req) || c.hitsShared cfg req.blockAddr

/-- The issue of the request does not lose it: it needs no memory, the registers refuse it, or the
controller takes it. -/
def keepsIssue (cfg : Config) (c : Core) (req : ProcRequest) : Bool :=
  c.proc.insW.ifExist req.blockAddr || c.hitsL1 cfg req.blockAddr ||
    (cfg.useCache && c.registersFull cfg req) || c.hitsShared cfg req.blockAddr ||
    !c.waitQueueFull cfg

/-- The retry or the issue that comes next does not lose the current request. -/
def keepsUp (cfg : Config) (c : Core) : Bool :=
  match c.proc.currReq with
  | none => true
  | some req =>
    !req.ifMem || c.proc.insW.full ||
      if c.proc.mshrRetry || c.proc.mctrlRetry then c.keepsRetry cfg req else c.keepsIssue cfg req

/-- A write leaves nothing behind: it is retried without the controller, or it merges with a request
of the window. -/
def skips (cfg : Config) (c : Core) (req : ProcRequest) : Bool :=
  if c.proc.mshrRetry || c.proc.mctrlRetry then
    !c.registersFull cfg req && !c.hitsShared cfg req.blockAddr
  else c.proc.insW.ifExist req.blockAddr

/-- The waiver covers what the issue or the retry of a write gives up. -/
def WaivesWrite (cfg : Config) (w : Waiver) (c : Core) : Prop :=
  ∀ req ∈ c.proc.currReq, req.ifMem = true → req.type = .write → c.proc.insW.full = false →
    w.written req.blockAddr ∧ (c.skips cfg req = true → w.unserved req.blockAddr)

/-- The waiver covers what a cycle gives up. -/
structure Waives (cfg : Config) (w : Waiver) (c : Core) : Prop where
  fills : ∀ v ∈ c.cacheEvicted cfg, w.dropped v
  write : ∀ c₁, c.arrive cfg = .ok (true, c₁) → c₁.WaivesWrite cfg w

theorem waives_all : c.Waives cfg .all where
  fills := fun _ _ => trivial
  write := fun _ _ _ _ _ _ _ => ⟨trivial, fun _ => trivial⟩

/-! ### Relations between states -/

/-- The current request and instruction are the same, and the record grows by acts that belong to
no instruction. -/
structure Aside (c c' : Core) : Prop where
  ins : c'.proc.currIns = c.proc.currIns
  req : c'.proc.currReq = c.proc.currReq
  retry : c'.proc.mctrlRetry = c.proc.mctrlRetry
  acts : ∃ as, c'.acts = c.acts ++ as ∧ ∀ a ∈ as, a.issues = false

theorem Aside.refl : Aside c c := ⟨rfl, rfl, rfl, [], by simp, by simp⟩

theorem Aside.trans (h : Aside c c') (h' : Aside c' c'') : Aside c c'' := by
  obtain ⟨as, has, hq⟩ := h.acts
  obtain ⟨as', has', hq'⟩ := h'.acts
  refine ⟨h'.ins.trans h.ins, h'.req.trans h.req, h'.retry.trans h.retry, as ++ as', ?_, ?_⟩
  · rw [has', has, List.append_assoc]
  · intro a ha
    rcases List.mem_append.mp ha with ha | ha
    · exact hq a ha
    · exact hq' a ha

theorem aside_note {a : Act} (h : a.issues = false) : Aside c (c.note a) :=
  ⟨rfl, rfl, rfl, [a], rfl, by simpa using h⟩

theorem Aside.paired (h : Aside c c') (hpair : c.Paired) : c'.Paired := by
  rw [Paired, h.ins, h.req]
  exact hpair

/-- The stores and the current request are the same, and the record grows by the acts `as`, which
say nothing about the stores. -/
structure Frame (as : List Act) (c c' : Core) : Prop where
  l1 : c'.proc.l1Cache = c.proc.l1Cache
  writeback : c'.proc.writebackReq = c.proc.writebackReq
  world : c'.world = c.world
  serving : ∀ req ref, c.Serving req ref → c'.Serving req ref
  retry : c'.proc.mctrlRetry = c.proc.mctrlRetry
  acts : c'.acts = c.acts ++ as
  quiet : ∀ a ∈ as, a.quiet = true

theorem frame_note {a : Act} (h : a.quiet = true) : Frame [a] c (c.note a) :=
  ⟨rfl, rfl, rfl, fun _ _ => id, rfl, rfl, by simpa using h⟩

theorem Frame.trans {as as' : List Act} (h : Frame as c c') (h' : Frame as' c' c'') :
    Frame (as ++ as') c c'' := by
  refine ⟨h'.l1.trans h.l1, h'.writeback.trans h.writeback, h'.world.trans h.world,
    fun req ref hs => h'.serving req ref (h.serving req ref hs), h'.retry.trans h.retry, ?_, ?_⟩
  · rw [h'.acts, h.acts, List.append_assoc]
  · intro a ha
    rcases List.mem_append.mp ha with ha | ha
    · exact h.quiet a ha
    · exact h'.quiet a ha

theorem Frame.effects {as : List Act} (h : Frame as c c') : Effects cfg w c c' := by
  have hnotes : ∀ (as : List Act) (c : Core), (∀ a ∈ as, a.quiet = true) →
      Effects cfg w c { c with acts := c.acts ++ as } := by
    intro as
    induction as with
    | nil =>
      intro c _
      rw [List.append_nil]
      exact .refl
    | cons a as ih =>
      intro c hq
      have hrest := ih (c.note a) fun b hb => hq b (List.mem_cons_of_mem a hb)
      apply (note_effects (hq a List.mem_cons_self)).trans
      simpa [note] using hrest
  have hquiet : Effects cfg w c { c' with acts := c.acts } :=
    effects_of_eq h.l1 h.writeback (congrArg World.sharedCache h.world)
      (congrArg World.mctrl h.world) (congrArg World.flushQueue h.world) (h.world ▸ id) rfl
  have hend := hnotes as { c' with acts := c.acts } h.quiet
  have heq : ({ c' with acts := c.acts ++ as } : Core) = c' := by rw [← h.acts]
  exact hquiet.trans (heq ▸ hend)

theorem Frame.holds {as : List Act} (h : Frame as c c') {b : UInt64} (hb : c.Holds b) :
    c'.Holds b := by
  unfold Holds
  rw [h.l1, h.writeback, h.world]
  exact hb

/-- From `c` to `c'` the processor serves the instructions it moves on from, and no request waits to
be sent again. -/
def Conserving (c c' : Core) : Prop :=
  (c.proc.mctrlRetry = false → c'.proc.mctrlRetry = false) ∧
    ∃ as, c'.acts = c.acts ++ as ∧ ServedRun as

theorem Conserving.trans (h : Conserving c c') (h' : Conserving c' c'') : Conserving c c'' := by
  obtain ⟨hr, as, has, hs⟩ := h
  obtain ⟨hr', as', has', hs'⟩ := h'
  exact ⟨fun h => hr' (hr h), as ++ as', by rw [has', has, List.append_assoc], hs.append hs'⟩

theorem Aside.conserving (h : Aside c c') : Conserving c c' := by
  obtain ⟨as, has, hidle⟩ := h.acts
  exact ⟨fun hr => h.retry.trans hr, as, has, served_of_aside hidle⟩

/-- A sequence of effects that keeps the current request and instruction together, and conserves the
instructions when `ok` holds. -/
structure Passage (cfg : Config) (w : Waiver) (ok : Prop) (c c' : Core) : Prop where
  effects : Effects cfg w c c'
  paired : c'.Paired
  conserving : ok → Conserving c c'

theorem Passage.mono {ok ok' : Prop} (h : Passage cfg w ok c c') (hok : ok' → ok) :
    Passage cfg w ok' c c' :=
  ⟨h.effects, h.paired, fun ho => h.conserving (hok ho)⟩

theorem Passage.trans {ok : Prop} (h : Passage cfg w ok c c') (h' : Passage cfg w ok c' c'') :
    Passage cfg w ok c c'' :=
  ⟨h.effects.trans h'.effects, h'.paired, fun ho => (h.conserving ho).trans (h'.conserving ho)⟩

/-- What conserves the instructions under no condition. -/
theorem Passage.always {ok : Prop} (h : Passage cfg w True c c') : Passage cfg w ok c c' :=
  h.mono fun _ => trivial

theorem Aside.passage (h : Aside c c') (heffects : Effects cfg w c c') (hpair : c.Paired) :
    Passage cfg w True c c' :=
  ⟨heffects, h.paired hpair, fun _ => h.conserving⟩

/-! ### Parts that keep the current request -/

theorem scanPage_aside {addr res : UInt64} (h : c.scanPage addr = .ok (res, c')) :
    Aside c c' := by
  obtain ⟨⟨r, tlb⟩, -, heq⟩ := Outcome.bind_eq_ok.mp h
  cases heq
  exact ⟨rfl, rfl, rfl, [], by simp, by simp⟩

theorem searchL1_eq_ok {b : UInt64} {t : RequestType} {hit : Bool}
    (h : c.searchL1 b t = .ok (hit, c')) :
    ∃ l1, Cache.searchBlock c.proc.l1Cache b t = .ok (hit, l1) ∧ c' = c.withL1 l1 := by
  obtain ⟨⟨hit', l1⟩, hsearch, heq⟩ := Outcome.bind_eq_ok.mp h
  cases heq
  exact ⟨l1, hsearch, rfl⟩

theorem searchShared_eq_ok {b : UInt64} {t : RequestType} {hit : Bool}
    (h : c.searchShared b t = .ok (hit, c')) : ∃ shared,
      SharedCache.searchBlock c.world.sharedCache b t = .ok (hit, shared) ∧
        c' = c.withShared shared := by
  obtain ⟨⟨hit', shared⟩, hsearch, heq⟩ := Outcome.bind_eq_ok.mp h
  cases heq
  exact ⟨shared, hsearch, rfl⟩

theorem withL1_aside (l1 : Cache) : Aside c (c.withL1 l1) :=
  ⟨rfl, rfl, rfl, [], by simp [withL1], by simp⟩

theorem withShared_aside (shared : SharedCache) : Aside c (c.withShared shared) :=
  ⟨rfl, rfl, rfl, [], by simp [withShared], by simp⟩

theorem fillL1_aside {b : UInt64} {t : RequestType} (h : c.fillL1 b t = .ok c') : Aside c c' := by
  obtain ⟨⟨hit, c₁⟩, hsearch, h⟩ := Outcome.bind_eq_ok.mp h
  obtain ⟨l1, -, rfl⟩ := searchL1_eq_ok hsearch
  cases hit with
  | true =>
    cases h
    exact withL1_aside l1
  | false =>
    obtain ⟨⟨v, l1'⟩, -, heq⟩ := Outcome.bind_eq_ok.mp h
    cases heq
    split_ifs
    · exact (withL1_aside l1).trans (withL1_aside l1')
    · exact (withL1_aside l1).trans ((withL1_aside l1').trans (aside_note rfl))

theorem handleCacheReq_aside (h : c.handleCacheReq = .ok c') : Aside c c' := by
  have hloop : ∀ (queue : List ProcRequest) (c : Core), cacheReqLoop queue c = .ok c' →
      Aside c c' := by
    intro queue
    induction queue with
    | nil =>
      intro c h
      cases h
      exact .refl
    | cons req queue ih =>
      intro c h
      unfold cacheReqLoop at h
      split_ifs at h
      obtain ⟨c₁, hfill, h⟩ := Outcome.bind_eq_ok.mp h
      refine (fillL1_aside hfill).trans (.trans ?_ (ih _ h))
      exact ⟨rfl, rfl, rfl, [], by simp [settle], by simp⟩
  exact hloop _ c h

theorem writeBackOne_aside : Aside c (c.writeBackOne cfg) := by
  unfold writeBackOne handleWritebackQueue
  cases c.proc.writebackReq with
  | nil => exact .refl
  | cons req reqs =>
    rcases addToMctrl_cases cfg c req with hadd | hadd
    · simp only [hadd]
      exact .refl
    · simp only [hadd]
      exact ⟨rfl, rfl, rfl, [.wroteBack req], rfl, by simp [Act.issues, Act.hit]⟩

/-- **A completion callback** keeps the current request. -/
theorem callback_aside {fill : RequestType} {callback : CallBackInfo}
    (h : c.handleCallback cfg fill callback = .ok c') : Aside c c' := by
  have hsettle : Aside c (c.settle callback.blockAddr) :=
    ⟨rfl, rfl, rfl, [], by simp [settle], by simp⟩
  unfold handleCallback at h
  apply hsettle.trans
  dsimp only at h
  split_ifs at h
  · obtain ⟨⟨hit, c₁⟩, hsearch, h⟩ := Outcome.bind_eq_ok.mp h
    obtain ⟨shared, -, rfl⟩ := searchShared_eq_ok hsearch
    apply (withShared_aside shared).trans
    cases hit with
    | true =>
      cases h
      exact .refl
    | false =>
      simp only [Bool.not_false, if_true, Outcome.bind_eq_ok] at h
      obtain ⟨⟨v, shared'⟩, -, c₂, hfill, ⟨r, l1⟩, -, hqueue⟩ := h
      have hfirst := fillL1_aside hfill
      have hend : Aside (c₂.withL1 l1) c' := by
        split_ifs at hqueue
        · obtain ⟨-, rfl⟩ := queueWriteback_eq_ok.mp hqueue
          exact ⟨rfl, rfl, rfl, [], by simp [withWriteback], by simp⟩
        · cases hqueue
          exact .refl
      refine .trans ?_ (hfirst.trans ((withL1_aside l1).trans hend))
      apply (withShared_aside shared').trans
      dsimp only
      split_ifs
      · exact .refl
      · exact aside_note rfl
  · exact fillL1_aside h
  · cases h
    exact .refl

theorem queueFlush_aside (cfg : Config) (item : ProcRequest) : Aside c (c.queueFlush cfg item) := by
  unfold queueFlush
  split_ifs
  · exact ⟨rfl, rfl, rfl, [.flushed item.blockAddr], rfl, by simp [Act.issues, Act.hit]⟩
  · rcases addToMctrl_cases cfg c item with hadd | hadd
    · simp only [hadd]
      exact aside_note rfl
    · simp only [hadd]
      exact ⟨rfl, rfl, rfl, [.flushed item.blockAddr], rfl, by simp [Act.issues, Act.hit]⟩

theorem flushBlock_aside {addr : UInt64} {r : Bool} (h : c.flushBlock cfg addr = .ok (r, c')) :
    Aside c c' := by
  unfold flushBlock at h
  by_cases huse : (!cfg.useCache) = true
  · rw [if_pos huse] at h
    cases h
    exact .refl
  rw [if_neg huse] at h
  by_cases hwait : c.world.flushQueue.contains addr = true
  · rw [if_pos hwait] at h
    cases h
    exact .refl
  rw [if_neg hwait] at h
  obtain ⟨⟨dirty, c₂⟩, hdirty, h⟩ := Outcome.bind_eq_ok.mp h
  have hfirst : Aside c c₂ := by
    obtain ⟨⟨d, l1⟩, -, hdirty⟩ := Outcome.bind_eq_ok.mp hdirty
    apply (withL1_aside l1).trans
    dsimp only at hdirty
    split_ifs at hdirty
    · cases hdirty
      exact .refl
    · obtain ⟨⟨d', shared⟩, -, heq⟩ := Outcome.bind_eq_ok.mp hdirty
      cases heq
      exact withShared_aside shared
    · cases hdirty
      exact .refl
  apply hfirst.trans
  cases dirty with
  | false =>
    cases h
    exact .refl
  | true =>
    simp only [if_true, Outcome.bind_eq_ok] at h
    obtain ⟨⟨actualAddr, c₃⟩, hscan, ⟨r₁, l1⟩, -, h⟩ := h
    apply (scanPage_aside hscan).trans
    apply (queueFlush_aside cfg (c₃.flushItem addr actualAddr)).trans
    apply (withL1_aside l1).trans
    split_ifs at h
    · obtain ⟨⟨r₂, shared⟩, -, heq⟩ := Outcome.bind_eq_ok.mp h
      cases heq
      exact withShared_aside shared
    · cases h
      exact .refl

/-- **A flush** keeps the current request. -/
theorem flush_aside {addr : UInt64} {actual r : Bool}
    (h : c.flush cfg addr actual = .ok (r, c')) : Aside c c' := by
  unfold flush at h
  split_ifs at h
  · obtain ⟨⟨res, c₁⟩, hscan, h⟩ := Outcome.bind_eq_ok.mp h
    exact (scanPage_aside hscan).trans (flushBlock_aside h)
  · exact flushBlock_aside h

end PIMSim.Core
