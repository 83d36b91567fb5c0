import PIMSim.PIM.Flush
import PIMSim.Procs.Residency

/-!
# The address of a flush

A memory-side request flushes by its actual address, while the caches and the requests of the host
hold translated blocks. `Proc.flush` translates the address it is given, and goes on with the
untranslated one.

## Main definitions

* `PageConverter.translate`: the mapping of an address in the present page table
* `Core.finds`: the processor finds the block dirty
* `Core.FlushesLine`: a flush looks at one line, removes that line only, and writes that line

## Main results

* `Core.flushBlock_spec`: what the flush of a block does to the lines and the queues
* `flushesLine_iff`: in every reachable state, a flush is one of the translated line when the
  translation keeps the address, or no flush is needed
-/

namespace PIMSim

open CSharp Transition CacheArray

variable {Obj : Type} {cfg : Config}

namespace PageConverter

/-- The frame of a page: that of the table, or the one its first touch will give it. -/
def frameOf (s : PageConverter) (page : UInt64) : UInt64 :=
  match s.pageTable page with
  | some index => index
  | none => page / s.stride * s.stride + s.currFid

/-- The mapping of an address in the present page table. -/
def translate (s : PageConverter) (addr : UInt64) : UInt64 :=
  s.frameOf (addr / s.pageSize) * s.pageSize + addr % s.pageSize

/-- A call answers the mapping, which stays that of the address. -/
theorem scanPage_eq_ok {s s' : PageConverter} {addr res : UInt64}
    (h : scanPage s addr = .ok (res, s')) :
    res = s.translate addr ∧ s'.translate addr = s.translate addr := by
  obtain ⟨page, hpage, h⟩ := Outcome.bind_eq_ok.mp h
  obtain ⟨offset, hoffset, h⟩ := Outcome.bind_eq_ok.mp h
  obtain ⟨-, rfl⟩ := div_eq_ok.mp hpage
  obtain ⟨-, rfl⟩ := mod_eq_ok.mp hoffset
  unfold translate frameOf
  cases hframe : s.pageTable (addr / s.pageSize) with
  | some index =>
    simp only [hframe] at h
    cases h
    exact ⟨rfl, by rw [hframe]⟩
  | none =>
    simp only [hframe, Outcome.bind_eq_ok] at h
    obtain ⟨group, hgroup, currFid, -, heq⟩ := h
    cases heq
    obtain ⟨-, rfl⟩ := div_eq_ok.mp hgroup
    refine ⟨rfl, ?_⟩
    simp only [Function.update_self]

end PageConverter

namespace CacheArray

variable {c c' : CacheArray} {b x : UInt64}

theorem present_of_sees (h : c.sees b = true) : Present c b := by
  unfold sees at h
  split at h
  · next e he =>
    have hb := List.find?_some he
    exact ⟨e, List.mem_of_find?_eq_some he, by simpa using hb⟩
  · cases h

end CacheArray

namespace Core

variable {c c' : Core} {addr line : UInt64} {r : Bool}

/-- From `c` to `c'` only requests are queued that write the line, by an actual address that is
translated to it. -/
structure Requests (c c' : Core) (line : UInt64) : Prop where
  queued : ∃ writeback waiting, c'.proc.writebackReq = c.proc.writebackReq ++ writeback ∧
    c'.world.mctrl.waitQueue = c.world.mctrl.waitQueue ++ waiting ∧
    ∀ req ∈ writeback ++ waiting, req.type = .flush ∧ req.blockAddr = line ∧
      c'.world.tlb.translate req.actualAddr = line

/-- **The flush is one of the line**: it answers whether the processor finds the line dirty, removes
the line then and no other line, and queues requests for the line only. -/
structure FlushesLine (cfg : Config) (c : Core) (line : UInt64) (r : Bool) (c' : Core) : Prop where
  answer : r = false ↔ cfg.useCache = true ∧ c.finds cfg line = true
  removed : r = false → line ≠ NULL → ¬ Present c'.proc.l1Cache line ∧
    (cfg.sharedCache = true → ¬ Present c'.world.sharedCache line)
  kept : ∀ b, b ≠ NULL → r = true ∨ b ≠ line →
    (Present c'.proc.l1Cache b ↔ Present c.proc.l1Cache b) ∧
      (Present c'.world.sharedCache b ↔ Present c.world.sharedCache b)
  requests : Requests c c' line

/-- What does not concern the lines and the queues. -/
structure SameLines (c c' : Core) : Prop where
  stores : SameStores c c'
  tlb : c'.world.tlb = c.world.tlb

theorem anyDirty_same (h : c.anyDirty cfg addr = .ok (r, c')) :
    r = c.finds cfg addr ∧ SameLines c c' := by
  refine ⟨(anyDirty_spec h).1, ?_⟩
  obtain ⟨⟨dirty, l1⟩, hdirty, h⟩ := Outcome.bind_eq_ok.mp h
  have hfirst := ifdirty_sameStores hdirty
  dsimp only at h
  split_ifs at h
  · cases h
    exact ⟨hfirst, rfl⟩
  · obtain ⟨⟨dirty', shared⟩, hshared, heq⟩ := Outcome.bind_eq_ok.mp h
    cases heq
    obtain ⟨-, hlines, hmax⟩ := ifdirty_eq_ok hshared
    exact ⟨⟨hfirst.l1, ⟨hlines, hmax⟩, rfl, rfl, rfl, id, rfl⟩, rfl⟩
  · cases h
    exact ⟨hfirst, rfl⟩

/-- The lines are untouched, and so are the caches. -/
theorem SameStores.present (h : SameStores c c') (b : UInt64) :
    (Present c'.proc.l1Cache b ↔ Present c.proc.l1Cache b) ∧
      (Present c'.world.sharedCache b ↔ Present c.world.sharedCache b) :=
  ⟨present_congr h.l1.1 h.l1.2, present_congr h.shared.1 h.shared.2⟩

/-- Queuing the request of a flush changes the two queues only, and adds at most the request. -/
theorem queueFlush_frame (c : Core) (item : ProcRequest) :
    (c.queueFlush cfg item).proc.l1Cache = c.proc.l1Cache ∧
      (c.queueFlush cfg item).world.tlb = c.world.tlb ∧
      ∃ writeback waiting, (c.queueFlush cfg item).proc.writebackReq =
          c.proc.writebackReq ++ writeback ∧
        (c.queueFlush cfg item).world.mctrl.waitQueue = c.world.mctrl.waitQueue ++ waiting ∧
        ∀ req ∈ writeback ++ waiting, req = item := by
  unfold queueFlush
  split_ifs
  · exact ⟨rfl, rfl, [item], [], rfl, (List.append_nil _).symm, by simp⟩
  · rcases addToMctrl_cases cfg c item with hadd | hadd
    · rw [hadd]
      exact ⟨rfl, rfl, [], [], (List.append_nil _).symm, (List.append_nil _).symm, by simp⟩
    · rw [hadd]
      exact ⟨rfl, rfl, [], [item], (List.append_nil _).symm, rfl, by simp⟩

/-- What the flush of a block does that finds it dirty: the lines of the block leave, and the
requests it queues are of the block and its mapping. -/
structure Flushed (cfg : Config) (c : Core) (b : UInt64) (c' : Core) : Prop where
  l1 : ∀ x, x ≠ NULL → (Present c'.proc.l1Cache x ↔ Present c.proc.l1Cache x ∧ x ≠ b)
  shared : ∀ x, x ≠ NULL → (Present c'.world.sharedCache x ↔
    Present c.world.sharedCache x ∧ (cfg.sharedCache = true → x ≠ b))
  tlb : c'.world.tlb.translate b = c.world.tlb.translate b
  queued : ∃ writeback waiting, c'.proc.writebackReq = c.proc.writebackReq ++ writeback ∧
    c'.world.mctrl.waitQueue = c.world.mctrl.waitQueue ++ waiting ∧
    ∀ req ∈ writeback ++ waiting, req.type = .flush ∧ req.blockAddr = b ∧
      req.actualAddr = c.world.tlb.translate b

/-- **The flush of a block**: it looks for the block, and what it finds it removes. -/
theorem flushBlock_spec {b : UInt64} (h : c.flushBlock cfg b = .ok (r, c')) (htidy : c.Tidy) :
    (r = true ∧ ¬ (cfg.useCache = true ∧ c.finds cfg b = true) ∧ SameLines c c') ∨
      (r = false ∧ cfg.useCache = true ∧ c.finds cfg b = true ∧ Flushed cfg c b c') := by
  unfold flushBlock at h
  by_cases huse : cfg.useCache = true
  · rw [if_neg (by simp [huse]), if_neg (by simp [htidy.flushQueue])] at h
    obtain ⟨⟨dirty, c₁⟩, hdirty, h⟩ := Outcome.bind_eq_ok.mp h
    obtain ⟨rfl, hsame⟩ := anyDirty_same hdirty
    cases hfinds : c.finds cfg b with
    | false =>
      simp only [hfinds, Bool.false_eq_true, if_false] at h
      cases h
      exact .inl ⟨rfl, by simp, hsame⟩
    | true =>
      simp only [hfinds, if_true, Outcome.bind_eq_ok] at h
      obtain ⟨⟨actualAddr, c₂⟩, hscan, ⟨r₁, l1⟩, hl1, h⟩ := h
      obtain ⟨⟨res, tlb⟩, htlb, heq⟩ := Outcome.bind_eq_ok.mp hscan
      cases heq
      obtain ⟨rfl, hagain⟩ := PageConverter.scanPage_eq_ok htlb
      -- The request is queued between the test and the removal.
      set c₂ : Core := { c₁ with world := { c₁.world with tlb := tlb } } with hc₂
      have hcache :
          (c₂.queueFlush cfg (c₂.flushItem b (c₁.world.tlb.translate b))).world.sharedCache =
            c₁.world.sharedCache := by rw [queueFlush_caches]
      obtain ⟨hl1₃, htlb₃, writeback, waiting, hwriteback, hwaiting, hitems⟩ :=
        @queueFlush_frame cfg c₂ (c₂.flushItem b (c₁.world.tlb.translate b))
      generalize c₂.queueFlush cfg (c₂.flushItem b (c₁.world.tlb.translate b)) = c₃ at *
      rw [hl1₃] at hl1
      have hqueued : ∃ writeback waiting,
          c₃.proc.writebackReq = c.proc.writebackReq ++ writeback ∧
          c₃.world.mctrl.waitQueue = c.world.mctrl.waitQueue ++ waiting ∧
          ∀ req ∈ writeback ++ waiting, req.type = .flush ∧ req.blockAddr = b ∧
            req.actualAddr = c.world.tlb.translate b := by
        refine ⟨writeback, waiting, ?_, ?_, fun req hreq => ?_⟩
        · rw [hwriteback, ← hsame.stores.writeback]
        · rw [hwaiting, ← hsame.stores.mctrl]
        · rw [hitems req hreq, ← hsame.tlb]
          exact ⟨rfl, rfl, rfl⟩
      have htranslate : c₃.world.tlb.translate b = c.world.tlb.translate b := by
        rw [htlb₃, ← hsame.tlb]
        exact hagain
      have hremoved : ∀ x, x ≠ NULL → (Present l1 x ↔ Present c.proc.l1Cache x ∧ x ≠ b) := by
        intro x hx
        rw [← (hsame.stores.present x).1]
        exact present_remove (distinct_congr hsame.stores.l1.1 htidy.l1) hl1 hx
      by_cases hshared : cfg.sharedCache = true
      · rw [if_pos hshared] at h
        obtain ⟨⟨r₂, shared⟩, hremove, heq⟩ := Outcome.bind_eq_ok.mp h
        cases heq
        refine .inr ⟨rfl, huse, rfl, hremoved, fun x hx => ?_, htranslate, hqueued⟩
        rw [← (hsame.stores.present x).2, imp_iff_right hshared]
        replace hremove : c₁.world.sharedCache.remove b = .ok (r₂, shared) := by
          rw [← hcache]
          exact hremove
        exact present_remove (distinct_congr hsame.stores.shared.1 htidy.shared) hremove hx
      · rw [if_neg hshared] at h
        cases h
        refine .inr ⟨rfl, huse, rfl, hremoved, fun x hx => ?_, htranslate, hqueued⟩
        rw [← (hsame.stores.present x).2, ← hcache]
        exact (and_iff_left fun hs => absurd hs hshared).symm
  · rw [if_pos (by simpa using huse)] at h
    cases h
    exact .inl ⟨rfl, fun hc => huse hc.1, ⟨⟨⟨rfl, rfl⟩, ⟨rfl, rfl⟩, rfl, rfl, rfl, id, rfl⟩, rfl⟩⟩

/-- **What a flush by an actual address does**: it flushes the block of that address, and leaves the
mapping. -/
theorem flush_actual_spec (h : c.flush cfg addr true = .ok (r, c')) (htidy : c.Tidy) :
    (r = true ∧ ¬ (cfg.useCache = true ∧ c.finds cfg addr = true) ∧ SameStores c c') ∨
      (r = false ∧ cfg.useCache = true ∧ c.finds cfg addr = true ∧ Flushed cfg c addr c') := by
  obtain ⟨⟨res, c₁⟩, hscan, h⟩ := Outcome.bind_eq_ok.mp h
  obtain ⟨⟨res', tlb⟩, htlb, heq⟩ := Outcome.bind_eq_ok.mp hscan
  cases heq
  obtain ⟨-, hagain⟩ := PageConverter.scanPage_eq_ok htlb
  rcases flushBlock_spec h ⟨htidy.l1, htidy.shared, htidy.marked, htidy.flushQueue,
    (htidy.tlb.scanPage htlb).2.1⟩ with
    ⟨hr, hnone, hsame⟩ | ⟨hr, huse, hfinds, hflushed⟩
  · have hstores := hsame.stores
    exact .inl ⟨hr, hnone, hstores.l1, hstores.shared, hstores.writeback, hstores.mctrl,
      hstores.flushQueue, fun hsound => hstores.tlb (hsound.scanPage htlb).2.1, hstores.acts⟩
  · refine .inr ⟨hr, huse, hfinds, hflushed.l1, hflushed.shared, hflushed.tlb.trans hagain, ?_⟩
    obtain ⟨writeback, waiting, hwriteback, hwaiting, hitems⟩ := hflushed.queued
    refine ⟨writeback, waiting, hwriteback, hwaiting, fun req hreq => ?_⟩
    obtain ⟨htype, hblock, hactual⟩ := hitems req hreq
    exact ⟨htype, hblock, hactual.trans hagain⟩

theorem present_of_finds (h : c.finds cfg addr = true) : Present c.proc.l1Cache addr ∨
    cfg.sharedCache = true ∧ Present c.world.sharedCache addr := by
  unfold finds at h
  rw [Bool.or_eq_true, Bool.and_eq_true] at h
  rcases h with h | ⟨hshared, h⟩
  · exact .inl (present_of_sees h)
  · exact .inr ⟨hshared, present_of_sees h⟩

/-- A flush that finds nothing is one of every line that is not found either. -/
theorem SameStores.flushesLine (h : SameStores c c')
    (hnone : ¬ (cfg.useCache = true ∧ c.finds cfg line = true)) :
    FlushesLine cfg c line true c' := by
  refine ⟨?_, fun hr => absurd hr.symm Bool.false_ne_true, fun b _ _ => h.present b, ?_⟩
  · exact iff_of_false (fun hr => Bool.false_ne_true hr.symm) hnone
  refine ⟨[], [], ?_, ?_, fun req hreq => absurd hreq List.not_mem_nil⟩
  · rw [h.writeback, List.append_nil]
  · rw [h.mctrl, List.append_nil]

/-- A flush is one of the block it is given, when the translation keeps it. -/
theorem Flushed.flushesLine (h : Flushed cfg c line c')
    (huse : cfg.useCache = true) (hfinds : c.finds cfg line = true)
    (hkeep : c.world.tlb.translate line = line) : FlushesLine cfg c line false c' := by
  refine ⟨by simp [huse, hfinds], fun _ hnull => ⟨fun hp => ?_, fun hshared hp => ?_⟩,
    fun b hb hne => ⟨?_, ?_⟩, ?_⟩
  · exact ((h.l1 line hnull).mp hp).2 rfl
  · exact ((h.shared line hnull).mp hp).2 hshared rfl
  · rw [h.l1 b hb]
    exact and_iff_left (hne.resolve_left Bool.false_ne_true)
  · rw [h.shared b hb]
    exact and_iff_left fun _ => hne.resolve_left Bool.false_ne_true
  · obtain ⟨writeback, waiting, hwriteback, hwaiting, hitems⟩ := h.queued
    refine ⟨writeback, waiting, hwriteback, hwaiting, fun req hreq => ?_⟩
    obtain ⟨htype, hblock, hactual⟩ := hitems req hreq
    refine ⟨htype, hblock, ?_⟩
    rw [hactual, hkeep, h.tlb, hkeep]

/-- A flush that removes another block than the line is not one of the line. -/
theorem Flushed.not_flushesLine (h : Flushed cfg c addr c') (hfinds : c.finds cfg addr = true)
    (hne : line ≠ addr) : ¬ FlushesLine cfg c line false c' := by
  intro hline
  by_cases hnull : addr = NULL
  · -- The line is not blank, and stays.
    have hline0 : line ≠ NULL := fun h0 => hne (h0.trans hnull.symm)
    obtain ⟨hl1, hshared⟩ := hline.removed rfl hline0
    rcases present_of_finds (hline.answer.mp rfl).2 with hp | ⟨hs, hp⟩
    · exact hl1 ((h.l1 line hline0).mpr ⟨hp, hne⟩)
    · exact hshared hs ((h.shared line hline0).mpr ⟨hp, fun _ => hne⟩)
  · -- The block is lost.
    obtain ⟨hl1, hshared⟩ := hline.kept addr hnull (.inr hne.symm)
    rcases present_of_finds hfinds with hp | ⟨hs, hp⟩
    · exact ((h.l1 addr hnull).mp (hl1.mpr hp)).2 rfl
    · exact ((h.shared addr hnull).mp (hshared.mpr hp)).2 hs rfl

/-- **When a flush by an actual address is one of the translated line.** -/
theorem flush_actual_iff (h : c.flush cfg addr true = .ok (r, c')) (htidy : c.Tidy) :
    FlushesLine cfg c (c.world.tlb.translate addr) r c' ↔
      c.world.tlb.translate addr = addr ∨ cfg.useCache = false ∨
        c.finds cfg addr = false ∧ c.finds cfg (c.world.tlb.translate addr) = false := by
  rcases flush_actual_spec h htidy with ⟨rfl, hnone, hsame⟩ | ⟨rfl, huse, hfinds, hflushed⟩
  · constructor
    · intro hline
      have hanswer := hline.answer
      simp only [Bool.true_eq_false, false_iff, not_and] at hanswer
      cases huse : cfg.useCache with
      | false => exact .inr (.inl rfl)
      | true =>
        refine .inr (.inr ⟨?_, ?_⟩)
        · simpa [huse] using hnone
        · simpa using hanswer huse
    · intro hcase
      apply hsame.flushesLine
      rintro ⟨huse, hfinds⟩
      rcases hcase with hkeep | hno | ⟨-, hclean⟩
      · rw [hkeep] at hfinds
        exact hnone ⟨huse, hfinds⟩
      · exact absurd (hno.symm.trans huse) Bool.false_ne_true
      · exact absurd (hclean.symm.trans hfinds) Bool.false_ne_true
  · constructor
    · intro hline
      by_contra hcase
      exact hflushed.not_flushesLine hfinds (fun heq => hcase (.inl heq)) hline
    · rintro (hkeep | hno | ⟨hclean, -⟩)
      · rw [hkeep]
        exact hflushed.flushesLine huse hfinds hkeep
      · exact absurd (hno.symm.trans huse) Bool.false_ne_true
      · exact absurd (hclean.symm.trans hfinds) Bool.false_ne_true

end Core

/-! ### Runs -/

/-- **When a flush by an actual address is one of the translated line**, in every reachable state:
when the translation keeps the address, or the caches are not in use, or the processor finds neither
the block of the address nor the translated one dirty. -/
theorem flushesLine_iff (P : Platform Obj) {s₀ s : System} {es : List Event}
    (hinit : System.init cfg P = .ok s₀) (h : exec (System.step cfg P.memory) s₀ es = .ok s)
    {i : ℕ} {proc : Proc} (hproc : s.coherence.host.procs[i]? = some proc) {addr : UInt64} {r : Bool}
    {c' : Core} (hflush : (s.coherence.host.core proc).flush cfg addr true = .ok (r, c')) :
    Core.FlushesLine cfg (s.coherence.host.core proc) (s.coherence.host.world.tlb.translate addr) r
        c' ↔
      s.coherence.host.world.tlb.translate addr = addr ∨ cfg.useCache = false ∨
        (s.coherence.host.core proc).finds cfg addr = false ∧
          (s.coherence.host.core proc).finds cfg (s.coherence.host.world.tlb.translate addr) =
            false :=
  Core.flush_actual_iff hflush ((Host.tidy_of_exec hinit h).1.core hproc)

/-- The flush of a written block whose page keeps its number. -/
theorem flushesLine_written : ∃ s proc c', exec (System.step {} oneObject)
    (smallSystem {} oneWrite) writeBlock = .ok s ∧ s.coherence.host.procs[0]? = some proc ∧
      (s.coherence.host.core proc).flush {} 64 true = .ok (false, c') ∧
      Core.FlushesLine {} (s.coherence.host.core proc) 64 false c' := by
  have hrun : (exec (System.step {} oneObject) (smallSystem {} oneWrite) writeBlock).map (fun s =>
      (s.coherence.host.procs.map fun proc =>
        ((s.coherence.host.core proc).flush {} 64 true).map Prod.fst,
        s.coherence.host.world.tlb.translate 64)) = .ok ([.ok false], 64) := by decide +kernel
  obtain ⟨s, hs, hstate⟩ := Outcome.exists_of_map_eq_ok hrun
  obtain ⟨hprocs, hkeep⟩ := Prod.mk.inj hstate
  obtain ⟨proc, hproc, hanswer⟩ : ∃ proc, s.coherence.host.procs[0]? = some proc ∧
      ((s.coherence.host.core proc).flush {} 64 true).map Prod.fst = .ok false := by
    rw [← Option.map_eq_some_iff, ← List.getElem?_map, hprocs]
    rfl
  obtain ⟨⟨r, c'⟩, hflush, hr⟩ := Outcome.exists_of_map_eq_ok hanswer
  obtain rfl : r = false := hr
  have hline := flushesLine_iff (smallPlatform oneWrite) (init_smallPlatform rfl rfl oneWrite) hs
    hproc hflush
  rw [hkeep] at hline
  exact ⟨s, proc, c', hs, hproc, hflush, hline.mpr (.inl rfl)⟩

/-- One processor that writes a block of the page 1. -/
def writePageOne : List (List Input) :=
  [[.instruction { type := .write, address := 4160, isMem := true }]]

/-- Two banks: the page 1 gets the frame 0 when it is touched first. -/
def twoBanks : Platform Unit := { smallPlatform writePageOne with bank := 2 }

def twoBankSystem : System :=
  { smallSystem {} writePageOne with
    coherence := { (smallSystem {} writePageOne).coherence with host := twoBanks.host {} } }

/-- The block is dirty under its translated address, and the flush by the actual address answers that
there is nothing to flush. -/
theorem not_flushesLine_page_one : System.init {} twoBanks = .ok twoBankSystem ∧
    ¬ ∀ s proc r c', exec (System.step {} oneObject) twoBankSystem writeBlock = .ok s →
      s.coherence.host.procs[0]? = some proc →
      (s.coherence.host.core proc).flush {} 4160 true = .ok (r, c') →
      Core.FlushesLine {} (s.coherence.host.core proc) (s.coherence.host.world.tlb.translate 4160)
        r c' := by
  refine ⟨init_oneObject rfl rfl rfl, fun h => ?_⟩
  have hrun : (exec (System.step {} oneObject) twoBankSystem writeBlock).map (fun s =>
      s.coherence.host.procs.map fun proc =>
        (((s.coherence.host.core proc).flush {} 4160 true).map Prod.fst,
          (s.coherence.host.core proc).finds {} (s.coherence.host.world.tlb.translate 4160))) =
        .ok [(.ok true, true)] := by decide +kernel
  obtain ⟨s, hs, hprocs⟩ := Outcome.exists_of_map_eq_ok hrun
  obtain ⟨proc, hproc, hstate⟩ : ∃ proc, s.coherence.host.procs[0]? = some proc ∧
      (((s.coherence.host.core proc).flush {} 4160 true).map Prod.fst,
        (s.coherence.host.core proc).finds {} (s.coherence.host.world.tlb.translate 4160)) =
          ((.ok true, true) : Outcome Bool × Bool) := by
    rw [← Option.map_eq_some_iff, ← List.getElem?_map, hprocs]
    rfl
  obtain ⟨hanswer, hfinds⟩ := Prod.mk.inj hstate
  obtain ⟨⟨r, c'⟩, hflush, hr⟩ := Outcome.exists_of_map_eq_ok hanswer
  obtain rfl : r = true := hr
  have hline := (h s proc true c' hs hproc hflush).answer
  exact absurd (hline.mpr ⟨rfl, hfinds⟩).symm Bool.false_ne_true

end PIMSim
