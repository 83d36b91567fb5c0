import PIMSim.PIM.Tidy

/-!
# The answer of a flush

`Coherence.flush` asks one processor after the other, and answers what the last one answers. Nothing
is ever added to the flush queue, so a block whose data is still on its way is taken for flushed.

## Main definitions

* `Clean`: no cache holds the block dirty, and no flush of it is on its way
* `SeesDirty`: the last processor, with the shared cache when it is the only one, has the block dirty

## Main results

* `Coherence.flush_answer`: a flush answers false when the last processor sees the block dirty
* `flush_complete_iff`: in every reachable state, the answer true means clean when the block is
  clean, or the last processor sees it dirty
-/

namespace PIMSim

open CSharp Transition CacheArray

variable {Obj : Type} {cfg : Config}

/-- A request of the host that flushes the block. -/
def MemRequest.flushes (m : MemRequest) (b : UInt64) : Prop :=
  m.pim = false ∧ m.memtype = .flush ∧ m.blockAddr = b

/-- **No cache holds the block dirty**, and no flush of it waits in a write-back queue, in the
controller or in a memory object. -/
structure Clean (s : System) (b : UInt64) : Prop where
  l1 : ∀ proc ∈ s.coherence.host.procs, ¬ Dirty proc.l1Cache b
  shared : ¬ Dirty s.coherence.host.world.sharedCache b
  writeback : ∀ proc ∈ s.coherence.host.procs, ∀ req ∈ proc.writebackReq,
    ¬ (req.type = .flush ∧ req.blockAddr = b)
  waiting : ∀ req ∈ s.mctrl.waitQueue, ¬ (req.type = .flush ∧ req.blockAddr = b)
  sending : ∀ queue ∈ s.mctrl.sendQueue, ∀ m ∈ queue, ¬ m.flushes b
  memory : ∀ m ∈ s.memory, ¬ m.flushes b

/-- The last processor sees the block dirty in its first-level cache, or in the shared cache when no
other processor has looked there before. -/
def SeesDirty (cfg : Config) (host : Host) (b : UInt64) : Prop :=
  cfg.useCache = true ∧ ∃ proc, host.procs.getLast? = some proc ∧
    (proc.l1Cache.sees b = true ∨
      cfg.sharedCache = true ∧ host.procs.length = 1 ∧ host.world.sharedCache.sees b = true)

instance (cfg : Config) (host : Host) (b : UInt64) : Decidable (SeesDirty cfg host b) :=
  inferInstanceAs (Decidable (_ ∧ ∃ proc ∈ host.procs.getLast?, _))

/-! ### The test of a cache -/

/-- A removal leaves no line that the test sees: the first line of the block is blank, and a block
other than `NULL` has no second one. -/
theorem CacheArray.not_sees_of_remove {c c' : CacheArray} {b : UInt64} {r : Bool}
    (hdis : Distinct c) (h : c.remove b = .ok (r, c')) : c'.sees b = false := by
  simp only [remove, Outcome.bind_eq_ok] at h
  obtain ⟨i, hi, h⟩ := h
  have hi : i = b.toNat % c.maxSet := index_eq_ok hi
  subst hi
  split_ifs at h with hany
  · cases h
    unfold sees
    rw [setWays_maxSet, setWays_lines, if_pos rfl]
    by_cases hnull : b = NULL
    · -- The line is blank already, and stays the first one.
      rw [FirstMatch.find?_update fun e _ => by simp [hnull]]
      cases (c.lines (b.toNat % c.maxSet)).find? (·.blockAddr = b) <;> rfl
    · have hone : (c.lines (b.toNat % c.maxSet)).Pairwise fun e f =>
          decide (e.blockAddr = b) = true → decide (f.blockAddr = b) = false := by
        apply (hdis _).imp
        intro e f hef he
        rw [decide_eq_true_eq] at he
        rw [decide_eq_false_iff_not]
        intro hf
        exact hnull (he ▸ hef (he.trans hf.symm))
      have hclear := FirstMatch.update_clears (f := fun e : CacheEntity =>
        { e with blockAddr := NULL, dirty := false, pid := 0, timestamp := 0 }) hone
        fun e => by simpa using fun h => hnull h.symm
      rw [List.find?_eq_none.mpr fun e he => by simpa using hclear e he]
  · cases h
    unfold sees
    have hnone : ∀ e ∈ c.lines (b.toNat % c.maxSet), e.blockAddr ≠ b := by
      intro e he heb
      exact hany (List.any_eq_true.mpr ⟨e, he, by simpa using heb⟩)
    rw [List.find?_eq_none.mpr fun e he => by simpa using hnone e he]

/-! ### The answer of one processor -/

namespace Core

variable {c c' : Core}

theorem scanPage_caches {addr res : UInt64} (h : c.scanPage addr = .ok (res, c')) :
    c'.proc = c.proc ∧ c'.world.sharedCache = c.world.sharedCache ∧
      c'.world.flushQueue = c.world.flushQueue := by
  obtain ⟨⟨r, tlb⟩, -, heq⟩ := Outcome.bind_eq_ok.mp h
  cases heq
  exact ⟨rfl, rfl, rfl⟩

theorem queueFlush_caches (item : ProcRequest) :
    (c.queueFlush cfg item).world.sharedCache = c.world.sharedCache := by
  unfold queueFlush
  split_ifs
  · rfl
  · rcases addToMctrl_cases cfg c item with hadd | hadd <;> rw [hadd] <;> rfl

/-- **The answer of one processor**: whether it sees the block dirty nowhere. Behind it the shared
cache does not show the block dirty. -/
theorem flushBlock_answer {b : UInt64} {r : Bool} (h : c.flushBlock cfg b = .ok (r, c'))
    (huse : cfg.useCache = true) (hqueue : c.world.flushQueue = [])
    (hdis : Distinct c.world.sharedCache) :
    r = !(c.proc.l1Cache.sees b || cfg.sharedCache && c.world.sharedCache.sees b) ∧
      (cfg.sharedCache = true → c'.world.sharedCache.sees b = false) := by
  unfold flushBlock at h
  rw [if_neg (by simp [huse]), if_neg (by simp [hqueue])] at h
  obtain ⟨⟨dirty, c₁⟩, hdirty, h⟩ := Outcome.bind_eq_ok.mp h
  obtain ⟨hanswer, hsees, -, -, hdis₁⟩ := anyDirty_spec hdirty
  rw [finds] at hanswer
  cases dirty with
  | false =>
    cases h
    refine ⟨by rw [← hanswer]; rfl, fun hshared => ?_⟩
    rw [hsees]
    rw [hshared, Bool.true_and] at hanswer
    exact (Bool.or_eq_false_iff.mp hanswer.symm).2
  | true =>
    simp only [if_true, Outcome.bind_eq_ok] at h
    obtain ⟨⟨actualAddr, c₂⟩, hscan, ⟨r₁, l1⟩, hl1, h⟩ := h
    obtain ⟨-, hshared₂, -⟩ := scanPage_caches hscan
    by_cases hshared : cfg.sharedCache = true
    · rw [if_pos hshared] at h
      obtain ⟨⟨r₂, shared⟩, hremove, heq⟩ := Outcome.bind_eq_ok.mp h
      cases heq
      refine ⟨by rw [← hanswer]; rfl, fun _ => not_sees_of_remove ?_ hremove⟩
      show Distinct (c₂.queueFlush cfg (c₂.flushItem b actualAddr)).world.sharedCache
      rw [queueFlush_caches, hshared₂]
      exact hdis₁ hdis
    · rw [if_neg hshared] at h
      cases h
      exact ⟨by rw [← hanswer]; rfl, fun hs => absurd hs hshared⟩

theorem flush_answer {b : UInt64} {actual r : Bool} (h : c.flush cfg b actual = .ok (r, c'))
    (huse : cfg.useCache = true) (hqueue : c.world.flushQueue = [])
    (hdis : Distinct c.world.sharedCache) :
    r = !(c.proc.l1Cache.sees b || cfg.sharedCache && c.world.sharedCache.sees b) ∧
      (cfg.sharedCache = true → c'.world.sharedCache.sees b = false) := by
  unfold flush at h
  cases actual with
  | false => exact flushBlock_answer h huse hqueue hdis
  | true =>
    obtain ⟨⟨res, c₁⟩, hscan, h⟩ := Outcome.bind_eq_ok.mp h
    obtain ⟨hproc, hshared, hflush⟩ := scanPage_caches hscan
    have hanswer := flushBlock_answer h huse (hflush.trans hqueue) (hshared ▸ hdis)
    rw [hproc, hshared] at hanswer
    exact hanswer

/-- Without caches there is nothing to flush. -/
theorem flush_noCache {b : UInt64} {actual r : Bool} (h : c.flush cfg b actual = .ok (r, c'))
    (huse : cfg.useCache = false) : r = true := by
  unfold flush flushBlock at h
  cases actual with
  | false =>
    simp only [huse, Bool.not_false, if_true] at h
    cases h
    rfl
  | true =>
    obtain ⟨⟨res, c₁⟩, -, h⟩ := Outcome.bind_eq_ok.mp h
    simp only [huse, Bool.not_false, if_true] at h
    cases h
    rfl

end Core

/-! ### The answer of all processors -/

namespace Coherence

variable {host host' : Host} {b : UInt64} {actual r : Bool}

/-- The answer of the processors from index `i` on, when the shared cache does not show the block
dirty: whether the last of them does not see it dirty. -/
theorem flushFrom_answer {n i : ℕ} {stall : Bool} {proc : Proc}
    (h : flushFrom cfg b actual (n + 1) i stall host = .ok (r, host'))
    (hlast : host.procs[i + n]? = some proc) (huse : cfg.useCache = true) (htidy : host.Tidy)
    (hshared : cfg.sharedCache = true → host.world.sharedCache.sees b = false) :
    r = !proc.l1Cache.sees b := by
  induction n generalizing i stall host with
  | zero =>
    obtain ⟨⟨r', host₁⟩, hone, h⟩ := Outcome.bind_eq_ok.mp h
    cases h
    obtain ⟨-, proc', c, hproc, hflush, -⟩ := Host.onProc_eq_ok.mp hone
    obtain rfl : proc = proc' := Option.some.inj (hlast.symm.trans hproc)
    obtain ⟨hr, -⟩ := Core.flush_answer hflush huse htidy.flushQueue htidy.shared
    have hnone : (cfg.sharedCache && host.world.sharedCache.sees b) = false := by
      cases hs : cfg.sharedCache with
      | false => rfl
      | true => exact hshared hs
    rw [hr]
    show (!(proc.l1Cache.sees b || cfg.sharedCache && host.world.sharedCache.sees b)) = _
    rw [hnone, Bool.or_false]
  | succ n ih =>
    obtain ⟨⟨r', host₁⟩, hone, h⟩ := Outcome.bind_eq_ok.mp h
    obtain ⟨-, proc', c, hproc, hflush, rfl⟩ := Host.onProc_eq_ok.mp hone
    obtain ⟨-, hbehind⟩ := Core.flush_answer hflush huse htidy.flushQueue htidy.shared
    refine ih h ?_ (htidy.put hproc (Core.flush_effects (w := .all) hflush fun _ => trivial)) hbehind
    show (host.procs.set i c.proc)[i + 1 + n]? = some proc
    rw [List.getElem?_set_ne (by omega), Nat.add_right_comm, Nat.add_assoc]
    exact hlast

theorem flushFrom_noCache {n i : ℕ} (h : flushFrom cfg b actual n i true host = .ok (r, host'))
    (huse : cfg.useCache = false) : r = true := by
  induction n generalizing i host with
  | zero =>
    cases h
    rfl
  | succ n ih =>
    obtain ⟨⟨r', host₁⟩, hone, h⟩ := Outcome.bind_eq_ok.mp h
    obtain ⟨-, proc, c, -, hflush, -⟩ := Host.onProc_eq_ok.mp hone
    obtain rfl := Core.flush_noCache hflush huse
    exact ih h

/-- **The answer of a flush** is false when the last processor sees the block dirty. -/
theorem flush_answer (h : Coherence.flush cfg host b actual = .ok (r, host')) (htidy : host.Tidy) :
    r = false ↔ SeesDirty cfg host b := by
  unfold Coherence.flush at h
  unfold SeesDirty
  cases huse : cfg.useCache with
  | false => simp [flushFrom_noCache h huse]
  | true =>
    rw [List.getLast?_eq_getElem?]
    match hlength : host.procs.length with
    | 0 =>
      rw [hlength] at h
      cases h
      simp [List.length_eq_zero_iff.mp hlength]
    | 1 =>
      -- The only processor looks at the shared cache as it is.
      rw [hlength] at h
      obtain ⟨⟨r', host₁⟩, hone, h⟩ := Outcome.bind_eq_ok.mp h
      cases h
      obtain ⟨-, proc, c, hproc, hflush, -⟩ := Host.onProc_eq_ok.mp hone
      obtain ⟨hr, -⟩ := Core.flush_answer hflush huse htidy.flushQueue htidy.shared
      have hproc' : host.procs[0]? = some proc := hproc
      rw [hr, hproc']
      show (!(proc.l1Cache.sees b || cfg.sharedCache && host.world.sharedCache.sees b)) = false ↔ _
      cases hl1 : proc.l1Cache.sees b <;> simp [hl1]
    | n + 2 =>
      -- The first processor leaves the shared cache without the dirty block.
      rw [hlength] at h
      obtain ⟨⟨r', host₁⟩, hone, h⟩ := Outcome.bind_eq_ok.mp h
      obtain ⟨-, proc, c, hproc, hflush, rfl⟩ := Host.onProc_eq_ok.mp hone
      obtain ⟨-, hbehind⟩ := Core.flush_answer hflush huse htidy.flushQueue htidy.shared
      have hlt : n + 1 < host.procs.length := by omega
      have hlast : host.procs[n + 1]? = some (host.procs.get ⟨n + 1, hlt⟩) :=
        List.getElem?_eq_getElem hlt
      have hlast' : (host.put 0 c).procs[1 + n]? = some (host.procs.get ⟨n + 1, hlt⟩) := by
        show (host.procs.set 0 c.proc)[1 + n]? = _
        rw [List.getElem?_set_ne (by omega), Nat.add_comm]
        exact hlast
      have hr := flushFrom_answer h hlast' huse
        (htidy.put hproc (Core.flush_effects (w := .all) hflush fun _ => trivial)) hbehind
      rw [hr, show n + 2 - 1 = n + 1 by omega, hlast]
      simp

end Coherence

/-! ### Runs -/

/-- **When the answer of a flush can be trusted**: in every reachable state, the answer true means
that the block is clean if and only if it is clean, or the last processor sees it dirty. -/
theorem flush_complete_iff (P : Platform Obj) {s₀ s : System} {es : List Event}
    (hinit : System.init cfg P = .ok s₀) (h : exec (System.step cfg P.memory) s₀ es = .ok s)
    {b : UInt64} {actual r : Bool} {host' : Host}
    (hflush : Coherence.flush cfg s.coherence.host b actual = .ok (r, host')) :
    (r = true → Clean s b) ↔ (Clean s b ∨ SeesDirty cfg s.coherence.host b) := by
  have htidy := (Host.tidy_of_exec hinit h).1
  rw [← Coherence.flush_answer hflush htidy]
  cases r <;> simp

/-- One processor that writes a block. -/
def oneWrite : List (List Input) :=
  [[.instruction { type := .write, address := 64, isMem := true }]]

/-- The write is issued, forwarded and completed: the block is dirty in both caches. -/
def writeBlock : List Event := [.procStep 0, .procStep 0, .mctrlStep, .take 0, .complete 0]

/-- The flush of the written block answers false. -/
theorem flush_complete_dirty : ∃ s host', exec (System.step {} oneObject) (smallSystem {} oneWrite)
    writeBlock = .ok s ∧ Coherence.flush {} s.coherence.host 64 false = .ok (false, host') ∧
      ((false = true → Clean s 64) ↔ (Clean s 64 ∨ SeesDirty {} s.coherence.host 64)) := by
  have hrun : (exec (System.step {} oneObject) (smallSystem {} oneWrite) writeBlock).map
      (fun s => (Coherence.flush {} s.coherence.host 64 false).map Prod.fst) =
        .ok (.ok false) := by decide +kernel
  obtain ⟨s, hs, hanswer⟩ := Outcome.exists_of_map_eq_ok hrun
  obtain ⟨⟨r, host'⟩, hflush, hr⟩ := Outcome.exists_of_map_eq_ok hanswer
  obtain rfl : r = false := hr
  refine ⟨s, host', hs, hflush, flush_complete_iff (smallPlatform oneWrite) ?_ hs hflush⟩
  exact init_smallPlatform rfl rfl oneWrite

/-- The second flush of the block answers true, while the request of the first one waits in the
write-back queue. -/
theorem not_flush_complete_second : ¬ ∀ s host', exec (System.step {} oneObject)
    (smallSystem {} oneWrite) (writeBlock ++ [.flush 64 false]) = .ok s →
      Coherence.flush {} s.coherence.host 64 false = .ok (true, host') → Clean s 64 := by
  intro h
  have hrun : (exec (System.step {} oneObject) (smallSystem {} oneWrite)
      (writeBlock ++ [.flush 64 false])).map (fun s =>
        ((Coherence.flush {} s.coherence.host 64 false).map Prod.fst,
          s.coherence.host.procs.map fun proc => proc.writebackReq.map fun req =>
            (req.type, req.blockAddr))) = .ok (.ok true, [[(.flush, 64)]]) := by decide +kernel
  obtain ⟨s, hs, hstate⟩ := Outcome.exists_of_map_eq_ok hrun
  obtain ⟨hanswer, hqueues⟩ := Prod.mk.inj hstate
  obtain ⟨⟨r, host'⟩, hflush, hr⟩ := Outcome.exists_of_map_eq_ok hanswer
  obtain rfl : r = true := hr
  have hclean := (h s host' hs hflush).writeback
  obtain ⟨proc, hproc, hreqs⟩ : ∃ proc ∈ s.coherence.host.procs,
      (proc.writebackReq.map fun req => (req.type, req.blockAddr)) = [(.flush, 64)] :=
    List.mem_map.mp (by rw [hqueues]; simp)
  obtain ⟨req, hreq, hfields⟩ : ∃ req ∈ proc.writebackReq,
      (req.type, req.blockAddr) = (RequestType.flush, (64 : UInt64)) :=
    List.mem_map.mp (by rw [hreqs]; simp)
  exact hclean proc hproc req hreq (Prod.mk.inj hfields)

end PIMSim
