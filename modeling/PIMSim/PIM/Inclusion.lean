import PIMSim.PIM.FlushAddress

/-!
# Inclusion of the first-level caches in the shared cache

A block that leaves the shared cache should leave every first-level cache. The shared cache names
the block that leaves only when its line is dirty, and the callback that filled it removes the block
from its own processor's cache alone. A flush removes the block from the caches of the processors
that see it dirty, and a cycle fills a first-level cache with a block that the shared cache may have
lost meanwhile.

## Main definitions

* `Host.Inclusive`: every block of a first-level cache is in the shared cache
* `FillSafe`, `FlushSafe`: the first-level caches that are not told of a block that leaves do not
  hold it
* `KeepsInclusion`: no event takes one of the ways above out of the invariant

## Main results

* `Core.flush_resides`, `Coherence.flush_resides`: which blocks a flush removes
* `inclusion_kept`: in every run whose events all keep to the condition, the first-level caches are
  included in the shared cache, and a block that leaves it is in no first-level cache
-/

namespace PIMSim

open CSharp Transition CacheArray

variable {Obj : Type} {cfg : Config}

/-! ### One cache -/

namespace CacheArray

variable {c c' c'' : CacheArray} {b x : UInt64}

/-- Two caches hold a block in the same way. -/
structure SameAt (c c' : CacheArray) (x : UInt64) : Prop where
  present : Present c' x ↔ Present c x
  sees : c'.sees x = c.sees x

theorem SameAt.refl (c : CacheArray) (x : UInt64) : SameAt c c x := ⟨Iff.rfl, rfl⟩

theorem SameAt.trans (h : SameAt c c' x) (h' : SameAt c' c'' x) : SameAt c c'' x :=
  ⟨h'.present.trans h.present, h'.sees.trans h.sees⟩

theorem sameAt_of_lines (hlines : c'.lines = c.lines) (hmax : c'.maxSet = c.maxSet) (x : UInt64) :
    SameAt c c' x :=
  ⟨present_congr hlines hmax, sees_congr hlines hmax x⟩

/-- A removal keeps every other block as it is. -/
theorem sameAt_of_remove {r : Bool} (hdis : Distinct c) (h : c.remove b = .ok (r, c'))
    (hx : x ≠ NULL) (hne : x ≠ b) : SameAt c c' x := by
  refine ⟨(present_remove hdis h hx).trans (and_iff_left hne), ?_⟩
  obtain ⟨i, hi, h⟩ := Outcome.bind_eq_ok.mp h
  have hi : i = b.toNat % c.maxSet := index_eq_ok hi
  subst hi
  split_ifs at h with hany
  · cases h
    unfold sees
    rw [setWays_maxSet, setWays_lines]
    split_ifs with hset
    · rw [FirstMatch.find?_update_of_not, hset]
      · intro e he
        rw [decide_eq_true_eq] at he
        simpa [he] using fun heq => hne heq.symm
      · exact fun e _ => by simpa using fun heq => hx heq.symm
    · rfl
  · cases h
    rfl

/-- A new cache holds no block. -/
theorem not_present_create {assoc maxSet : ℕ} (hx : x ≠ NULL) :
    ¬ Present (create assoc maxSet) x := by
  rintro ⟨e, he, hex⟩
  rw [List.eq_of_mem_replicate he] at hex
  exact hx hex.symm

end CacheArray

/-! ### The flush of one processor -/

namespace Core

variable {c c' : Core} {b x : UInt64} {r : Bool}

/-- Both caches hold the block as before. -/
structure SameAt (c c' : Core) (x : UInt64) : Prop where
  l1 : c.proc.l1Cache.SameAt c'.proc.l1Cache x
  shared : c.world.sharedCache.SameAt c'.world.sharedCache x

theorem SameAt.trans {c'' : Core} (h : SameAt c c' x) (h' : SameAt c' c'' x) : SameAt c c'' x :=
  ⟨h.l1.trans h'.l1, h.shared.trans h'.shared⟩

theorem sameAt_of_eq (hl1 : c'.proc.l1Cache = c.proc.l1Cache)
    (hshared : c'.world.sharedCache = c.world.sharedCache) (x : UInt64) : SameAt c c' x := by
  constructor
  · rw [hl1]
    exact .refl _ x
  · rw [hshared]
    exact .refl _ x

/-- What a flush of the block moves: a block that it finds leaves the first-level cache. -/
structure Flushes (cfg : Config) (c c' : Core) (b : UInt64) : Prop where
  other : ∀ x ≠ NULL, x ≠ b → SameAt c c' x
  quiet : (cfg.useCache && c.finds cfg b) = false → SameAt c c' b
  gone : (cfg.useCache && c.finds cfg b) = true → b ≠ NULL → ¬ Present c'.proc.l1Cache b

theorem sameAt_of_stores (h : SameStores c c') (x : UInt64) : SameAt c c' x :=
  ⟨sameAt_of_lines h.l1.1 h.l1.2 x, sameAt_of_lines h.shared.1 h.shared.2 x⟩

theorem flushBlock_resides (h : c.flushBlock cfg b = .ok (r, c')) (hshared : cfg.sharedCache = true)
    (htidy : c.Tidy) : Flushes cfg c c' b := by
  unfold flushBlock at h
  by_cases huse : cfg.useCache = true
  · rw [if_neg (by simp [huse]), if_neg (by simp [htidy.flushQueue])] at h
    obtain ⟨⟨dirty, c₁⟩, hdirty, h⟩ := Outcome.bind_eq_ok.mp h
    obtain ⟨hanswer, hsame₁⟩ := anyDirty_same hdirty
    cases dirty with
    | false =>
      cases h
      have hsame := sameAt_of_stores hsame₁.stores
      exact ⟨fun x _ _ => hsame x, fun _ => hsame b, fun hfinds => by simp [← hanswer] at hfinds⟩
    | true =>
      simp only [if_true, Outcome.bind_eq_ok] at h
      obtain ⟨⟨actualAddr, c₂⟩, hscan, ⟨r₁, l1⟩, hl1, h⟩ := h
      obtain ⟨hproc₂, hshared₂, -⟩ := scanPage_caches hscan
      rw [(queueFlush_frame c₂ _).1, hproc₂] at hl1
      rw [if_pos hshared] at h
      obtain ⟨⟨r₂, shared⟩, hremove, heq⟩ := Outcome.bind_eq_ok.mp h
      cases heq
      replace hremove : CacheArray.remove
          (c₂.queueFlush cfg (c₂.flushItem b actualAddr)).world.sharedCache b =
            .ok (r₂, shared) := hremove
      rw [queueFlush_caches, hshared₂] at hremove
      have hdis := distinct_congr hsame₁.stores.l1.1 htidy.l1
      have hdis' := distinct_congr hsame₁.stores.shared.1 htidy.shared
      refine ⟨?_, fun hquiet => by simp [huse, ← hanswer] at hquiet, fun _ hb hpresent => ?_⟩
      · intro x hx hne
        exact (sameAt_of_stores hsame₁.stores x).trans
          ⟨sameAt_of_remove hdis hl1 hx hne, sameAt_of_remove hdis' hremove hx hne⟩
      · exact ((present_remove hdis hl1 hb).mp hpresent).2 rfl
  · rw [if_pos (by simpa using huse)] at h
    cases h
    have hsame (x : UInt64) : SameAt c c x := sameAt_of_eq rfl rfl x
    refine ⟨fun x _ _ => hsame x, fun _ => hsame b, fun hfinds => ?_⟩
    rw [Bool.eq_false_iff.mpr huse, Bool.false_and] at hfinds
    exact absurd hfinds Bool.false_ne_true

/-- **A flush** of one processor. -/
theorem flush_resides {actual : Bool} (h : c.flush cfg b actual = .ok (r, c'))
    (hshared : cfg.sharedCache = true) (htidy : c.Tidy) : Flushes cfg c c' b := by
  unfold flush at h
  cases actual with
  | false => exact flushBlock_resides h hshared htidy
  | true =>
    obtain ⟨⟨res, c₁⟩, hscan, h⟩ := Outcome.bind_eq_ok.mp h
    obtain ⟨hproc, hworld, hqueue⟩ := scanPage_caches hscan
    have hsame := sameAt_of_eq (c := c) (congrArg Proc.l1Cache hproc) hworld
    have hfinds : c₁.finds cfg b = c.finds cfg b := by
      unfold finds
      rw [hproc, hworld]
    have htidy₁ : c₁.Tidy := by
      refine ⟨?_, ?_, ?_, hqueue.trans htidy.flushQueue, ?_⟩
      · rw [hproc]
        exact htidy.l1
      · rw [hworld]
        exact htidy.shared
      · rw [hworld]
        exact htidy.marked
      · obtain ⟨⟨res', tlb⟩, htlb, heq⟩ := Outcome.bind_eq_ok.mp hscan
        cases heq
        exact (htidy.tlb.scanPage htlb).2.1
    have hflush := flushBlock_resides h hshared htidy₁
    refine ⟨fun x hx hne => (hsame x).trans (hflush.other x hx hne), fun hquiet => ?_, fun hf => ?_⟩
    · exact (hsame b).trans (hflush.quiet (by rw [hfinds]; exact hquiet))
    · exact hflush.gone (by rw [hfinds]; exact hf)

end Core

/-! ### The flush of all processors -/

namespace Host

/-- All caches hold the block as before. -/
structure SameAt (host host' : Host) (x : UInt64) : Prop where
  shared : host.world.sharedCache.SameAt host'.world.sharedCache x
  l1 : ∀ (i : ℕ) (proc' : Proc), host'.procs[i]? = some proc' → ∃ proc, host.procs[i]? = some proc ∧
    proc.l1Cache.SameAt proc'.l1Cache x

variable {host host' host'' : Host} {b x : UInt64}

theorem SameAt.refl (host : Host) (x : UInt64) : host.SameAt host x :=
  ⟨.refl _ x, fun _ proc hproc => ⟨proc, hproc, .refl _ x⟩⟩

theorem SameAt.trans (h : host.SameAt host' x) (h' : host'.SameAt host'' x) :
    host.SameAt host'' x := by
  refine ⟨h.shared.trans h'.shared, fun i proc'' hproc'' => ?_⟩
  obtain ⟨proc', hproc', hsame'⟩ := h'.l1 i proc'' hproc''
  obtain ⟨proc, hproc, hsame⟩ := h.l1 i proc' hproc'
  exact ⟨proc, hproc, hsame.trans hsame'⟩

/-- The processor at index `j` after the one at `i` is put back. -/
theorem procs_put {i j : ℕ} {proc' : Proc} {c : Core}
    (h : (host.put i c).procs[j]? = some proc') :
    i = j ∧ proc' = c.proc ∨ i ≠ j ∧ host.procs[j]? = some proc' := by
  replace h : (host.procs.set i c.proc)[j]? = some proc' := h
  rcases eq_or_ne i j with rfl | hne
  · rw [List.getElem?_set_self'] at h
    obtain ⟨_, -, rfl⟩ := Option.map_eq_some_iff.mp h
    exact .inl ⟨rfl, rfl⟩
  · rw [List.getElem?_set_ne hne] at h
    exact .inr ⟨hne, h⟩

theorem sameAt_put {i : ℕ} {proc : Proc} {c : Core} (hproc : host.procs[i]? = some proc)
    (h : (host.core proc).SameAt c x) : host.SameAt (host.put i c) x := by
  refine ⟨h.shared, fun j proc' hproc' => ?_⟩
  rcases procs_put hproc' with ⟨rfl, rfl⟩ | ⟨-, hproc'⟩
  · exact ⟨proc, hproc, h.l1⟩
  · exact ⟨proc', hproc', .refl _ x⟩

/-- No cache shows the block dirty. -/
def Unseen (host : Host) (b : UInt64) : Prop :=
  host.world.sharedCache.sees b = false ∧ ∀ proc ∈ host.procs, proc.l1Cache.sees b = false

instance (host : Host) (b : UInt64) : Decidable (host.Unseen b) :=
  inferInstanceAs (Decidable (_ ∧ _))

theorem Unseen.sameAt (h : host.Unseen b) (hsame : host.SameAt host' b) : host'.Unseen b := by
  refine ⟨hsame.shared.sees.trans h.1, fun proc' hproc' => ?_⟩
  obtain ⟨j, hj⟩ := List.mem_iff_getElem?.mp hproc'
  obtain ⟨proc, hproc, hl1⟩ := hsame.l1 j proc' hj
  exact hl1.sees.trans (h.2 proc (List.mem_of_getElem? hproc))

/-- What a flush by the processors from index `i` up to `k` moves: the block stays in a first-level
cache only when it was there, and was not found. -/
structure Flushes (cfg : Config) (host host' : Host) (b : UInt64) (i k : ℕ) : Prop where
  other : ∀ x ≠ NULL, x ≠ b → host.SameAt host' x
  quiet : (cfg.useCache = true → host.Unseen b) → host.SameAt host' b
  gone : b ≠ NULL → ∀ (j : ℕ) (proc' : Proc), host'.procs[j]? = some proc' →
    Present proc'.l1Cache b → ∃ proc, host.procs[j]? = some proc ∧ Present proc.l1Cache b ∧
      (cfg.useCache = true → i ≤ j → j < k → proc.l1Cache.sees b = false ∧
        (j = i → host.world.sharedCache.sees b = false))

end Host

namespace Coherence

variable {host host' : Host} {b : UInt64} {actual r : Bool}

theorem flushFrom_resides {n i : ℕ} {stall : Bool} (hshared : cfg.sharedCache = true)
    (h : flushFrom cfg b actual n i stall host = .ok (r, host')) (htidy : host.Tidy) :
    host.Flushes cfg host' b i (i + n) := by
  induction n generalizing i stall host with
  | zero =>
    cases h
    refine ⟨fun x _ _ => .refl host' x, fun _ => .refl host' b, ?_⟩
    intro _ j proc hproc hpresent
    exact ⟨proc, hproc, hpresent, fun _ hi hj => absurd hj (by omega)⟩
  | succ n ih =>
    obtain ⟨⟨r', host₁⟩, hone, h⟩ := Outcome.bind_eq_ok.mp h
    obtain ⟨-, proc, c, hproc, hflush, rfl⟩ := Host.onProc_eq_ok.mp hone
    replace hproc : host.procs[i]? = some proc := hproc
    have hone := Core.flush_resides hflush hshared (htidy.core hproc)
    have hrest := ih h (htidy.put hproc (Core.flush_effects (w := .all) hflush fun _ => trivial))
    refine ⟨fun x hx hne => ?_, fun hquiet => ?_, ?_⟩
    · exact (Host.sameAt_put hproc (hone.other x hx hne)).trans (hrest.other x hx hne)
    · have hfinds : (cfg.useCache && (host.core proc).finds cfg b) = false := by
        cases huse : cfg.useCache with
        | false => rfl
        | true =>
          obtain ⟨hs, hl1⟩ := hquiet huse
          have hproc' := hl1 proc (List.mem_of_getElem? hproc)
          rw [Bool.true_and, Core.finds, hshared, Bool.true_and]
          exact Bool.or_eq_false_iff.mpr ⟨hproc', hs⟩
      have hsame := Host.sameAt_put hproc (hone.quiet hfinds)
      exact hsame.trans (hrest.quiet fun huse => (hquiet huse).sameAt hsame)
    · intro hb j proc' hproc' hpresent
      obtain ⟨proc₁, hproc₁, hpresent₁, hunseen⟩ := hrest.gone hb j proc' hproc' hpresent
      rcases Host.procs_put hproc₁ with ⟨rfl, rfl⟩ | ⟨hne, hproc₁⟩
      · -- The processor that just flushed kept the block, so it did not find it.
        have hfinds : (cfg.useCache && (host.core proc).finds cfg b) = false :=
          Bool.eq_false_iff.mpr fun hf => hone.gone hf hb hpresent₁
        refine ⟨proc, hproc, (hone.quiet hfinds).l1.present.mp hpresent₁, fun huse _ _ => ?_⟩
        rw [huse, Bool.true_and, Core.finds, hshared, Bool.true_and] at hfinds
        obtain ⟨hl1, hs⟩ := Bool.or_eq_false_iff.mp hfinds
        exact ⟨hl1, fun _ => hs⟩
      · refine ⟨proc₁, hproc₁, hpresent₁, fun huse hi hj => ?_⟩
        have hlater := hunseen huse (by omega) (by omega)
        exact ⟨hlater.1, fun heq => absurd heq.symm hne⟩

/-- **A flush** of all processors. -/
theorem flush_resides (hshared : cfg.sharedCache = true)
    (h : Coherence.flush cfg host b actual = .ok (r, host')) (htidy : host.Tidy) :
    host.Flushes cfg host' b 0 host.procs.length := by
  have hall := flushFrom_resides hshared h htidy
  rwa [Nat.zero_add] at hall

end Coherence

/-! ### The invariant -/

instance (c : CacheArray) (x : UInt64) : Decidable (Present c x) :=
  inferInstanceAs (Decidable (∃ e ∈ _, _))

/-- **Inclusion**: every block of a first-level cache is in the shared cache. -/
def Host.Inclusive (host : Host) : Prop :=
  ∀ proc ∈ host.procs, ∀ x ≠ NULL, Present proc.l1Cache x → Present host.world.sharedCache x

/-- A flush that finds the block dirty somewhere finds it in every first-level cache that holds it:
dirty there, or for the first processor dirty in the shared cache. -/
def FlushSafe (cfg : Config) (host : Host) (b : UInt64) : Prop :=
  cfg.useCache = true → b ≠ NULL → ¬ host.Unseen b → ∀ x ∈ host.procs.zipIdx,
    Present x.1.l1Cache b →
      x.1.l1Cache.sees b = true ∨ x.2 = 0 ∧ host.world.sharedCache.sees b = true

instance (cfg : Config) (host : Host) (b : UInt64) : Decidable (FlushSafe cfg host b) :=
  inferInstanceAs (Decidable (_ → _ → _ → ∀ x ∈ host.procs.zipIdx, _))

/-- When the callback of processor `pid` misses the shared cache, the line that leaves it is in no
first-level cache, or it is dirty and in that processor's cache alone. -/
def FillSafe (cfg : Config) (host : Host) (b : UInt64) (pid : ℕ) : Prop :=
  cfg.useCache = true → (∀ proc ∈ host.procs[pid]?, (host.core proc).hitsShared cfg b = false) →
    ∀ e ∈ SharedCache.leaving host.world.sharedCache b, e.blockAddr ≠ NULL →
      ∀ x ∈ host.procs.zipIdx, Present x.1.l1Cache e.blockAddr → x.2 = pid ∧ e.dirty = true

instance (cfg : Config) (host : Host) (b : UInt64) (pid : ℕ) :
    Decidable (FillSafe cfg host b pid) :=
  inferInstanceAs (Decidable (_ → _ → ∀ e ∈ SharedCache.leaving host.world.sharedCache b, _ → _))

/-- No event takes a block from the shared cache that stays in a first-level cache: the shared cache
still holds the blocks of the requests that wait for the cache's latency, and the first-level caches
that are not told of a fill or a flush do not hold the block that leaves. -/
def KeepsInclusion (cfg : Config) (s : System) : Event → Prop
  | .procStep i => cfg.useCache = true → ∀ proc ∈ s.coherence.host.procs[i]?,
      ∀ req ∈ proc.cacheReqQueue, req.blockAddr ≠ NULL →
        Present s.coherence.host.world.sharedCache req.blockAddr
  | .pimMctrlStep => cfg.consistencyModel = .spinLock → ∀ req ∈ s.pimMctrl.waitQueue,
      Controller.due cfg (s.pimMctrl.cycle + 1) req = true →
        FlushSafe cfg s.coherence.host req.blockAddr
  | .complete k => ∀ req ∈ s.memory[k]?, req.pim = false →
      (req.memtype = .read ∨ req.memtype = .write) → ∀ pid ∈ req.pid.head?,
        FillSafe cfg s.coherence.host req.blockAddr pid.toNat
  | .flush addr _ => FlushSafe cfg s.coherence.host addr
  | _ => True

instance (cfg : Config) (s : System) : ∀ e, Decidable (KeepsInclusion cfg s e)
  | .procStep i => inferInstanceAs (Decidable (_ → ∀ proc ∈ s.coherence.host.procs[i]?, _))
  | .pimMctrlStep => inferInstanceAs (Decidable (_ → ∀ req ∈ s.pimMctrl.waitQueue, _))
  | .complete k => inferInstanceAs (Decidable (∀ req ∈ s.memory[k]?, _))
  | .flush addr _ => inferInstanceAs (Decidable (FlushSafe cfg s.coherence.host addr))
  | .mctrlStep | .pimAdd _ | .take _ | .takePim _ | .merge _ _ | .tick => .isTrue trivial

namespace Host

variable {host host' : Host} {b : UInt64} {i : ℕ}

theorem Inclusive.of_getElem? (h : host.Inclusive) {proc : Proc}
    (hproc : host.procs[i]? = some proc) {x : UInt64} (hx : x ≠ NULL) (hpresent : Present proc.l1Cache x) :
    Present host.world.sharedCache x :=
  h proc (List.mem_of_getElem? hproc) x hx hpresent

theorem inclusive_of_getElem? (h : ∀ (i : ℕ) (proc : Proc), host.procs[i]? = some proc →
    ∀ x ≠ NULL, Present proc.l1Cache x → Present host.world.sharedCache x) : host.Inclusive := by
  intro proc hproc
  obtain ⟨i, hi⟩ := List.mem_iff_getElem?.mp hproc
  exact h i proc hi

/-- A processor that adds no block to its cache is put back. -/
theorem Inclusive.put {proc : Proc} {c : Core} (h : host.Inclusive)
    (hproc : host.procs[i]? = some proc) (hretains : Core.Retains (host.core proc) c) :
    (host.put i c).Inclusive := by
  apply inclusive_of_getElem?
  intro j proc' hproc' x hx hpresent
  apply hretains.shared x
  rcases procs_put hproc' with ⟨rfl, rfl⟩ | ⟨-, hproc'⟩
  · exact h.of_getElem? hproc hx (hretains.l1 x hpresent)
  · exact h.of_getElem? hproc' hx hpresent

/-- A processor is put back after a cycle. -/
theorem Inclusive.put_step {proc : Proc} {c : Core} (h : host.Inclusive)
    (hproc : host.procs[i]? = some proc) (hstep : (host.core proc).step cfg = .ok c)
    (hqueue : cfg.useCache = true → ∀ req ∈ proc.cacheReqQueue, req.blockAddr ≠ NULL →
      Present host.world.sharedCache req.blockAddr) : (host.put i c).Inclusive := by
  obtain ⟨hshared, hl1⟩ := Core.step_resides hstep
  apply inclusive_of_getElem?
  intro j proc' hproc' x hx hpresent
  apply hshared x
  rcases procs_put hproc' with ⟨rfl, rfl⟩ | ⟨-, hproc'⟩
  · rcases hl1 x hpresent with hpresent | ⟨huse, req, hreq, rfl⟩
    · exact h.of_getElem? hproc hx hpresent
    · exact hqueue huse req hreq hx
  · exact h.of_getElem? hproc' hx hpresent

/-- A processor is put back after a callback that missed the shared cache. -/
theorem Inclusive.put_fills {proc : Proc} {c : Core} (h : host.Inclusive)
    (hproc : host.procs[i]? = some proc) (hfills : Core.Fills (host.core proc) c b)
    (hsafe : ∀ e ∈ SharedCache.leaving host.world.sharedCache b, e.blockAddr ≠ NULL →
      ∀ x ∈ host.procs.zipIdx, Present x.1.l1Cache e.blockAddr → x.2 = i ∧ e.dirty = true) :
    (host.put i c).Inclusive := by
  have hsafe {e : CacheEntity} {j : ℕ} {proc : Proc} (he : e ∈ SharedCache.leaving _ b)
      (hx : e.blockAddr ≠ NULL) (hproc : host.procs[j]? = some proc) :=
    hsafe e he hx (proc, j) (List.mem_zipIdx_iff_getElem?.mpr hproc)
  apply inclusive_of_getElem?
  intro j proc' hproc' x hx hpresent
  rcases procs_put hproc' with ⟨rfl, rfl⟩ | ⟨hne, hproc'⟩
  · rcases hfills.l1 x hx hpresent with rfl | hpresent'
    · exact hfills.self
    · rcases hfills.shared x hx (h.of_getElem? hproc hx hpresent') with hstays | ⟨e, he, rfl, hgone⟩
      · exact hstays
      · -- The line that left was this processor's, and dirty.
        exact absurd hpresent (hgone (hsafe he hx hproc hpresent').2)
  · rcases hfills.shared x hx (h.of_getElem? hproc' hx hpresent) with hstays | ⟨e, he, rfl, -⟩
    · exact hstays
    · exact absurd (hsafe he hx hproc' hpresent).1.symm hne

/-- **A safe flush** keeps inclusion. -/
theorem Inclusive.flush {actual r : Bool} (h : host.Inclusive) (hshared : cfg.sharedCache = true)
    (hflush : Coherence.flush cfg host b actual = .ok (r, host')) (htidy : host.Tidy)
    (hsafe : FlushSafe cfg host b) : host'.Inclusive := by
  have hflushes := Coherence.flush_resides hshared hflush htidy
  apply inclusive_of_getElem?
  intro j proc' hproc' x hx hpresent
  have hkept : host.SameAt host' x → Present host'.world.sharedCache x := by
    intro hsame
    obtain ⟨proc, hproc, hl1⟩ := hsame.l1 j proc' hproc'
    exact hsame.shared.present.mpr (h.of_getElem? hproc hx (hl1.present.mp hpresent))
  by_cases hxb : x = b
  · subst hxb
    by_cases hquiet : cfg.useCache = true → host.Unseen x
    · exact hkept (hflushes.quiet hquiet)
    · -- The block was found, and a cache that kept it did not find it.
      obtain ⟨huse, hseen⟩ := Classical.not_imp.mp hquiet
      obtain ⟨proc, hproc, hpresent', hunseen⟩ := hflushes.gone hx j proc' hproc' hpresent
      obtain ⟨hlt, -⟩ := List.getElem?_eq_some_iff.mp hproc
      obtain ⟨hl1, hs⟩ := hunseen huse (Nat.zero_le j) hlt
      have hmem : (proc, j) ∈ host.procs.zipIdx := List.mem_zipIdx_iff_getElem?.mpr hproc
      rcases hsafe huse hx hseen _ hmem hpresent' with hsees | ⟨hzero, hsees⟩
      · exact absurd (hl1.symm.trans hsees) (by decide)
      · exact absurd ((hs hzero).symm.trans hsees) (by decide)
  · exact hkept (hflushes.other x hx hxb)

/-- A flush of another block, or of the same one, leaves a safe flush safe. -/
theorem flushSafe_flush {actual r : Bool} {b' : UInt64} (hsafe : FlushSafe cfg host b)
    (hsafe' : FlushSafe cfg host b') (hshared : cfg.sharedCache = true)
    (hflush : Coherence.flush cfg host b actual = .ok (r, host')) (htidy : host.Tidy) :
    FlushSafe cfg host' b' := by
  have hflushes := Coherence.flush_resides hshared hflush htidy
  rintro huse hb' hseen ⟨proc', i⟩ hmem hpresent
  have hproc' := List.mem_zipIdx_iff_getElem?.mp hmem
  have hkept : host.SameAt host' b' → proc'.l1Cache.sees b' = true ∨
      i = 0 ∧ host'.world.sharedCache.sees b' = true := by
    intro hsame
    obtain ⟨proc, hproc, hl1⟩ := hsame.l1 i proc' hproc'
    rw [hl1.sees, hsame.shared.sees]
    have hmem' : (proc, i) ∈ host.procs.zipIdx := List.mem_zipIdx_iff_getElem?.mpr hproc
    exact hsafe' huse hb' (fun h => hseen (h.sameAt hsame)) _ hmem' (hl1.present.mp hpresent)
  by_cases heq : b' = b
  · subst heq
    by_cases hunseen : host.Unseen b'
    · exact hkept (hflushes.quiet fun _ => hunseen)
    · obtain ⟨proc, hproc, hpresent', hmissed⟩ := hflushes.gone hb' i proc' hproc' hpresent
      obtain ⟨hlt, -⟩ := List.getElem?_eq_some_iff.mp hproc
      obtain ⟨hl1, hs⟩ := hmissed huse (Nat.zero_le i) hlt
      have hmem' : (proc, i) ∈ host.procs.zipIdx := List.mem_zipIdx_iff_getElem?.mpr hproc
      rcases hsafe huse hb' hunseen _ hmem' hpresent' with hsees | ⟨hzero, hsees⟩
      · exact absurd (hl1.symm.trans hsees) (by decide)
      · exact absurd ((hs hzero).symm.trans hsees) (by decide)
  · exact hkept (hflushes.other b' hb' heq)

/-- Callbacks of a block of the shared cache. -/
theorem Inclusive.hostCallbacks_hit {fill : RequestType} {callback : CallBackInfo} {pids : List Int}
    (h : host.Inclusive) (hshared : cfg.sharedCache = true)
    (hhit : cfg.useCache = true → ∀ proc, (host.core proc).hitsShared cfg callback.blockAddr = true)
    (hcall : System.hostCallbacks (·.handleCallback cfg fill callback) pids host = .ok host') :
    host'.Inclusive := by
  induction pids generalizing host with
  | nil =>
    cases hcall
    exact h
  | cons pid pids ih =>
    obtain ⟨host₁, hone, hcall⟩ := Outcome.bind_eq_ok.mp hcall
    obtain ⟨-, proc, c, hproc, hback, rfl⟩ := Host.run_eq_ok.mp hone
    obtain ⟨hretains, hhit'⟩ := Core.callback_hit hback hshared fun huse => hhit huse proc
    exact ih (h.put hproc hretains) (fun huse _ => hhit' huse) hcall

/-- **The callbacks of a completion** keep inclusion when the first one is safe: the other ones
find the block in the shared cache. -/
theorem Inclusive.hostCallbacks {fill : RequestType} {callback : CallBackInfo} {pids : List Int}
    (h : host.Inclusive) (htidy : host.Tidy) (hshared : cfg.sharedCache = true)
    (hsafe : ∀ pid ∈ pids.head?, FillSafe cfg host callback.blockAddr pid.toNat)
    (hcall : System.hostCallbacks (·.handleCallback cfg fill callback) pids host = .ok host') :
    host'.Inclusive := by
  cases pids with
  | nil =>
    cases hcall
    exact h
  | cons pid pids =>
    by_cases hhit : cfg.useCache = true →
        ∀ proc, (host.core proc).hitsShared cfg callback.blockAddr = true
    · exact h.hostCallbacks_hit hshared hhit hcall
    · obtain ⟨huse, hmiss⟩ := Classical.not_imp.mp hhit
      obtain ⟨other, hmiss⟩ := Classical.not_forall.mp hmiss
      have hmiss : ∀ proc, (host.core proc).hitsShared cfg callback.blockAddr = false :=
        fun _ => Bool.eq_false_iff.mpr hmiss
      obtain ⟨host₁, hone, hcall⟩ := Outcome.bind_eq_ok.mp hcall
      obtain ⟨-, proc, c, hproc, hback, rfl⟩ := Host.run_eq_ok.mp hone
      obtain ⟨hfills, hhit'⟩ := Core.callback_miss hback hshared huse (hmiss proc) htidy.marked
        (htidy.core hproc).l1
      have hleaves := hsafe pid (by simp) huse fun proc' _ => hmiss proc'
      exact (h.put_fills hproc hfills hleaves).hostCallbacks_hit hshared (fun _ _ => hhit') hcall

end Host

namespace System

variable {info : List (Region Obj)} {s s' : System}

theorem callBack_inclusive {req : MemRequest} {fill : RequestType} {callback : CallBackInfo}
    {onPim : Coherence → PIMProc → Outcome (Coherence × PIMProc)}
    (hone : ∀ c c' p p', onPim c p = .ok (c', p') → c'.host = c.host)
    (h : s.coherence.host.Inclusive) (htidy : s.coherence.host.Tidy)
    (hshared : cfg.sharedCache = true)
    (hsafe : req.pim = false → ∀ pid ∈ req.pid.head?,
      FillSafe cfg s.coherence.host callback.blockAddr pid.toNat)
    (hcall : s.callBack req (·.handleCallback cfg fill callback) onPim = .ok s') :
    s'.coherence.host.Inclusive := by
  unfold callBack at hcall
  by_cases hpim : req.pim = true
  · rw [if_pos hpim] at hcall
    simp only [Outcome.bind_eq_ok] at hcall
    obtain ⟨_, -, ⟨coherence, units⟩, hcall, heq⟩ := hcall
    cases heq
    show coherence.host.Inclusive
    rw [show coherence.host = s.coherence.host from pimCallbacks_host hone hcall]
    exact h
  · rw [if_neg hpim] at hcall
    simp only [Outcome.bind_eq_ok] at hcall
    obtain ⟨_, -, host, hcall, heq⟩ := hcall
    cases heq
    exact h.hostCallbacks htidy hshared (hsafe (Bool.eq_false_iff.mpr hpim)) hcall

/-- A completion. -/
theorem finish_inclusive {req : MemRequest} (h : s.coherence.host.Inclusive)
    (htidy : s.coherence.host.Tidy) (hshared : cfg.sharedCache = true)
    (hsafe : req.pim = false → (req.memtype = .read ∨ req.memtype = .write) →
      ∀ pid ∈ req.pid.head?, FillSafe cfg s.coherence.host req.blockAddr pid.toNat)
    (hfinish : s.finish cfg info req = .ok s') : s'.coherence.host.Inclusive := by
  unfold finish at hfinish
  dsimp only at hfinish
  cases hmemtype : req.memtype <;> rw [hmemtype] at hfinish
  case read =>
    exact callBack_inclusive (fun _ _ _ _ => PIMProc.readCallback_host) h htidy hshared
      (fun hpim => hsafe hpim (.inl hmemtype)) hfinish
  case write =>
    obtain ⟨hprocs, hworld⟩ := written_eq s req
    have h' : (s.written req).coherence.host.Inclusive := by
      unfold Host.Inclusive
      rw [hprocs, hworld]
      exact h
    refine callBack_inclusive (fun _ _ _ _ => PIMProc.writeCallback_host) h' (htidy.written req)
      hshared ?_ hfinish
    intro hpim pid hpid
    have hfill := hsafe hpim (.inr hmemtype) pid hpid
    unfold FillSafe Host.core at hfill ⊢
    rw [hprocs, hworld]
    exact hfill
  case flush =>
    cases hfinish
    obtain ⟨hprocs, hworld⟩ := written_eq s req
    intro proc hproc
    show ∀ x ≠ NULL, _ → Present (s.written req).coherence.host.world.sharedCache x
    rw [hworld]
    exact h proc (hprocs ▸ hproc)
  case load => cases hfinish
  case store => cases hfinish
  case returnData =>
    cases hfinish
    exact h
  case null =>
    cases hfinish
    exact h

/-- A cycle of the memory side's controller whose flushes are safe. -/
theorem pimMctrlStep_inclusive {c c' : Coherence} {pimMctrl pimMctrl' : Controller}
    (h : c.host.Inclusive) (htidy : c.host.Tidy) (hshared : cfg.sharedCache = true)
    (hsafe : cfg.consistencyModel = .spinLock → ∀ req ∈ pimMctrl.waitQueue,
      Controller.due cfg (pimMctrl.cycle + 1) req = true → FlushSafe cfg c.host req.blockAddr)
    (hstep : PIMMctrl.step cfg info c pimMctrl = .ok (c', pimMctrl')) : c'.host.Inclusive := by
  obtain ⟨⟨⟨c₁, queues⟩, waiting⟩, hscan, heq⟩ := Outcome.bind_eq_ok.mp hstep
  cases heq
  obtain ⟨vs, hvs, -⟩ := Sweep.scan_eq_ok.mp hscan
  have hrule := Sweep.visits_rest_rule
    (P := fun (s : Coherence × List (List MemRequest)) rest => s.1.host.Inclusive ∧ s.1.host.Tidy ∧
      (cfg.consistencyModel = .spinLock → ∀ req ∈ rest,
        Controller.due cfg (pimMctrl.cycle + 1) req = true → FlushSafe cfg s.1.host req.blockAddr))
    ?_ ⟨h, htidy, hsafe⟩ hvs
  · exact hrule.1
  rintro ⟨c₂, queues₂⟩ req reqs ⟨c₃, queues₃⟩ fate ⟨h, htidy, hsafe⟩ hvisit
  have hrest : cfg.consistencyModel = .spinLock → ∀ r ∈ reqs,
      Controller.due cfg (pimMctrl.cycle + 1) r = true → FlushSafe cfg c₂.host r.blockAddr :=
    fun hmodel r hr => hsafe hmodel r (List.mem_cons_of_mem _ hr)
  by_cases hmodel : cfg.consistencyModel = .spinLock
  · rcases PIMMctrl.visit_cases hmodel hvisit with ⟨-, heq, -⟩ |
      ⟨hdue, lock, lock', flushed, host, -, -, hflush, hcase⟩
    · cases heq
      exact ⟨h, htidy, hrest⟩
    · have hfirst := hsafe hmodel req List.mem_cons_self hdue
      have hhost : c₃.host = host := by
        rcases hcase with ⟨-, hc, -⟩ | ⟨-, -, -, lock'', -, hc⟩ <;> cases hc <;> rfl
      have htidy' : host.Tidy :=
        (Coherence.flush_works (W := fun _ => .all) (fun _ _ _ _ _ => trivial)
          hflush).moves.invariant (fun _ _ hI hmove => hI.move hmove) htidy
      show c₃.host.Inclusive ∧ c₃.host.Tidy ∧ _
      rw [hhost]
      refine ⟨h.flush hshared hflush htidy hfirst, htidy', fun _ r hr hr' => ?_⟩
      exact Host.flushSafe_flush hfirst (hrest hmodel r hr hr') hshared hflush htidy
  · have heq : c₃ = c₂ := by
      unfold PIMMctrl.visit at hvisit
      dsimp only at hvisit
      split_ifs at hvisit <;> cases hvisit <;> rfl
    subst heq
    exact ⟨h, htidy, hrest⟩

/-- **An event** that keeps to the condition keeps inclusion. -/
theorem step_inclusive {e : Event} (h : s.coherence.host.Inclusive)
    (htidy : s.coherence.host.Tidy) (hshared : cfg.sharedCache = true)
    (hkeeps : KeepsInclusion cfg s e) (hstep : System.step cfg info s e = .ok s') :
    s'.coherence.host.Inclusive := by
  cases e with
  | procStep i =>
    obtain ⟨host, hrun, heq⟩ := Outcome.bind_eq_ok.mp hstep
    cases heq
    obtain ⟨-, proc, c, hproc, hcycle, rfl⟩ := Host.run_eq_ok.mp hrun
    exact h.put_step hproc hcycle fun huse => hkeeps huse proc hproc
  | mctrlStep =>
    obtain ⟨mctrl, -, heq⟩ := Outcome.bind_eq_ok.mp hstep
    cases heq
    exact h
  | pimMctrlStep =>
    obtain ⟨⟨coherence, pimMctrl⟩, hcycle, heq⟩ := Outcome.bind_eq_ok.mp hstep
    cases heq
    exact pimMctrlStep_inclusive h htidy hshared hkeeps hcycle
  | pimAdd req =>
    cases hstep
    exact h
  | take pid =>
    obtain ⟨⟨req, mctrl⟩, -, heq⟩ := Outcome.bind_eq_ok.mp hstep
    cases heq
    exact h
  | takePim pid =>
    obtain ⟨⟨req, pimMctrl⟩, -, heq⟩ := Outcome.bind_eq_ok.mp hstep
    cases heq
    exact h
  | merge i j =>
    cases hstep
    unfold merge
    split
    · split_ifs <;> exact h
    · exact h
  -- The request has left the memory when its callback runs; the condition speaks of it while it is
  -- there.
  | complete k =>
    simp only [System.step, complete] at hstep
    split at hstep
    · cases hstep
      exact h
    · next req hreq =>
      exact finish_inclusive (s := { s with memory := s.memory.eraseIdx k }) h htidy hshared
        (hkeeps req hreq) hstep
  | flush addr actual =>
    obtain ⟨⟨stall, host⟩, hflush, heq⟩ := Outcome.bind_eq_ok.mp hstep
    cases heq
    exact h.flush hshared hflush htidy hkeeps
  | tick =>
    cases hstep
    exact h

end System

/-! ### Runs -/

theorem inclusive_init {P : Platform Obj} {s : System} (h : System.init cfg P = .ok s) :
    s.coherence.host.Inclusive := by
  rw [System.host_of_init h]
  intro proc hproc x hx hpresent
  obtain ⟨i, hi, rfl⟩ := List.mem_mapIdx.mp hproc
  exact absurd hpresent (not_present_create hx)

/-- **Inclusion in every run** whose events keep to the condition: every block of a first-level
cache is in the shared cache, and a block that leaves that one is in no first-level cache. -/
theorem inclusion_kept (P : Platform Obj) (hshared : cfg.sharedCache = true) {s₀ s : System}
    {es : List Event} (hinit : System.init cfg P = .ok s₀)
    (hkeeps : Along (System.step cfg P.memory) (KeepsInclusion cfg) s₀ es)
    (h : exec (System.step cfg P.memory) s₀ es = .ok s) :
    s.coherence.host.Inclusive ∧ ∀ e s', KeepsInclusion cfg s e →
      System.step cfg P.memory s e = .ok s' → ∀ x ≠ NULL,
        Present s.coherence.host.world.sharedCache x →
          ¬ Present s'.coherence.host.world.sharedCache x →
            ∀ proc ∈ s'.coherence.host.procs, ¬ Present proc.l1Cache x := by
  have hfirst : s₀.coherence.host.Tidy ∧ s₀.coherence.host.Paired := by
    rw [System.host_of_init hinit]
    exact ⟨Host.tidy_host P, Host.paired_host P⟩
  have hall := exec_along (I := fun s => s.coherence.host.Inclusive ∧
      s.coherence.host.Tidy ∧ s.coherence.host.Paired)
    (fun s e s' hI hgood hstep => ⟨System.step_inclusive hI.1 hI.2.1 hshared hgood hstep,
      Host.tidy_step hI.2 hstep⟩) ⟨inclusive_init hinit, hfirst⟩ hkeeps h
  refine ⟨hall.1, fun e s' hgood hstep x hx _ hleft proc hproc hpresent => ?_⟩
  have hnext := System.step_inclusive hall.1 hall.2.1 hshared hgood hstep
  exact hleft (hnext proc hproc x hx hpresent)

/-- One processor, and a shared cache of one line. -/
def oneLine (streams : List (List Input)) : Platform Unit :=
  { smallPlatform streams with sharedAssoc := 1 }

/-- The first state over one memory object, with the host of the platform. -/
def firstState (P : Platform Unit) : System where
  coherence := {
    host := P.host {}
    spinLock := some SpinLock.freeLock
    consistency := .spinLock }
  pimMctrl := Controller.init 1
  pimUnits := P.units

/-- The processor accesses block 64, and then reads block 128. -/
def thenRead (type : InstructionType) : List (List Input) :=
  [[.instruction { type := type, address := 64, isMem := true },
    .instruction { type := .read, address := 128, isMem := true }]]

/-- Both accesses are issued, forwarded and completed. -/
def twoBlocks : List Event :=
  [.procStep 0, .procStep 0, .mctrlStep, .take 0, .complete 0,
    .procStep 0, .mctrlStep, .take 0, .complete 0]

/-- A written block leaves the shared cache and the processor's cache with it. -/
theorem inclusion_kept_dirty : ∃ s, exec (System.step {} oneObject)
    (firstState (oneLine (thenRead .write))) twoBlocks = .ok s ∧
      ¬ Present s.coherence.host.world.sharedCache 64 ∧ s.coherence.host.Inclusive := by
  obtain ⟨s, hs, hleft⟩ := Outcome.exists_of_map_eq_ok
    (f := fun s : System => decide (Present s.coherence.host.world.sharedCache 64))
    (x := exec (System.step {} oneObject) (firstState (oneLine (thenRead .write))) twoBlocks)
    (b := false) (by decide +kernel)
  have hkeeps : Along (System.step {} oneObject) (KeepsInclusion {})
      (firstState (oneLine (thenRead .write))) twoBlocks := by decide +kernel
  exact ⟨s, hs, of_decide_eq_false hleft,
    (inclusion_kept (oneLine (thenRead .write)) rfl (init_oneObject rfl rfl rfl) hkeeps hs).1⟩

/-- A block that was only read leaves the shared cache and stays in the processor's cache. -/
theorem not_inclusive_clean : ¬ ∀ s, exec (System.step {} oneObject)
    (firstState (oneLine (thenRead .read))) twoBlocks = .ok s → s.coherence.host.Inclusive := by
  intro h
  obtain ⟨s, hs, hstate⟩ := Outcome.exists_of_map_eq_ok
    (f := fun s : System => (decide (Present s.coherence.host.world.sharedCache 64),
      s.coherence.host.procs.any fun proc => decide (Present proc.l1Cache 64)))
    (x := exec (System.step {} oneObject) (firstState (oneLine (thenRead .read))) twoBlocks)
    (b := (false, true)) (by decide +kernel)
  obtain ⟨hshared, hl1⟩ := Prod.mk.inj hstate
  obtain ⟨proc, hproc, hpresent⟩ := List.any_eq_true.mp hl1
  have hincluded := h s hs proc hproc 64 (by decide) (of_decide_eq_true hpresent)
  exact of_decide_eq_false hshared hincluded

end PIMSim
