import PIMSim.PIM.Flush

/-!
# When a flush returns

A flush looks up a set in every cache, and translates the block where a processor finds it dirty. It
takes the dirty lines of its block out of the caches and adds none, so what one flush needs, another
one before it does not change.

## Main definitions

* `Core.Flushable`, `Host.Flushable`: the caches have sets, and a dirty block can be translated
* `Core.Fades`, `Host.Fades`: the caches keep their sets, and show no block dirty that they did not

## Main results

* `Coherence.flush_fades`: what a flush leaves of the caches
* `Coherence.flush_returns_iff`: when a flush returns
* `Host.Fades.flushable_iff`, `Host.Fades.seesDirty`: what a later flush needs and answers
-/

namespace PIMSim

open CSharp CacheArray

variable {cfg : Config}

/-! ### One cache -/

namespace CacheArray

variable {c c' : CacheArray} {b : UInt64} {r : Bool}

theorem ifdirty_returns (h : c.maxSet ≠ 0) (b : UInt64) : ∃ r c', c.ifdirty b = .ok (r, c') := by
  simp only [ifdirty, index, if_neg h, Outcome.ok_bind]
  cases (c.lines (b.toNat % c.maxSet)).find? (·.blockAddr = b) <;> exact ⟨_, _, rfl⟩

theorem remove_returns (h : c.maxSet ≠ 0) (b : UInt64) : ∃ r c', c.remove b = .ok (r, c') := by
  simp only [remove, index, if_neg h, Outcome.ok_bind]
  split_ifs <;> exact ⟨_, _, rfl⟩

theorem maxSet_ne_of_ifdirty (h : c.ifdirty b = .ok (r, c')) : c.maxSet ≠ 0 := by
  obtain ⟨i, hi, -⟩ := Outcome.bind_eq_ok.mp h
  exact fun hzero => nomatch (if_pos hzero).symm.trans hi

theorem maxSet_ne_of_remove (h : c.remove b = .ok (r, c')) : c.maxSet ≠ 0 := by
  obtain ⟨i, hi, -⟩ := Outcome.bind_eq_ok.mp h
  exact fun hzero => nomatch (if_pos hzero).symm.trans hi

/-- A removal shows no block dirty that was not. -/
theorem sees_of_remove (hdis : Distinct c) (h : c.remove b = .ok (r, c')) {x : UInt64}
    (hx : c'.sees x = true) : c.sees x = true := by
  by_cases hxb : x = b
  · subst hxb
    rw [not_sees_of_remove hdis h] at hx
    cases hx
  · simp only [remove, Outcome.bind_eq_ok] at h
    obtain ⟨i, hi, h⟩ := h
    have hi : i = b.toNat % c.maxSet := index_eq_ok hi
    subst hi
    split_ifs at h
    · cases h
      unfold sees at hx ⊢
      rw [setWays_maxSet, setWays_lines] at hx
      split_ifs at hx with hset
      · rw [hset]
        have hother : ∀ e : CacheEntity, decide (e.blockAddr = b) = true →
            decide (e.blockAddr = x) = false := by
          intro e he
          rw [decide_eq_true_eq] at he
          simpa [he] using fun h => hxb h.symm
        -- The blank line is clean, so a dirty line that is found was there.
        rcases FirstMatch.find?_update_or (f := fun e : CacheEntity =>
            { e with blockAddr := NULL, dirty := false, pid := 0, timestamp := 0 })
          hother with hfind | ⟨e, -, -, hfind⟩
        · rw [hfind] at hx
          exact hx
        · rw [hfind] at hx
          cases hx
      · exact hx
    · cases h
      exact hx

end CacheArray

/-! ### One processor -/

namespace Core

variable {c c' c'' : Core} {b : UInt64} {r : Bool}

/-- The caches have sets, and the block can be translated when the processor finds it dirty. -/
def Flushable (cfg : Config) (c : Core) (b : UInt64) : Prop :=
  cfg.useCache = true → c.proc.l1Cache.maxSet ≠ 0 ∧
    (cfg.sharedCache = true → c.world.sharedCache.maxSet ≠ 0) ∧
    (c.finds cfg b = true → c.world.tlb.Translates)

instance (c : Core) (b : UInt64) : Decidable (c.Flushable cfg b) := by
  unfold Flushable PageConverter.Translates
  infer_instance

/-- The caches keep their sets and show no block dirty that they did not. Without a translation they
show the same. -/
structure Fades (c c' : Core) : Prop where
  l1Sets : c'.proc.l1Cache.maxSet = c.proc.l1Cache.maxSet
  sharedSets : c'.world.sharedCache.maxSet = c.world.sharedCache.maxSet
  tlb : c'.world.tlb.Translates ↔ c.world.tlb.Translates
  l1 : ∀ x, c'.proc.l1Cache.sees x = true → c.proc.l1Cache.sees x = true
  shared : ∀ x, c'.world.sharedCache.sees x = true → c.world.sharedCache.sees x = true
  kept : c.world.tlb.Translates ∨ c'.proc.l1Cache.sees = c.proc.l1Cache.sees ∧
    c'.world.sharedCache.sees = c.world.sharedCache.sees

theorem Fades.refl : Fades c c := ⟨rfl, rfl, .rfl, fun _ => id, fun _ => id, .inr ⟨rfl, rfl⟩⟩

theorem Fades.trans (h : Fades c c') (h' : Fades c' c'') : Fades c c'' := by
  refine ⟨h'.l1Sets.trans h.l1Sets, h'.sharedSets.trans h.sharedSets, h'.tlb.trans h.tlb,
    fun x hx => h.l1 x (h'.l1 x hx), fun x hx => h.shared x (h'.shared x hx), ?_⟩
  rcases h.kept with ht | ⟨hl1, hshared⟩
  · exact .inl ht
  · exact h'.kept.imp h.tlb.mp fun hkept => ⟨hkept.1.trans hl1, hkept.2.trans hshared⟩

/-- What a flush needs does not change. -/
theorem Fades.flushable_iff (h : Fades c c') : c'.Flushable cfg b ↔ c.Flushable cfg b := by
  unfold Flushable
  rw [h.l1Sets, h.sharedSets, h.tlb]
  rcases h.kept with ht | ⟨hl1, hshared⟩
  · simp only [ht, implies_true]
  · unfold Core.finds
    rw [hl1, hshared]

/-- What the first two tests need, and that they leave the caches as they are. -/
theorem anyDirty_fades (h : c.anyDirty cfg b = .ok (r, c')) :
    Fades c c' ∧ c.proc.l1Cache.maxSet ≠ 0 ∧ (c.proc.l1Cache.sees b = false →
      cfg.sharedCache = true → c.world.sharedCache.maxSet ≠ 0) := by
  obtain ⟨⟨dirty, l1⟩, hdirty, h⟩ := Outcome.bind_eq_ok.mp h
  obtain ⟨rfl, hlines, hmax⟩ := ifdirty_eq_ok hdirty
  have hfirst : Fades c (c.withL1 l1) :=
    ⟨hmax, rfl, .rfl, fun x hx => (sees_congr hlines hmax x).symm.trans hx, fun _ => id,
      .inr ⟨funext (sees_congr hlines hmax), rfl⟩⟩
  dsimp only at h
  -- the first-level cache has the block dirty: the shared cache is not asked
  split_ifs at h with hl1 hshared
  · cases h
    exact ⟨hfirst, maxSet_ne_of_ifdirty hdirty, fun hno => absurd hl1 (by simp [hno])⟩
  · -- the shared cache is asked, and changes as little
    obtain ⟨⟨dirty', shared⟩, hdirty', heq⟩ := Outcome.bind_eq_ok.mp h
    cases heq
    obtain ⟨-, hlines', hmax'⟩ := ifdirty_eq_ok hdirty'
    refine ⟨hfirst.trans ⟨rfl, hmax', .rfl, fun _ => id, fun x hx => ?_, .inr ⟨rfl, ?_⟩⟩,
      maxSet_ne_of_ifdirty hdirty, fun _ _ => maxSet_ne_of_ifdirty hdirty'⟩
    · exact (sees_congr hlines' hmax' x).symm.trans hx
    · exact funext (sees_congr hlines' hmax')
  · cases h
    exact ⟨hfirst, maxSet_ne_of_ifdirty hdirty, fun _ hs => absurd hs hshared⟩

theorem scanPage_fades {addr res : UInt64} (h : c.scanPage addr = .ok (res, c'))
    (hsound : c.world.tlb.Sound) : Fades c c' ∧ c.world.tlb.Translates := by
  obtain ⟨⟨res', tlb⟩, htlb, heq⟩ := Outcome.bind_eq_ok.mp h
  cases heq
  obtain ⟨htranslates, -, hiff⟩ := hsound.scanPage htlb
  exact ⟨⟨rfl, rfl, hiff, fun _ => id, fun _ => id, .inr ⟨rfl, rfl⟩⟩, htranslates⟩

theorem queueFlush_fades (item : ProcRequest) : Fades c (c.queueFlush cfg item) := by
  unfold queueFlush
  split_ifs
  · exact ⟨rfl, rfl, .rfl, fun _ => id, fun _ => id, .inr ⟨rfl, rfl⟩⟩
  · rcases addToMctrl_cases cfg c item with hadd | hadd <;> rw [hadd] <;>
      exact ⟨rfl, rfl, .rfl, fun _ => id, fun _ => id, .inr ⟨rfl, rfl⟩⟩

/-- Behind a translation the block may leave the first-level cache. -/
theorem removeL1_fades {l1 : Cache} (htranslates : c.world.tlb.Translates)
    (hdis : Distinct c.proc.l1Cache) (h : CacheArray.remove c.proc.l1Cache b = .ok (r, l1)) :
    Fades c (c.withL1 l1) :=
  ⟨(remove_spec h).1, rfl, .rfl, fun _ => sees_of_remove hdis h, fun _ => id, .inl htranslates⟩

/-- Behind a translation the block may leave the shared cache. -/
theorem removeShared_fades {shared : SharedCache} (htranslates : c.world.tlb.Translates)
    (hdis : Distinct c.world.sharedCache)
    (h : CacheArray.remove c.world.sharedCache b = .ok (r, shared)) :
    Fades c (c.withShared shared) :=
  ⟨rfl, (remove_spec h).1, .rfl, fun _ => id, fun _ => sees_of_remove hdis h, .inl htranslates⟩

/-- **What a flush leaves of the caches**, and what it needed. -/
theorem flush_fades (h : c.flush cfg b false = .ok (r, c')) (htidy : c.Tidy) :
    Fades c c' ∧ c.Flushable cfg b := by
  replace h : c.flushBlock cfg b = .ok (r, c') := h
  unfold flushBlock at h
  by_cases huse : cfg.useCache = true
  · rw [if_neg (by simp [huse]), if_neg (by simp [htidy.flushQueue])] at h
    obtain ⟨⟨dirty, c₁⟩, hdirty, h⟩ := Outcome.bind_eq_ok.mp h
    obtain ⟨hanswer, -⟩ := anyDirty_spec hdirty
    obtain ⟨hfirst, hl1Sets, hsharedSets⟩ := anyDirty_fades hdirty
    cases dirty with
    | false =>
      -- clean: both caches were asked, and no translation is needed
      cases h
      have hclean := hanswer.symm
      unfold Core.finds at hclean
      refine ⟨hfirst, fun _ => ⟨hl1Sets, ?_, fun hf => absurd hf (by simp [← hanswer])⟩⟩
      exact hsharedSets (Bool.or_eq_false_iff.mp hclean).1
    | true =>
      -- dirty: translated, queued, and removed from the caches one after the other
      simp only [if_true, Outcome.bind_eq_ok] at h
      obtain ⟨⟨actualAddr, c₂⟩, hscan, ⟨r₁, l1⟩, hl1, h⟩ := h
      have htidy₁ : c₁.Tidy := (anyDirty_effects (w := .all) hdirty).tidy htidy
      obtain ⟨hsecond, htranslates₁⟩ := scanPage_fades hscan htidy₁.tlb
      have htidy₂ : c₂.Tidy := (scanPage_effects hscan : Effects cfg .all c₁ c₂).tidy htidy₁
      let c₃ := c₂.queueFlush cfg (c₂.flushItem b actualAddr)
      have htidy₃ : c₃.Tidy := (Effect.queueFlush.effects : Effects cfg .all c₂ c₃).tidy htidy₂
      have hthird : Fades c c₃ := hfirst.trans (hsecond.trans (queueFlush_fades _))
      have htranslates : c.world.tlb.Translates := hfirst.tlb.mp htranslates₁
      have htranslates₃ : c₃.world.tlb.Translates := hthird.tlb.mpr htranslates
      have hfourth : Fades c (c₃.withL1 l1) :=
        hthird.trans (removeL1_fades htranslates₃ htidy₃.l1 hl1)
      by_cases hshared : cfg.sharedCache = true
      · rw [if_pos hshared] at h
        obtain ⟨⟨r₂, shared⟩, hremove, heq⟩ := Outcome.bind_eq_ok.mp h
        cases heq
        refine ⟨hfourth.trans (removeShared_fades htranslates₃ htidy₃.shared hremove),
          fun _ => ⟨hl1Sets, fun _ => ?_, fun _ => htranslates⟩⟩
        rw [← hfourth.sharedSets]
        exact maxSet_ne_of_remove hremove
      · rw [if_neg hshared] at h
        cases h
        exact ⟨hfourth, fun _ => ⟨hl1Sets, fun hs => absurd hs hshared, fun _ => htranslates⟩⟩
  · -- without caches there is nothing to flush
    rw [if_pos (by simpa using huse)] at h
    cases h
    exact ⟨.refl, fun h => absurd h huse⟩

theorem anyDirty_returns (hl1 : c.proc.l1Cache.maxSet ≠ 0)
    (hshared : cfg.sharedCache = true → c.world.sharedCache.maxSet ≠ 0) (b : UInt64) :
    ∃ r c', c.anyDirty cfg b = .ok (r, c') := by
  obtain ⟨dirty, l1, hdirty⟩ := ifdirty_returns hl1 b
  unfold anyDirty
  rw [hdirty, Outcome.ok_bind]
  dsimp only
  split_ifs with hsees hs
  · exact ⟨_, _, rfl⟩
  · obtain ⟨dirty', shared, hdirty'⟩ := ifdirty_returns (hshared hs) b
    replace hdirty' : ifdirty (c.withL1 l1).world.sharedCache b = .ok (dirty', shared) := hdirty'
    rw [hdirty']
    exact ⟨_, _, rfl⟩
  · exact ⟨_, _, rfl⟩

/-- A flush that finds what it needs returns. -/
theorem flush_returns (h : c.Flushable cfg b) (hqueue : c.world.flushQueue = []) :
    ∃ r c', c.flush cfg b false = .ok (r, c') := by
  show ∃ r c', c.flushBlock cfg b = .ok (r, c')
  unfold flushBlock
  by_cases huse : cfg.useCache = true
  · obtain ⟨hl1, hshared, htranslates⟩ := h huse
    obtain ⟨dirty, c₁, hdirty⟩ := anyDirty_returns hl1 hshared b
    obtain ⟨hanswer, -⟩ := anyDirty_spec hdirty
    obtain ⟨hfirst, -⟩ := anyDirty_fades hdirty
    rw [if_neg (by simp [huse]), if_neg (by simp [hqueue]), hdirty, Outcome.ok_bind]
    cases dirty with
    | false => exact ⟨_, _, rfl⟩
    | true =>
      -- the translation and the removals find what they need, since the caches keep their sets
      have htlb : c₁.world.tlb.Translates := hfirst.tlb.mpr (htranslates hanswer.symm)
      obtain ⟨res, tlb, hscan⟩ := PageConverter.scanPage_returns htlb b
      let c₂ : Core := { c₁ with world := { c₁.world with tlb := tlb } }
      have hscan' : c₁.scanPage b = .ok (res, c₂) := by
        unfold scanPage
        rw [hscan]
        rfl
      let c₃ := c₂.queueFlush cfg (c₂.flushItem b res)
      have hqueued : Fades c₂ c₃ := queueFlush_fades _
      obtain ⟨r₁, l1, hremove⟩ : ∃ r l1, CacheArray.remove c₃.proc.l1Cache b = .ok (r, l1) := by
        apply remove_returns
        rw [hqueued.l1Sets]
        exact hfirst.l1Sets ▸ hl1
      simp only [if_true, hscan', Outcome.ok_bind]
      rw [hremove, Outcome.ok_bind]
      dsimp only
      split_ifs with hs
      · obtain ⟨r₂, shared, hremove'⟩ :
            ∃ r shared, CacheArray.remove (c₃.withL1 l1).world.sharedCache b = .ok (r, shared) := by
          apply remove_returns
          show c₃.world.sharedCache.maxSet ≠ 0
          rw [hqueued.sharedSets]
          exact hfirst.sharedSets ▸ hshared hs
        rw [hremove']
        exact ⟨_, _, rfl⟩
      · exact ⟨_, _, rfl⟩
  · rw [if_pos (by simpa using huse)]
    exact ⟨true, c, rfl⟩

end Core

/-! ### All processors -/

namespace Host

variable {host host' host'' : Host} {b : UInt64} {i : ℕ}

/-- The flush of the block returns for every processor. -/
def Flushable (cfg : Config) (host : Host) (b : UInt64) : Prop :=
  ∀ proc ∈ host.procs, (host.core proc).Flushable cfg b

instance (host : Host) (b : UInt64) : Decidable (host.Flushable cfg b) := by
  unfold Flushable
  infer_instance

/-- The caches of every processor keep their sets, and show no block dirty that they did not. -/
structure Fades (host host' : Host) : Prop where
  length : host'.procs.length = host.procs.length
  core : ∀ (i : ℕ) (proc proc' : Proc), host.procs[i]? = some proc → host'.procs[i]? = some proc' →
    Core.Fades (host.core proc) (host'.core proc')

theorem Fades.refl : Fades host host := by
  refine ⟨rfl, fun i proc proc' h h' => ?_⟩
  obtain rfl := Option.some.inj (h.symm.trans h')
  exact .refl

theorem Fades.getElem? (h : Fades host host') {proc' : Proc} (hproc : host'.procs[i]? = some proc') :
    ∃ proc, host.procs[i]? = some proc := by
  have hlt := (List.getElem?_eq_some_iff.mp hproc).1
  exact ⟨_, List.getElem?_eq_getElem (h.length ▸ hlt)⟩

theorem Fades.trans (h : Fades host host') (h' : Fades host' host'') : Fades host host'' := by
  refine ⟨h'.length.trans h.length, fun i proc proc'' hproc hproc'' => ?_⟩
  obtain ⟨proc', hproc'⟩ := h'.getElem? hproc''
  exact (h.core i proc proc' hproc hproc').trans (h'.core i proc' proc'' hproc' hproc'')

/-- A processor is put back behind its flush. -/
theorem fades_put {proc : Proc} {c : Core} (hproc : host.procs[i]? = some proc)
    (hfades : Core.Fades (host.core proc) c) : Fades host (host.put i c) := by
  refine ⟨List.length_set, fun j p p' hp hp' => ?_⟩
  replace hp' : (host.procs.set i c.proc)[j]? = some p' := hp'
  by_cases hij : i = j
  · subst hij
    obtain rfl : proc = p := Option.some.inj (hproc.symm.trans hp)
    rw [List.getElem?_set_self (List.getElem?_eq_some_iff.mp hproc).1] at hp'
    cases hp'
    exact ⟨hfades.l1Sets, hfades.sharedSets, hfades.tlb, hfades.l1, hfades.shared, hfades.kept⟩
  · -- another processor: its own cache stays, and the shared one fades
    rw [List.getElem?_set_ne hij, hp] at hp'
    cases hp'
    exact ⟨rfl, hfades.sharedSets, hfades.tlb, fun _ => id, hfades.shared,
      hfades.kept.imp_right fun hkept => ⟨rfl, hkept.2⟩⟩

theorem Fades.flushable_iff (h : Fades host host') : host'.Flushable cfg b ↔ host.Flushable cfg b := by
  constructor
  · -- the processors of both hosts stand at the same places
    intro hall proc hproc
    obtain ⟨i, hi⟩ := List.getElem?_of_mem hproc
    have hlt := (List.getElem?_eq_some_iff.mp hi).1
    have hi' : host'.procs[i]? = some (host'.procs.get ⟨i, h.length ▸ hlt⟩) :=
      List.getElem?_eq_getElem _
    exact (h.core i _ _ hi hi').flushable_iff.mp (hall _ (List.mem_of_getElem? hi'))
  · intro hall proc' hproc'
    obtain ⟨i, hi'⟩ := List.getElem?_of_mem hproc'
    obtain ⟨proc, hi⟩ := h.getElem? hi'
    exact (h.core i _ _ hi hi').flushable_iff.mpr (hall _ (List.mem_of_getElem? hi))

/-- A block that the last processor sees dirty was seen dirty before. -/
theorem Fades.seesDirty (h : Fades host host') (hsees : SeesDirty cfg host' b) :
    SeesDirty cfg host b := by
  obtain ⟨huse, proc', hlast, hsees⟩ := hsees
  rw [List.getLast?_eq_getElem?, h.length] at hlast
  obtain ⟨proc, hproc⟩ := h.getElem? hlast
  have hfades := h.core _ _ _ hproc hlast
  refine ⟨huse, proc, List.getLast?_eq_getElem?.trans hproc, ?_⟩
  rcases hsees with hl1 | ⟨hshared, hone, hsees⟩
  · exact .inl (hfades.l1 b hl1)
  · exact .inr ⟨hshared, h.length.symm.trans hone, hfades.shared b hsees⟩

end Host

namespace Coherence

variable {host host' : Host} {b : UInt64} {r : Bool}

/-- **What a flush leaves of the caches**, and what it needed. -/
theorem flush_fades (h : Coherence.flush cfg host b false = .ok (r, host')) (htidy : host.Tidy) :
    Host.Fades host host' ∧ host'.Tidy ∧ host.Flushable cfg b := by
  have hfrom : ∀ (n i : ℕ) (stall : Bool) (host : Host), host.Tidy → host.procs.length = i + n →
      flushFrom cfg b false n i stall host = .ok (r, host') →
        Host.Fades host host' ∧ host'.Tidy ∧ ∀ (j : ℕ) (proc : Proc), i ≤ j →
          host.procs[j]? = some proc → (host.core proc).Flushable cfg b := by
    intro n
    -- Induction on the processors left: those from `i` on are asked in the hosts that the ones
    -- before leave.
    induction n with
    | zero =>
      intro i stall host htidy hlength h
      cases h
      refine ⟨.refl, htidy, fun j proc hij hproc => ?_⟩
      have hlt := (List.getElem?_eq_some_iff.mp hproc).1
      omega
    | succ n ih =>
      intro i stall host htidy hlength h
      obtain ⟨⟨stall', host₁⟩, hone, h⟩ := Outcome.bind_eq_ok.mp h
      obtain ⟨-, proc, c, hproc, hflush, rfl⟩ := Host.onProc_eq_ok.mp hone
      replace hproc : host.procs[i]? = some proc := hproc
      have heffects : Core.Effects cfg .all (host.core proc) c :=
        Core.flush_effects hflush fun _ => trivial
      obtain ⟨hfades, hflushable⟩ := Core.flush_fades hflush (htidy.core hproc)
      have hput : Host.Fades host (host.put i c) := Host.fades_put hproc hfades
      obtain ⟨hrest, htidy', hall⟩ := ih (i + 1) stall' (host.put i c)
        (htidy.put hproc heffects) (by rw [hput.length]; omega) h
      refine ⟨hput.trans hrest, htidy', fun j p hij hp => ?_⟩
      -- this processor is asked now; a later one is asked in the faded host, and needs the same
      rcases hij.eq_or_lt with rfl | hlt
      · obtain rfl : proc = p := Option.some.inj (hproc.symm.trans hp)
        exact hflushable
      · have hp' : (host.put i c).procs[j]? = some p := (List.getElem?_set_ne hlt.ne).trans hp
        exact (hput.core j p p hp hp').flushable_iff.mp (hall j p hlt hp')
  obtain ⟨hfades, htidy', hall⟩ := hfrom _ 0 true host htidy (Nat.zero_add _).symm h
  refine ⟨hfades, htidy', fun proc hproc => ?_⟩
  obtain ⟨j, hj⟩ := List.getElem?_of_mem hproc
  exact hall j proc (Nat.zero_le j) hj

/-- **When a flush returns.** -/
theorem flush_returns_iff (htidy : host.Tidy) :
    (∃ r host', Coherence.flush cfg host b false = .ok (r, host')) ↔ host.Flushable cfg b := by
  constructor
  · rintro ⟨r, host', h⟩
    exact (flush_fades h htidy).2.2
  · intro h
    have hfrom : ∀ (n i : ℕ) (stall : Bool) (host : Host), host.Tidy → host.Flushable cfg b →
        host.procs.length = i + n →
          ∃ r host', flushFrom cfg b false n i stall host = .ok (r, host') := by
      intro n
      induction n with
      | zero => exact fun i stall host _ _ _ => ⟨stall, host, rfl⟩
      | succ n ih =>
        intro i stall host htidy h hlength
        have hproc : host.procs[i]? = some (host.procs.get ⟨i, by omega⟩) :=
          List.getElem?_eq_getElem _
        obtain ⟨stall', c, hflush⟩ := Core.flush_returns (h _ (List.mem_of_getElem? hproc))
          htidy.flushQueue
        have hone : host.onProc i (fun c => c.flush cfg b false) = .ok (stall', host.put i c) :=
          Host.onProc_eq_ok.mpr ⟨Int.natCast_nonneg i, _, c, hproc, hflush, rfl⟩
        have heffects : Core.Effects cfg .all (host.core _) c :=
          Core.flush_effects hflush fun _ => trivial
        have hput : Host.Fades host (host.put i c) :=
          Host.fades_put hproc (Core.flush_fades hflush (htidy.core hproc)).1
        obtain ⟨r, host', hrest⟩ := ih (i + 1) stall' (host.put i c) (htidy.put hproc heffects)
          (hput.flushable_iff.mpr h) (by rw [hput.length]; omega)
        exact ⟨r, host', Outcome.bind_eq_ok.mpr ⟨(stall', host.put i c), hone, hrest⟩⟩
    exact hfrom _ 0 true host htidy h (Nat.zero_add _).symm

end Coherence

end PIMSim
