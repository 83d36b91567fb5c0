import PIMSim.Library.Recency
import PIMSim.Library.Run
import PIMSim.Procs.Cache

/-!
# Replacement in a first-level cache

The timestamps of the lines follow the last uses of their blocks, so that a fill of a full set
replaces the block used least recently. They are 64-bit numbers, and follow the uses only as long as
the cache counts fewer calls than these can tell apart.

## Main definitions

* `CacheCall`, `CacheRun`: the calls of a cache, and a cache with the recency of its blocks
* `CacheRun.step`: one call
* `Fresh`: a line is added only for a block that a search misses
* `Placed`: a block is in the set of its address
* `Replaces`: a fill takes a blank way, or else the place of the least recently used block
* `Stamped`: the timestamps are the last uses

## Main results

* `add_replaces`: a fill of a cache with such timestamps
* `stamped_step`: the calls keep them
* `least_recently_used`: every run that is not too long
-/

namespace PIMSim

open CSharp CacheArray Transition FirstMatch

/-- The calls of a cache. -/
inductive CacheCall
  | search (blockAddr : UInt64) (reqt : RequestType)
  | add (blockAddr : UInt64) (reqt : RequestType) (pid : Int)
  | remove (blockAddr : UInt64)
  | ifdirty (blockAddr : UInt64)
deriving DecidableEq

/-- A cache, and the recency of its blocks. -/
structure CacheRun where
  cache : CacheArray
  recency : Recency UInt64 := {}

/-- The methods in which the caches differ. -/
structure CacheMethods where
  searchBlock : CacheArray → UInt64 → RequestType → Outcome (Bool × CacheArray)
  add : CacheArray → UInt64 → RequestType → Int → Outcome (UInt64 × CacheArray)

namespace CacheRun

/-- A cache before its first call. -/
def init (assoc maxSet : ℕ) : CacheRun := { cache := create assoc maxSet }

/-- One call. A block is used when a search finds it and when it is added. -/
def step (m : CacheMethods) (s : CacheRun) : CacheCall → Outcome CacheRun
  | .search b t => do
    let (hit, cache) ← m.searchBlock s.cache b t
    return { cache, recency := if hit then s.recency.touch b else s.recency.tick }
  | .add b t pid => do
    let (_, cache) ← m.add s.cache b t pid
    return { cache, recency := s.recency.touch b }
  | .remove b => do
    let (_, cache) ← s.cache.remove b
    return { cache, recency := s.recency.tick }
  | .ifdirty b => do
    let (_, cache) ← s.cache.ifdirty b
    return { cache, recency := s.recency.tick }

/-- A line is added only for a block that a search misses. -/
def Fresh (s : CacheRun) : CacheCall → Prop
  | .add b _ _ => ¬ Present s.cache b
  | _ => True

end CacheRun

/-- The methods of a first-level cache. -/
def Cache.methods : CacheMethods := { searchBlock := Cache.searchBlock, add := Cache.add }

namespace CacheArray

/-- A block is in the set of its address. -/
def Placed (c : CacheArray) : Prop :=
  ∀ i, ∀ e ∈ c.lines i, e.blockAddr ≠ NULL → e.blockAddr.toNat % c.maxSet = i

/-- The blocks in a set. -/
def HeldIn (c : CacheArray) (i : ℕ) (x : UInt64) : Prop :=
  x ≠ NULL ∧ ∃ e ∈ c.lines i, e.blockAddr = x

instance (c : CacheArray) (i : ℕ) (x : UInt64) : Decidable (HeldIn c i x) :=
  inferInstanceAs (Decidable (x ≠ NULL ∧ ∃ e ∈ c.lines i, e.blockAddr = x))

instance (c : CacheArray) (b : UInt64) : Decidable (Present c b) :=
  inferInstanceAs (Decidable (∃ e ∈ c.lines (b.toNat % c.maxSet), e.blockAddr = b))

end CacheArray

/-- **What a fill replaces**: the block is there afterwards, and no other block that was not there
before. A block that leaves was the least recently used one of a set without blank ways, and is
answered exactly when it was dirty. When no block leaves, none is answered. -/
structure Replaces (s : CacheRun) (b v : UInt64) (c' : CacheArray) : Prop where
  filled : b ≠ NULL → Present c' b
  only : ∀ x, x ≠ NULL → Present c' x → x = b ∨ Present s.cache x
  evicted : ∀ x, x ≠ NULL → Present s.cache x → ¬ Present c' x →
    (∀ e ∈ s.cache.lines (b.toNat % s.cache.maxSet), e.blockAddr ≠ NULL) ∧
      s.recency.Least (s.cache.HeldIn (b.toNat % s.cache.maxSet)) x ∧
      (Dirty s.cache x → v = x) ∧ (¬ Dirty s.cache x → v = NULL)
  unanswered : (∀ x, x ≠ NULL → Present s.cache x → Present c' x) → v = NULL

/-- The timestamp of a line is the last use of its block. -/
structure Stamped (s : CacheRun) : Prop where
  clock : s.cache.cycle.toNat = s.recency.time
  ordered : s.recency.Ordered
  distinct : Distinct s.cache
  placed : Placed s.cache
  stamp : ∀ i, ∀ e ∈ s.cache.lines i, e.blockAddr ≠ NULL →
    0 < s.recency.used e.blockAddr ∧ e.timestamp.toNat = s.recency.used e.blockAddr

/-! ### The choice of the way -/

namespace Cache

/-- The chosen way has the least timestamp of a set without blank ways. -/
theorem calculateRep_least {ways : List CacheEntity} {i k : ℕ} {m : Option ℕ} {t : UInt64}
    (h : calculateRep ways i m t = (true, some k)) :
    (∀ e ∈ ways, e.blockAddr ≠ NULL) ∧
      ((m = some k ∧ ∀ f ∈ ways, t ≤ f.timestamp) ∨
        i ≤ k ∧ ∃ e, ways[k - i]? = some e ∧ e.timestamp < t ∧
          ∀ f ∈ ways, e.timestamp ≤ f.timestamp) := by
  induction ways generalizing i m t with
  | nil =>
    cases m with
    | none => cases h
    | some j =>
      obtain rfl : j = k := by simpa [calculateRep] using h
      exact ⟨by simp, .inl ⟨rfl, by simp⟩⟩
  | cons x ways ih =>
    rw [calculateRep] at h
    split_ifs at h with hnull hlt
    · cases h
    · obtain ⟨hfull, hcase⟩ := ih h
      refine ⟨by simpa using ⟨hnull, hfull⟩, .inr ?_⟩
      rcases hcase with ⟨hk, hle⟩ | ⟨hik, e, he, hel, hle⟩
      · obtain rfl : i = k := Option.some.inj hk
        refine ⟨Nat.le_refl i, x, by simp, hlt, ?_⟩
        simpa using hle
      · refine ⟨by omega, e, ?_, UInt64.lt_trans hel hlt, ?_⟩
        · rwa [show k - i = k - (i + 1) + 1 by omega, List.getElem?_cons_succ]
        · simpa using ⟨UInt64.le_of_lt hel, hle⟩
    · obtain ⟨hfull, hcase⟩ := ih h
      refine ⟨by simpa using ⟨hnull, hfull⟩, ?_⟩
      rcases hcase with ⟨hk, hle⟩ | ⟨hik, e, he, hel, hle⟩
      · refine .inl ⟨hk, ?_⟩
        simpa using ⟨UInt64.not_lt.mp hlt, hle⟩
      · refine .inr ⟨by omega, e, ?_, hel, ?_⟩
        · rwa [show k - i = k - (i + 1) + 1 by omega, List.getElem?_cons_succ]
        · simpa using ⟨UInt64.le_of_lt (UInt64.lt_of_lt_of_le hel (UInt64.not_lt.mp hlt)), hle⟩

end Cache

/-! ### What the calls do to the lines -/

namespace CacheArray

variable {c c' : CacheArray} {b : UInt64}

/-- A search changes the line it finds, and the cycle. -/
theorem search_lines {hit : CacheEntity → Bool} {t : RequestType} {r : Bool}
    (h : c.search hit b t = .ok (r, c')) :
    c'.cycle = c.cycle + 1 ∧ c'.maxSet = c.maxSet ∧
      (r = false ∧ c'.lines = c.lines ∨
        r = true ∧ (c.lines (b.toNat % c.maxSet)).any hit = true ∧
          c'.lines = Function.update c.lines (b.toNat % c.maxSet) (update hit (fun e =>
            { e with timestamp := c.cycle + 1, dirty := e.dirty || t = .write })
            (c.lines (b.toNat % c.maxSet)))) := by
  simp only [search, Outcome.bind_eq_ok] at h
  obtain ⟨i, hi, h⟩ := h
  obtain rfl : i = b.toNat % c.maxSet := index_eq_ok hi
  split_ifs at h with hany
  · cases h
    exact ⟨rfl, rfl, .inr ⟨rfl, hany, rfl⟩⟩
  · cases h
    exact ⟨rfl, rfl, .inl ⟨rfl, rfl⟩⟩

/-- The lines with a block, after a search that found the block `b`. -/
theorem mem_search_hit {hit : CacheEntity → Bool} {t : RequestType}
    (hdis : Distinct c) (hplaced : Placed c) (hhit : ∀ e, hit e = true → e.blockAddr = b)
    (hb : ∀ e ∈ c.lines (b.toNat % c.maxSet), b ≠ NULL → e.blockAddr = b → hit e = true)
    (h : c.search hit b t = .ok (true, c')) {i : ℕ} {e : CacheEntity} (he : e ∈ c'.lines i)
    (hnull : e.blockAddr ≠ NULL) :
    (e ∈ c.lines i ∧ e.blockAddr ≠ b) ∨
      e.blockAddr = b ∧ e.timestamp = c.cycle + 1 ∧ i = b.toNat % c.maxSet := by
  obtain ⟨-, -, hcase⟩ := search_lines h
  rcases hcase with ⟨hr, -⟩ | ⟨-, hany, hlines⟩
  · cases hr
  rw [hlines, Function.update_apply] at he
  split_ifs at he with hi
  · subst hi
    by_cases hbnull : b = NULL
    · -- A blank way is found: the lines with a block are the same.
      rcases mem_update he with he | ⟨f, hf, hpf, rfl⟩
      · exact .inl ⟨he, hbnull ▸ hnull⟩
      · exact absurd ((hhit f hpf).trans hbnull) hnull
    · -- The set holds the block once.
      have honce : (c.lines (b.toNat % c.maxSet)).Pairwise fun x y =>
          hit x = true → hit y = false := by
        refine (hdis _).imp fun {x y} hxy hx => ?_
        by_contra hy
        have hyb := hhit y (by simpa using hy)
        exact hbnull ((hhit x hx).symm.trans (hxy ((hhit x hx).trans hyb.symm)))
      rcases mem_update_once honce he with ⟨hmem, hno⟩ | ⟨f, hf, hpf, rfl⟩
      · refine .inl ⟨hmem, fun heb => ?_⟩
        rw [hb e hmem hbnull heb] at hno
        cases hno
      · exact .inr ⟨hhit f hpf, rfl, rfl⟩
  · refine .inl ⟨he, fun heb => hi ?_⟩
    rw [← hplaced i e he hnull, heb]

/-- A removal leaves no line with a block that was not there before. -/
theorem mem_remove {r : Bool} (h : c.remove b = .ok (r, c')) {i : ℕ} {e : CacheEntity}
    (he : e ∈ c'.lines i) (hnull : e.blockAddr ≠ NULL) : e ∈ c.lines i := by
  simp only [CacheArray.remove, Outcome.bind_eq_ok] at h
  obtain ⟨k, hk, h⟩ := h
  split_ifs at h
  · cases h
    rw [setWays_lines] at he
    split_ifs at he with hik
    · rcases mem_update he with he | ⟨f, -, -, rfl⟩
      · exact hik ▸ he
      · exact absurd rfl hnull
    · exact he
  · cases h
    exact he

theorem remove_cycle {r : Bool} (h : c.remove b = .ok (r, c')) : c'.cycle = c.cycle + 1 := by
  simp only [CacheArray.remove, Outcome.bind_eq_ok] at h
  obtain ⟨k, -, h⟩ := h
  split_ifs at h <;> cases h <;> rfl

theorem ifdirty_cycle {r : Bool} (h : c.ifdirty b = .ok (r, c')) : c'.cycle = c.cycle + 1 := by
  simp only [CacheArray.ifdirty, Outcome.bind_eq_ok] at h
  obtain ⟨k, -, h⟩ := h
  split at h <;> cases h <;> rfl

end CacheArray

namespace Cache

variable {c c' : Cache} {b v : UInt64} {t : RequestType} {pid : Int}

/-- A fill writes the chosen way. -/
theorem add_lines (h : add c b t pid = .ok (v, c')) :
    ∃ res k e new, calculateRep (c.lines (b.toNat % c.maxSet)) 0 none NULL = (res, some k) ∧
      (c.lines (b.toNat % c.maxSet))[k]? = some e ∧
      v = (if res && e.dirty then e.blockAddr else NULL) ∧ c'.cycle = c.cycle + 1 ∧
      c'.maxSet = c.maxSet ∧ new.blockAddr = b ∧ new.timestamp = c.cycle + 1 ∧
      c'.lines = Function.update c.lines (b.toNat % c.maxSet)
        ((c.lines (b.toNat % c.maxSet)).set k new) := by
  simp only [add, Outcome.bind_eq_ok] at h
  obtain ⟨i, hi, h⟩ := h
  obtain rfl : i = b.toNat % c.maxSet := index_eq_ok hi
  split at h
  · cases h
  next res k hrep =>
  split at h
  · cases h
  next e he =>
  cases h
  exact ⟨res, k, e, _, hrep, he, rfl, rfl, rfl, rfl, rfl, rfl⟩

/-- The lines with a block, after a fill. -/
theorem mem_add (hplaced : Placed c) (hfresh : ¬ Present c b) (h : add c b t pid = .ok (v, c'))
    {i : ℕ} {e : CacheEntity} (he : e ∈ c'.lines i) (hnull : e.blockAddr ≠ NULL) :
    (e ∈ c.lines i ∧ e.blockAddr ≠ b) ∨
      e.blockAddr = b ∧ e.timestamp = c.cycle + 1 ∧ i = b.toNat % c.maxSet := by
  obtain ⟨res, k, f, new, -, -, -, -, -, hblock, hstamp, hlines⟩ := add_lines h
  rw [hlines, Function.update_apply] at he
  split_ifs at he with hi
  · subst hi
    rcases List.mem_or_eq_of_mem_set he with he | rfl
    · exact .inl ⟨he, fun heb => hfresh ⟨e, he, heb⟩⟩
    · exact .inr ⟨hblock, hstamp, rfl⟩
  · refine .inl ⟨he, fun heb => hi ?_⟩
    rw [← hplaced i e he hnull, heb]

end Cache

/-! ### The timestamps -/

theorem stamped_init (assoc maxSet : ℕ) : Stamped (CacheRun.init assoc maxSet) where
  clock := rfl
  ordered := Recency.ordered_init
  distinct := distinct_create assoc maxSet
  placed := fun i e he hnull => absurd (by rw [List.eq_of_mem_replicate he]) hnull
  stamp := fun i e he hnull => absurd (by rw [List.eq_of_mem_replicate he]) hnull

/-- The cycle of the next call, unless it wraps around. -/
theorem toNat_cycle {s : CacheRun} (hs : Stamped s) (htime : s.recency.time + 1 < 2 ^ 64) :
    (s.cache.cycle + 1).toNat = s.recency.time + 1 := by
  rw [UInt64.toNat_add, hs.clock]
  exact Nat.mod_eq_of_lt htime

/-- A call that leaves the other blocks, and marks the block `b` with its cycle. -/
theorem Stamped.touched {s : CacheRun} {c' : CacheArray} {b : UInt64} (hs : Stamped s)
    (htime : s.recency.time + 1 < 2 ^ 64) (hcycle : c'.cycle = s.cache.cycle + 1)
    (hmax : c'.maxSet = s.cache.maxSet) (hdis : Distinct c')
    (hmem : ∀ i, ∀ e ∈ c'.lines i, e.blockAddr ≠ NULL →
      (e ∈ s.cache.lines i ∧ e.blockAddr ≠ b) ∨
        e.blockAddr = b ∧ e.timestamp = s.cache.cycle + 1 ∧ i = b.toNat % s.cache.maxSet) :
    Stamped { cache := c', recency := s.recency.touch b } where
  clock := by rw [hcycle, toNat_cycle hs htime, Recency.time_touch]
  ordered := hs.ordered.touch b
  distinct := hdis
  placed := by
    intro i e he hnull
    rw [hmax]
    rcases hmem i e he hnull with ⟨hold, -⟩ | ⟨hb, -, rfl⟩
    · exact hs.placed i e hold hnull
    · rw [hb]
  stamp := by
    intro i e he hnull
    rcases hmem i e he hnull with ⟨hold, hne⟩ | ⟨hb, hstamp, -⟩
    · rw [Recency.used_touch_of_ne _ hne]
      exact hs.stamp i e hold hnull
    · rw [hb, hstamp, Recency.used_touch_self, toNat_cycle hs htime]
      exact ⟨Nat.succ_pos _, rfl⟩

/-- A call that adds no line with a block. -/
theorem Stamped.ticked {s : CacheRun} {c' : CacheArray} (hs : Stamped s)
    (htime : s.recency.time + 1 < 2 ^ 64) (hcycle : c'.cycle = s.cache.cycle + 1)
    (hmax : c'.maxSet = s.cache.maxSet) (hdis : Distinct c')
    (hmem : ∀ i, ∀ e ∈ c'.lines i, e.blockAddr ≠ NULL → e ∈ s.cache.lines i) :
    Stamped { cache := c', recency := s.recency.tick } where
  clock := (congrArg UInt64.toNat hcycle).trans (toNat_cycle hs htime)
  ordered := hs.ordered.tick
  distinct := hdis
  placed := by
    intro i e he hnull
    rw [hmax]
    exact hs.placed i e (hmem i e he hnull) hnull
  stamp := fun i e he hnull => hs.stamp i e (hmem i e he hnull) hnull

/-- **A call keeps the timestamps** the last uses, as long as the cycle does not wrap around. -/
theorem stamped_step {s s' : CacheRun} {call : CacheCall} (hs : Stamped s)
    (htime : s.recency.time + 1 < 2 ^ 64) (hgood : s.Fresh call)
    (h : s.step Cache.methods call = .ok s') : Stamped s' := by
  cases call with
  | search b t =>
    obtain ⟨⟨hit, c'⟩, hsearch, heq⟩ := Outcome.bind_eq_ok.mp h
    cases heq
    obtain ⟨hcycle, hmax, hcase⟩ := search_lines hsearch
    have hdis := (search_spec hsearch (by simp)).2.1 hs.distinct
    cases hit with
    | true =>
      refine hs.touched htime hcycle hmax hdis fun i e => ?_
      exact mem_search_hit hs.distinct hs.placed (by simp) (fun e _ _ heb => by simp [heb]) hsearch
    | false =>
      obtain ⟨-, hlines⟩ | ⟨hr, -⟩ := hcase
      · exact hs.ticked htime hcycle hmax hdis fun i e he _ => hlines ▸ he
      · cases hr
  | add b t pid =>
    obtain ⟨⟨v, c'⟩, hadd, heq⟩ := Outcome.bind_eq_ok.mp h
    cases heq
    obtain ⟨res, k, e, new, -, -, -, hcycle, hmax, -⟩ := Cache.add_lines hadd
    have hdis := (Cache.add_spec hadd hgood).2.1 hs.distinct
    refine hs.touched htime hcycle hmax hdis fun i e => ?_
    exact Cache.mem_add hs.placed hgood hadd
  | remove b =>
    obtain ⟨⟨r, c'⟩, hremove, heq⟩ := Outcome.bind_eq_ok.mp h
    cases heq
    obtain ⟨hmax, hdis, -⟩ := remove_spec hremove
    exact hs.ticked htime (remove_cycle hremove) hmax (hdis hs.distinct) fun i e =>
      mem_remove hremove
  | ifdirty b =>
    obtain ⟨⟨r, c'⟩, hdirty, heq⟩ := Outcome.bind_eq_ok.mp h
    cases heq
    obtain ⟨hmax, hlines, -⟩ := ifdirty_spec hdirty
    refine hs.ticked htime (ifdirty_cycle hdirty) hmax ?_ fun i e he _ => hlines ▸ he
    intro i
    rw [hlines]
    exact hs.distinct i

/-! ### A fill -/

/-- The way that is written holds no block, or the least recently used one of its set. -/
theorem Stamped.chosen {s : CacheRun} (hs : Stamped s) {i k : ℕ} {res : Bool} {e : CacheEntity}
    (hrep : Cache.calculateRep (s.cache.lines i) 0 none NULL = (res, some k))
    (he : (s.cache.lines i)[k]? = some e) :
    (res = false ∧ e.blockAddr = NULL) ∨
      res = true ∧ (∀ f ∈ s.cache.lines i, f.blockAddr ≠ NULL) ∧
        s.recency.Least (s.cache.HeldIn i) e.blockAddr := by
  cases res with
  | false =>
    obtain ⟨-, f, hf, hfnull⟩ := Cache.calculateRep_spec hrep
    rw [Nat.sub_zero, he] at hf
    cases hf
    exact .inl ⟨rfl, hfnull⟩
  | true =>
    obtain ⟨hfull, ⟨hk, -⟩ | ⟨-, f, hf, -, hle⟩⟩ := Cache.calculateRep_least hrep
    · cases hk
    rw [Nat.sub_zero, he] at hf
    cases hf
    have hmem := List.mem_of_getElem? he
    refine .inr ⟨rfl, hfull, ⟨hfull e hmem, e, hmem, rfl⟩, ?_⟩
    rintro x ⟨-, f, hf, rfl⟩ hne
    -- The uses are the timestamps, and different blocks were not used at once.
    obtain ⟨hpos, hstamp⟩ := hs.stamp i e hmem (hfull e hmem)
    obtain ⟨-, hstamp'⟩ := hs.stamp i f hf (hfull f hf)
    have hused : s.recency.used e.blockAddr ≤ s.recency.used f.blockAddr := by
      rw [← hstamp, ← hstamp']
      exact UInt64.le_iff_toNat_le.mp (hle f hf)
    apply Nat.lt_of_le_of_ne hused
    intro heq
    exact hne (hs.ordered.inj _ _ hpos heq).symm

/-- Two lines of a set with one block are blank. -/
theorem apart_getElem {ways : List CacheEntity} (h : ways.Pairwise CacheArray.Apart) {j k : ℕ} (hjk : j ≠ k)
    (hj : j < ways.length) (hk : k < ways.length) (heq : ways[j].blockAddr = ways[k].blockAddr) :
    ways[k].blockAddr = NULL := by
  rw [List.pairwise_iff_getElem] at h
  rcases Nat.lt_or_gt_of_ne hjk with hlt | hlt
  · exact heq ▸ h j k hj hk hlt heq
  · exact h k j hk hj hlt heq.symm

/-- **A fill** of a cache whose timestamps are the last uses. -/
theorem add_replaces {s : CacheRun} {b v : UInt64} {t : RequestType} {pid : Int} {c' : CacheArray}
    (hs : Stamped s) (hfresh : ¬ Present s.cache b) (h : Cache.add s.cache b t pid = .ok (v, c')) :
    Replaces s b v c' := by
  obtain ⟨res, k, e, new, hrep, he, hv, -, hmax, hblock, -, hlines⟩ := Cache.add_lines h
  obtain ⟨hk, hek⟩ := List.getElem?_eq_some_iff.mp he
  have hmem : e ∈ s.cache.lines (b.toNat % s.cache.maxSet) := List.mem_of_getElem? he
  have hchosen := hs.chosen hrep he
  have hnew : Present c' b := by
    unfold Present
    rw [hmax, hlines, Function.update_self]
    exact ⟨new, List.mem_set hk new, hblock⟩
  -- Every line but the one that is written stays.
  have hstays : ∀ x, Present s.cache x → x ≠ e.blockAddr → Present c' x := by
    rintro x ⟨f, hf, rfl⟩ hne
    unfold Present
    rw [hmax, hlines, Function.update_apply]
    split_ifs with hi
    · rw [hi] at hf
      obtain ⟨j, hj, rfl⟩ := List.getElem_of_mem hf
      have hjk : k ≠ j := by
        rintro rfl
        exact hne (congrArg CacheEntity.blockAddr hek)
      exact ⟨_, List.mem_of_getElem? ((List.getElem?_set_ne hjk).trans
        (List.getElem?_eq_getElem hj)), rfl⟩
    · exact ⟨f, hf, rfl⟩
  constructor
  · exact fun _ => hnew
  · rintro x hx ⟨f, hf, rfl⟩
    rw [hmax] at hf
    rcases Cache.mem_add hs.placed hfresh h hf hx with ⟨hold, -⟩ | ⟨hb, -, -⟩
    · exact .inr ⟨f, hold, rfl⟩
    · exact .inl hb
  · intro x hx hthere hgone
    obtain rfl : x = e.blockAddr := by
      by_contra hne
      exact hgone (hstays x hthere hne)
    obtain ⟨-, hnull⟩ | ⟨rfl, hfull, hleast⟩ := hchosen
    · exact absurd hnull hx
    refine ⟨hfull, hleast, ?_, ?_⟩
    · rintro ⟨f, hf, hfb, hfd⟩
      -- The set holds the block once, so the dirty line is the one that is written.
      rw [hs.placed _ e hmem hx] at hf
      have hfe : f = e := by
        by_contra hne
        exact hx (hfb.symm.trans ((hs.distinct _).forall hf hmem hne hfb))
      rw [hv, ← hfe, hfd]
      rfl
    · intro hclean
      have hdirty : e.dirty = false := by
        by_contra hd
        refine hclean ⟨e, ?_, rfl, by simpa using hd⟩
        rw [hs.placed _ e hmem hx]
        exact hmem
      rw [hv, hdirty]
      rfl
  · intro hall
    obtain ⟨rfl, -⟩ | ⟨rfl, hfull, -⟩ := hchosen
    · exact hv
    · -- A block that is replaced does not stay.
      have hx := hfull e hmem
      have hplace := hs.placed _ e hmem hx
      obtain ⟨f, hf, hfb⟩ := hall e.blockAddr hx ⟨e, by rw [hplace]; exact hmem, rfl⟩
      rw [hmax, hplace, hlines, Function.update_self] at hf
      obtain ⟨j, hj, rfl⟩ := List.getElem_of_mem hf
      rw [List.length_set] at hj
      by_cases hjk : k = j
      · subst hjk
        rw [List.getElem_set_self] at hfb
        exact absurd ⟨e, hmem, hfb.symm.trans hblock⟩ hfresh
      · rw [List.getElem_set_ne hjk] at hfb
        refine absurd ?_ hx
        rw [← hek] at hfb ⊢
        exact apart_getElem (hs.distinct _) (Ne.symm hjk) hj hk hfb

/-! ### Runs -/

/-- Every call is counted. -/
theorem CacheRun.time_step {m : CacheMethods} {s s' : CacheRun} {call : CacheCall}
    (h : s.step m call = .ok s') : s'.recency.time = s.recency.time + 1 := by
  cases call with
  | search b t =>
    obtain ⟨⟨hit, c'⟩, -, heq⟩ := Outcome.bind_eq_ok.mp h
    cases heq
    cases hit <;> rfl
  | _ =>
    obtain ⟨⟨r, c'⟩, -, heq⟩ := Outcome.bind_eq_ok.mp h
    cases heq
    rfl

/-- The timestamps are the last uses after every run that is not too long. -/
theorem stamped_exec {s s' : CacheRun} {calls : List CacheCall} (hs : Stamped s)
    (hlen : s.recency.time + calls.length < 2 ^ 64)
    (hgood : Along (CacheRun.step Cache.methods) CacheRun.Fresh s calls)
    (h : exec (CacheRun.step Cache.methods) s calls = .ok s') : Stamped s' := by
  induction calls generalizing s with
  | nil =>
    cases h
    exact hs
  | cons call calls ih =>
    obtain ⟨s₁, hstep, h⟩ := exec_cons_eq_ok.mp h
    rw [List.length_cons] at hlen
    have htime := CacheRun.time_step hstep
    exact ih (stamped_step hs (by omega) hgood.1 hstep) (by omega) (hgood.2 s₁ hstep) h

/-- **A first-level cache replaces the least recently used block**, over every run of fewer than
`2 ^ 64` calls that adds a block only where a search misses it: no set holds a block twice, every
block is in the set of its address, and the next fill takes a blank way, or else the place of the
block used least recently, which it answers when it was dirty. -/
theorem least_recently_used (assoc maxSet : ℕ) (calls : List CacheCall) (s : CacheRun)
    (hlen : calls.length < 2 ^ 64)
    (hgood : Along (CacheRun.step Cache.methods) CacheRun.Fresh (CacheRun.init assoc maxSet) calls)
    (h : exec (CacheRun.step Cache.methods) (CacheRun.init assoc maxSet) calls = .ok s) :
    Distinct s.cache ∧ Placed s.cache ∧ ∀ b t pid v c', ¬ Present s.cache b →
      Cache.add s.cache b t pid = .ok (v, c') → Replaces s b v c' := by
  have hstart : (CacheRun.init assoc maxSet).recency.time = 0 := rfl
  have hs := stamped_exec (stamped_init assoc maxSet) (by omega) hgood h
  exact ⟨hs.distinct, hs.placed, fun b t pid v c' => add_replaces hs⟩

/-- Two blocks are added to a set of two ways, and the first one is used again. -/
def reuse : List CacheCall :=
  [.search 5 .read, .add 5 .write 0, .search 7 .read, .add 7 .write 0, .search 5 .read]

instance (s : CacheRun) : ∀ call, Decidable (s.Fresh call)
  | .add b _ _ => inferInstanceAs (Decidable (¬ Present s.cache b))
  | .search _ _ => .isTrue trivial
  | .remove _ => .isTrue trivial
  | .ifdirty _ => .isTrue trivial

/-- The block that was used least recently leaves. -/
theorem least_recently_used_two : ∃ s v c',
    exec (CacheRun.step Cache.methods) (CacheRun.init 2 1) reuse = .ok s ∧
      Cache.add s.cache 9 .read 0 = .ok (v, c') ∧ Replaces s 9 v c' ∧ v = 7 := by
  obtain ⟨s, h, hadd⟩ := Outcome.exists_of_map_eq_ok
    (x := exec (CacheRun.step Cache.methods) (CacheRun.init 2 1) reuse)
    (f := fun s => ((Cache.add s.cache 9 .read 0).map Prod.fst, decide (Present s.cache 9)))
    (b := (.ok 7, false)) (by decide +kernel)
  rw [Prod.mk.injEq] at hadd
  obtain ⟨⟨v, c'⟩, hadd', rfl⟩ := Outcome.exists_of_map_eq_ok hadd.1
  have hfresh : ¬ Present s.cache 9 := of_decide_eq_false hadd.2
  exact ⟨s, 7, c', h, hadd',
    (least_recently_used 2 1 reuse s (by decide) (by decide +kernel) h).2.2 _ _ _ _ _ hfresh
      hadd', rfl⟩

/-- A number of calls that only count. -/
theorem exec_idle (n : ℕ) (s : CacheRun) (hmax : s.cache.maxSet ≠ 0) :
    exec (CacheRun.step Cache.methods) s (List.replicate n (.ifdirty 0)) =
      .ok { cache := { s.cache with cycle := s.cache.cycle + UInt64.ofNat n },
            recency := { s.recency with time := s.recency.time + n } } := by
  induction n generalizing s with
  | zero => simp
  | succ n ih =>
    let s₁ : CacheRun := { cache := { s.cache with cycle := s.cache.cycle + 1 },
                           recency := s.recency.tick }
    have hstep : s.step Cache.methods (.ifdirty 0) = .ok s₁ := by
      simp only [CacheRun.step, ifdirty, index, if_neg hmax, Outcome.ok_bind]
      split <;> rfl
    have hrest := ih s₁ hmax
    rw [List.replicate_succ]
    refine exec_cons_eq_ok.mpr ⟨s₁, hstep, hrest.trans ?_⟩
    have hcycle : s.cache.cycle + 1 + UInt64.ofNat n = s.cache.cycle + UInt64.ofNat (n + 1) := by
      rw [UInt64.ofNat_add, UInt64.add_assoc, UInt64.add_comm (UInt64.ofNat n)]
      rfl
    have htime : s.recency.time + 1 + n = s.recency.time + (n + 1) := by omega
    simp only [s₁, Recency.tick, hcycle, htime]

theorem along_idle (n : ℕ) (s : CacheRun) :
    Along (CacheRun.step Cache.methods) CacheRun.Fresh s (List.replicate n (.ifdirty 0)) := by
  induction n generalizing s with
  | zero => trivial
  | succ n ih => exact ⟨trivial, fun s' _ => ih s'⟩

/-- Two blocks are added to one set. -/
def twoFills : List CacheCall :=
  [.search 5 .read, .add 5 .read 0, .search 7 .read, .add 7 .read 0]

/-- The calls of a run in which the cycle wraps around between two fills of one set. -/
def wrapping : List CacheCall := List.replicate (2 ^ 64 - 4) (.ifdirty 0) ++ twoFills

/-- The cache before the two fills. -/
def almostWrapped : CacheRun where
  cache := { create 2 1 with cycle := 0 + UInt64.ofNat (2 ^ 64 - 4) }
  recency := { time := 0 + (2 ^ 64 - 4) }

/-- The block used last leaves when the cycle has wrapped around. -/
theorem not_replaces_wrapped : ¬ ∀ s,
    Along (CacheRun.step Cache.methods) CacheRun.Fresh (CacheRun.init 2 1) wrapping →
      exec (CacheRun.step Cache.methods) (CacheRun.init 2 1) wrapping = .ok s →
      ∀ b t pid v c', ¬ Present s.cache b → Cache.add s.cache b t pid = .ok (v, c') →
        Replaces s b v c' := by
  intro hall
  have hidle : exec (CacheRun.step Cache.methods) (CacheRun.init 2 1)
      (List.replicate (2 ^ 64 - 4) (.ifdirty 0)) = .ok almostWrapped :=
    exec_idle _ _ (by decide)
  obtain ⟨s, h, hseen⟩ := Outcome.exists_of_map_eq_ok
    (x := exec (CacheRun.step Cache.methods) almostWrapped twoFills)
    (f := fun s => ((Cache.add s.cache 9 .read 0).map fun r => decide (Present r.2 7),
      decide (Present s.cache 9), decide (Present s.cache 7),
      decide (HeldIn s.cache ((9 : UInt64).toNat % s.cache.maxSet) 5),
      decide (s.recency.used 7 < s.recency.used 5)))
    (b := (.ok false, false, true, true, false)) (by decide +kernel)
  simp only [Prod.mk.injEq, decide_eq_true_eq, decide_eq_false_iff_not] at hseen
  obtain ⟨hadd, hfresh, hthere, hheld, hused⟩ := hseen
  obtain ⟨⟨v, c'⟩, hadd, hgone⟩ := Outcome.exists_of_map_eq_ok hadd
  have hgood : Along (CacheRun.step Cache.methods) CacheRun.Fresh (CacheRun.init 2 1) wrapping := by
    refine along_append.mpr ⟨along_idle _ _, fun s' hs' => ?_⟩
    rw [hidle] at hs'
    cases hs'
    decide +kernel
  have hrun : exec (CacheRun.step Cache.methods) (CacheRun.init 2 1) wrapping = .ok s :=
    exec_append_eq_ok.mpr ⟨almostWrapped, hidle, h⟩
  have hreplaces := hall s hgood hrun 9 .read 0 v c' hfresh hadd
  obtain ⟨-, hleast, -⟩ := hreplaces.evicted 7 (by decide) hthere (of_decide_eq_false hgone)
  exact hused (hleast.2 5 hheld (by decide))

end PIMSim
