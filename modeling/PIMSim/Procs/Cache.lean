import PIMSim.General
import PIMSim.Library.FirstMatch
import Mathlib.Tactic

/-!
# The caches

The private first-level cache, replaced by least recent use, and the cache shared by the
processors, whose sets are queues.

## Main definitions

* `CacheEntity`, `CacheArray`: a cache line, and the lines of a cache by their set
* `Cache.searchBlock`, `Cache.add`: search and fill of a first-level cache
* `SharedCache.searchBlock`, `SharedCache.add`: search and fill of the shared cache
* `CacheArray.remove`, `CacheArray.ifdirty`: the same in both
* `Present`, `Dirty`: whether a block is cached, and cached dirty
* `Distinct`, `Marked`: no block is in a set twice; a line without the valid bit is blank

## Main results

* `ifdirty_spec`: `ifdirty` answers whether the block is dirty
* `searchBlock_spec`, `remove_spec`, `Cache.add_spec`, `SharedCache.add_spec`: what the operations
  keep, and which dirty block they give up
-/

namespace PIMSim

open CSharp FirstMatch

/-- A cache line. -/
structure CacheEntity where
  blockAddr : UInt64
  timestamp : UInt64
  dirty : Bool
  pid : Int
  valid : Bool
deriving DecidableEq

/-- A cache: the ways of every set. -/
structure CacheArray where
  cycle : UInt64
  maxSet : ℕ
  lines : ℕ → List CacheEntity

namespace CacheArray

/-- The lines of a constructed cache. -/
def create (assoc maxSet : ℕ) : CacheArray where
  cycle := 0
  maxSet := maxSet
  lines := fun _ => List.replicate assoc ⟨NULL, 0, false, 0, false⟩

/-- `block_addr_ % (uint)max_set` -/
def index (c : CacheArray) (blockAddr : UInt64) : Outcome ℕ :=
  if c.maxSet = 0 then .error .divideByZero else .ok (blockAddr.toNat % c.maxSet)

/-- The ways of a set are replaced. -/
def setWays (c : CacheArray) (index : ℕ) (ways : List CacheEntity) : CacheArray :=
  { c with lines := Function.update c.lines index ways }

/-- The search of both caches: the first way that is a hit gets the cycle, and is dirty after a
write. -/
def search (c : CacheArray) (hit : CacheEntity → Bool) (blockAddr : UInt64) (reqt : RequestType) :
    Outcome (Bool × CacheArray) := do
  let c := { c with cycle := c.cycle + 1 }
  let index ← c.index blockAddr
  if (c.lines index).any hit then
    return (true, c.setWays index (update hit (fun e =>
      { e with timestamp := c.cycle, dirty := e.dirty || reqt = .write }) (c.lines index)))
  else
    return (false, c)

/-- The target line is blanked. -/
def remove (c : CacheArray) (blockAddr : UInt64) : Outcome (Bool × CacheArray) := do
  let c := { c with cycle := c.cycle + 1 }
  let index ← c.index blockAddr
  if (c.lines index).any (·.blockAddr = blockAddr) then
    return (true, c.setWays index (update (·.blockAddr = blockAddr) (fun e =>
      { e with blockAddr := NULL, dirty := false, pid := 0, timestamp := 0 }) (c.lines index)))
  else
    return (false, c)

/-- Whether the first line of the block is dirty. -/
def ifdirty (c : CacheArray) (blockAddr : UInt64) : Outcome (Bool × CacheArray) := do
  let c := { c with cycle := c.cycle + 1 }
  let index ← c.index blockAddr
  match (c.lines index).find? (·.blockAddr = blockAddr) with
  | some e => return (e.dirty, c)
  | none => return (false, c)

end CacheArray

/-- A private first-level cache. -/
abbrev Cache := CacheArray

namespace Cache

/-- `Calculate_Rep`: the index of a blank way, or else of the least recently used one, and whether
the way holds a line to replace. `i` counts the ways passed. -/
def calculateRep : List CacheEntity → ℕ → Option ℕ → UInt64 → Bool × Option ℕ
  | [], _, minIndex, _ => (minIndex.isSome, minIndex)
  | e :: ways, i, minIndex, timestamp =>
    if e.blockAddr = NULL then (false, some i)
    else if e.timestamp < timestamp then calculateRep ways (i + 1) (some i) e.timestamp
    else calculateRep ways (i + 1) minIndex timestamp

def searchBlock (c : Cache) (blockAddr : UInt64) (reqt : RequestType) : Outcome (Bool × Cache) :=
  c.search (·.blockAddr = blockAddr) blockAddr reqt

/-- A line is added. The result is the block of a dirty line it replaces, or `NULL`. -/
def add (c : Cache) (blockAddr : UInt64) (reqt : RequestType) (pid : Int) :
    Outcome (UInt64 × Cache) := do
  let c := { c with cycle := c.cycle + 1 }
  let index ← c.index blockAddr
  let ways := c.lines index
  match calculateRep ways 0 none NULL with
  | (_, none) => .error .indexOutOfRange
  | (res, some resAss) =>
    match ways[resAss]? with
    | none => .error .indexOutOfRange
    | some e =>
      let resAddr := if res && e.dirty then e.blockAddr else NULL
      return (resAddr, c.setWays index (ways.set resAss
        { e with blockAddr := blockAddr, pid := pid, timestamp := c.cycle, dirty := reqt = .write }))

/-- The dirty block that leaves its set when a block is filled, unless the block is there. -/
def evicted (c : Cache) (blockAddr : UInt64) : Option UInt64 :=
  let ways := c.lines (blockAddr.toNat % c.maxSet)
  if ways.any (·.blockAddr = blockAddr) then none
  else match calculateRep ways 0 none NULL with
    | (true, some resAss) => (ways[resAss]?.filter (·.dirty)).map (·.blockAddr)
    | _ => none

end Cache

/-- The cache shared by the processors. -/
abbrev SharedCache := CacheArray

namespace SharedCache

/-- `Calculate_Rep_Shared`: the last way without the valid bit. -/
def calculateRepShared (ways : List CacheEntity) : Option ℕ :=
  (ways.zipIdx.reverse.find? fun e => !e.1.valid).map Prod.snd

def searchBlock (c : SharedCache) (blockAddr : UInt64) (reqt : RequestType) :
    Outcome (Bool × SharedCache) :=
  c.search (fun e => e.blockAddr = blockAddr && e.valid) blockAddr reqt

/-- Every way gets what the next one holds, and the last way gets the new line. The ways keep their
timestamps, and in a full set their valid bits. -/
def shift (full : Bool) (blockAddr : UInt64) (dirty : Bool) (pid : Int) :
    List CacheEntity → List CacheEntity
  | [] => []
  | [e] => [{ e with blockAddr := blockAddr, dirty := dirty, pid := pid, valid := e.valid || !full }]
  | e :: next :: ways =>
    { e with blockAddr := next.blockAddr, dirty := next.dirty, pid := next.pid,
             valid := if full then e.valid else next.valid } ::
      shift full blockAddr dirty pid (next :: ways)

/-- A line is added. In a full set the first way leaves; the result is its block when it is dirty,
or `NULL`. -/
def add (c : SharedCache) (blockAddr : UInt64) (reqt : RequestType) (pid : Int) :
    Outcome (UInt64 × SharedCache) := do
  let c := { c with cycle := c.cycle + 1 }
  let index ← c.index blockAddr
  let ways := c.lines index
  match calculateRepShared ways with
  | none =>
    match ways with
    | [] => .error .indexOutOfRange
    | e :: _ =>
      -- the first way holds the oldest fill; its timestamp is not read
      return (if e.dirty then e.blockAddr else NULL,
        c.setWays index (shift true blockAddr (reqt = .write) pid ways))
  | some resAss =>
    return (NULL, c.setWays index
      (ways.take resAss ++ shift false blockAddr (reqt = .write) pid (ways.drop resAss)))

/-- The line that leaves a full set when the block is added. -/
def leaving (c : SharedCache) (blockAddr : UInt64) : Option CacheEntity :=
  let ways := c.lines (blockAddr.toNat % c.maxSet)
  match calculateRepShared ways with
  | none => ways.head?
  | some _ => none

end SharedCache

/-! ### Contents -/

namespace CacheArray

/-- The block is cached. -/
def Present (c : CacheArray) (b : UInt64) : Prop :=
  ∃ e ∈ c.lines (b.toNat % c.maxSet), e.blockAddr = b

/-- The block is cached dirty. -/
def Dirty (c : CacheArray) (b : UInt64) : Prop :=
  ∃ e ∈ c.lines (b.toNat % c.maxSet), e.blockAddr = b ∧ e.dirty = true

/-- The first line of the block is dirty: the test of `ifdirty`. -/
def sees (c : CacheArray) (b : UInt64) : Bool :=
  match (c.lines (b.toNat % c.maxSet)).find? (·.blockAddr = b) with
  | some e => e.dirty
  | none => false

/-- Two lines of one block are blank. -/
def Apart (e f : CacheEntity) : Prop := e.blockAddr = f.blockAddr → e.blockAddr = NULL

instance : Std.Symm Apart := ⟨fun _ _ h heq => heq.trans (h heq.symm)⟩

/-- No set holds a block twice. -/
def Distinct (c : CacheArray) : Prop := ∀ s, (c.lines s).Pairwise Apart

/-- A line without the valid bit is blank. -/
def Marked (c : CacheArray) : Prop := ∀ s, ∀ e ∈ c.lines s, e.valid = false → e.blockAddr = NULL

theorem distinct_create (assoc maxSet : ℕ) : Distinct (create assoc maxSet) := fun _ =>
  List.pairwise_replicate.mpr (.inr fun _ => rfl)

theorem marked_create (assoc maxSet : ℕ) : Marked (create assoc maxSet) := fun _ e he _ => by
  rw [List.eq_of_mem_replicate he]

theorem index_eq_ok {c : CacheArray} {b : UInt64} {i : ℕ} (h : c.index b = .ok i) :
    i = b.toNat % c.maxSet := by
  unfold index at h
  split at h
  · cases h
  · exact (Except.ok.inj h).symm

@[simp] theorem setWays_maxSet (c : CacheArray) (i : ℕ) (ways : List CacheEntity) :
    (c.setWays i ways).maxSet = c.maxSet := rfl

theorem setWays_lines (c : CacheArray) (i s : ℕ) (ways : List CacheEntity) :
    (c.setWays i ways).lines s = if s = i then ways else c.lines s := by
  simp [setWays, Function.update_apply]

theorem Distinct.setWays {c : CacheArray} (h : Distinct c) {i : ℕ} {ways : List CacheEntity}
    (hw : ways.Pairwise Apart) : Distinct (c.setWays i ways) := by
  intro s
  rw [setWays_lines]
  split_ifs
  · exact hw
  · exact h s

theorem Marked.setWays {c : CacheArray} (h : Marked c) {i : ℕ} {ways : List CacheEntity}
    (hw : ∀ e ∈ ways, e.valid = false → e.blockAddr = NULL) : Marked (c.setWays i ways) := by
  intro s
  rw [setWays_lines]
  split_ifs
  · exact hw
  · exact h s

theorem Dirty.setWays {c : CacheArray} {x : UInt64} (h : Dirty c x) {i : ℕ}
    {ways : List CacheEntity} (hw : ∀ e ∈ c.lines i, e.blockAddr = x → e.dirty = true →
      ∃ e' ∈ ways, e'.blockAddr = x ∧ e'.dirty = true) : Dirty (c.setWays i ways) x := by
  obtain ⟨e, he, hb, hd⟩ := h
  unfold Dirty
  rw [setWays_maxSet, setWays_lines]
  split_ifs with hi
  · exact hw e (hi ▸ he) hb hd
  · exact ⟨e, he, hb, hd⟩

/-- **What a search does**: it keeps the blocks of the lines and the dirty ones, a hit of a write
is dirty afterwards, and a miss finds no line that is a hit. -/
theorem search_spec {c c' : CacheArray} {hit : CacheEntity → Bool} {b : UInt64} {t : RequestType}
    {r : Bool} (h : c.search hit b t = .ok (r, c')) (hhit : ∀ e, hit e = true → e.blockAddr = b) :
    c'.maxSet = c.maxSet ∧ (Distinct c → Distinct c') ∧ (Marked c → Marked c') ∧
      (∀ x, Dirty c x → Dirty c' x) ∧ (r = true → t = .write → Dirty c' b) ∧
      (r = false → c'.lines = c.lines ∧ ∀ e ∈ c.lines (b.toNat % c.maxSet), hit e = false) := by
  simp only [search, Outcome.bind_eq_ok] at h
  obtain ⟨i, hi, h⟩ := h
  have hi : i = b.toNat % c.maxSet := index_eq_ok hi
  subst hi
  split_ifs at h with hany
  · cases h
    refine ⟨rfl, fun hd => ?_, fun hm => ?_, fun x hx => ?_, fun _ ht => ?_, nofun⟩
    · exact Distinct.setWays hd (pairwise_update (hd _) (fun _ _ _ h => h) fun _ _ _ h => h)
    · refine Marked.setWays hm fun e he hv => ?_
      rcases mem_update he with he | ⟨f, hf, -, rfl⟩
      · exact hm _ e he hv
      · exact hm _ f hf hv
    · refine Dirty.setWays (c := { c with cycle := c.cycle + 1 }) hx fun e he hb hd => ?_
      rcases mem_or_mem_update he with he | ⟨-, he⟩
      · exact ⟨e, he, hb, hd⟩
      · exact ⟨_, he, hb, by simp [hd]⟩
    · obtain ⟨e, -, hp, hmem⟩ := exists_update hany
      unfold Dirty
      rw [setWays_maxSet, setWays_lines, if_pos rfl]
      exact ⟨_, hmem, hhit e hp, by simp [ht]⟩
  · cases h
    refine ⟨rfl, id, id, fun _ => id, nofun, fun _ => ⟨rfl, fun e he => ?_⟩⟩
    simpa using fun hc => hany (List.any_eq_true.mpr ⟨e, he, hc⟩)

/-- **What a removal does**: it keeps the other dirty blocks. -/
theorem remove_spec {c c' : CacheArray} {b : UInt64} {r : Bool} (h : c.remove b = .ok (r, c')) :
    c'.maxSet = c.maxSet ∧ (Distinct c → Distinct c') ∧ (Marked c → Marked c') ∧
      ∀ x, x ≠ b → Dirty c x → Dirty c' x := by
  simp only [remove, Outcome.bind_eq_ok] at h
  obtain ⟨i, hi, h⟩ := h
  have hi : i = b.toNat % c.maxSet := index_eq_ok hi
  subst hi
  split_ifs at h with hany
  · cases h
    refine ⟨rfl, fun hd => ?_, fun hm => ?_, fun x hxb hx => ?_⟩
    · refine Distinct.setWays hd (pairwise_update (hd _) (fun _ _ _ _ _ => rfl) ?_)
      intro x y _ _ hy
      exact hy
    · refine Marked.setWays hm fun e he hv => ?_
      rcases mem_update he with he | ⟨e, he, -, rfl⟩
      · exact hm _ e he hv
      · rfl
    · refine Dirty.setWays (c := { c with cycle := c.cycle + 1 }) hx fun e he hb hd => ?_
      exact ⟨e, mem_update_of_not he (by simp [hb, hxb]), hb, hd⟩
  · cases h
    exact ⟨rfl, id, id, fun _ _ => id⟩

theorem ifdirty_eq_ok {c c' : CacheArray} {b : UInt64} {r : Bool} (h : c.ifdirty b = .ok (r, c')) :
    r = c.sees b ∧ c'.lines = c.lines ∧ c'.maxSet = c.maxSet := by
  simp only [ifdirty, Outcome.bind_eq_ok] at h
  obtain ⟨i, hi, h⟩ := h
  have hi : i = b.toNat % c.maxSet := index_eq_ok hi
  subst hi
  unfold sees
  cases hfind : (c.lines (b.toNat % c.maxSet)).find? (·.blockAddr = b) with
  | some e =>
    rw [hfind] at h
    cases h
    exact ⟨rfl, rfl, rfl⟩
  | none =>
    rw [hfind] at h
    cases h
    exact ⟨rfl, rfl, rfl⟩

theorem sees_congr {c c' : CacheArray} (hlines : c'.lines = c.lines)
    (hmax : c'.maxSet = c.maxSet) (b : UInt64) : c'.sees b = c.sees b := by
  unfold sees
  rw [hlines, hmax]

/-- **`ifdirty` answers** whether the block is dirty, and changes no line. -/
theorem ifdirty_spec {c c' : CacheArray} {b : UInt64} {r : Bool} (h : c.ifdirty b = .ok (r, c')) :
    c'.maxSet = c.maxSet ∧ c'.lines = c.lines ∧
      (r = true → Dirty c b) ∧ (Distinct c → b ≠ NULL → Dirty c b → r = true) := by
  simp only [ifdirty, Outcome.bind_eq_ok] at h
  obtain ⟨i, hi, h⟩ := h
  have hi : i = b.toNat % c.maxSet := index_eq_ok hi
  subst hi
  split at h
  · next e he =>
    cases h
    have hmem := List.mem_of_find?_eq_some he
    have hb : e.blockAddr = b := by simpa using List.find?_some he
    refine ⟨rfl, rfl, fun hd => ⟨e, hmem, hb, hd⟩, ?_⟩
    rintro hdis hnull ⟨f, hf, hfb, hfd⟩
    -- The set holds the block once, so the dirty line is the one found.
    have hef : e = f := by
      by_contra hne
      exact hnull (hb ▸ (hdis _).forall hmem hf hne (hb.trans hfb.symm))
    rw [hef, hfd]
  · next he =>
    cases h
    refine ⟨rfl, rfl, nofun, ?_⟩
    rintro - - ⟨f, hf, hfb, -⟩
    have := List.find?_eq_none.mp he f hf
    simp [hfb] at this

end CacheArray

open CacheArray

namespace Cache

/-- The chosen way is blank, or the line in it is replaced. -/
theorem calculateRep_spec {ways : List CacheEntity} {i k : ℕ} {m : Option ℕ} {t : UInt64}
    (h : calculateRep ways i m t = (false, some k)) :
    i ≤ k ∧ ∃ e, ways[k - i]? = some e ∧ e.blockAddr = NULL := by
  induction ways generalizing i m t with
  | nil => cases m <;> simp [calculateRep] at h
  | cons e ways ih =>
    rw [calculateRep] at h
    split_ifs at h with hnull hlt
    · obtain rfl : i = k := by simpa using h
      exact ⟨Nat.le_refl i, e, by simp, hnull⟩
    all_goals
      obtain ⟨hle, f, hf, hfnull⟩ := ih h
      refine ⟨by omega, f, ?_, hfnull⟩
      rwa [show k - i = k - (i + 1) + 1 by omega, List.getElem?_cons_succ]

/-- **What a fill does**: the new block is dirty after a write, and of the dirty blocks only the
one answered leaves. -/
theorem add_spec {c c' : Cache} {b v : UInt64} {t : RequestType} {pid : Int}
    (h : add c b t pid = .ok (v, c')) (hb : ¬ Present c b) :
    c'.maxSet = c.maxSet ∧ (Distinct c → Distinct c') ∧ (t = .write → Dirty c' b) ∧
      ∀ x, x ≠ NULL → Dirty c x → x = v ∨ Dirty c' x := by
  simp only [add, Outcome.bind_eq_ok] at h
  obtain ⟨i, hi, h⟩ := h
  have hi : i = b.toNat % c.maxSet := index_eq_ok hi
  subst hi
  split at h
  · cases h
  next res k hrep =>
  split at h
  · cases h
  next e he =>
  obtain ⟨hk, hek⟩ := List.getElem?_eq_some_iff.mp he
  cases h
  -- The block was not present, so that the way `k` cannot repeat another.
  refine ⟨rfl, fun hd => ?_, fun ht => ?_, fun x hx hdirty => ?_⟩
  · refine Distinct.setWays hd (pairwise_set (hd _) k ?_ ?_)
    · intro y hy heq
      exact absurd ⟨y, hy, heq.symm⟩ hb
    · intro y hy heq
      exact absurd ⟨y, hy, heq⟩ hb
  · unfold Dirty
    rw [setWays_maxSet, setWays_lines, if_pos rfl]
    exact ⟨_, List.mem_set hk _, rfl, by simp [ht]⟩
  · by_cases hxe : x = e.blockAddr ∧ e.dirty = true
    · -- The line replaced is the dirty line of `x`: the way is not blank.
      refine .inl ?_
      cases res with
      | true => simp [hxe.1, hxe.2]
      | false =>
        obtain ⟨-, f, hf, hfnull⟩ := calculateRep_spec hrep
        rw [Nat.sub_zero, he] at hf
        cases hf
        exact absurd (hxe.1.trans hfnull) hx
    · refine .inr (Dirty.setWays (c := { c with cycle := c.cycle + 1 }) hdirty ?_)
      intro f hf hfb hfd
      obtain ⟨j, hj, rfl⟩ := List.getElem_of_mem hf
      have hjk : k ≠ j := by
        rintro rfl
        exact hxe ⟨by rw [← hek, hfb], by rw [← hek, hfd]⟩
      exact ⟨_, List.mem_of_getElem? ((List.getElem?_set_ne hjk).trans
        (List.getElem?_eq_getElem hj)), hfb, hfd⟩

/-- The block that a fill answers is the one that `evicted` names. -/
theorem evicted_of_add {c c' : Cache} {b v : UInt64} {t : RequestType} {pid : Int}
    (h : add c b t pid = .ok (v, c')) (hb : ¬ Present c b) (hv : v ≠ NULL) :
    evicted c b = some v := by
  simp only [add, Outcome.bind_eq_ok] at h
  obtain ⟨i, hi, h⟩ := h
  have hi : i = b.toNat % c.maxSet := index_eq_ok hi
  subst hi
  have hnone : (c.lines (b.toNat % c.maxSet)).any (·.blockAddr = b) = false := by
    rw [List.any_eq_false]
    exact fun e he heb => hb ⟨e, he, by simpa using heb⟩
  split at h
  · cases h
  next res k hrep =>
  split at h
  · cases h
  next e he =>
  replace hrep : calculateRep (c.lines (b.toNat % c.maxSet)) 0 none NULL = (res, some k) := hrep
  replace he : (c.lines (b.toNat % c.maxSet))[k]? = some e := he
  have hanswer : (if (res && e.dirty) = true then e.blockAddr else NULL) = v :=
    congrArg Prod.fst (Except.ok.inj h)
  -- Only a dirty line that is replaced is answered.
  have hdirty : (res && e.dirty) = true := by
    by_contra hclean
    rw [if_neg hclean] at hanswer
    exact hv hanswer.symm
  rw [if_pos hdirty] at hanswer
  obtain ⟨rfl, hd⟩ := Bool.and_eq_true_iff.mp hdirty
  unfold evicted
  dsimp only
  rw [if_neg (by simp [hnone]), hrep]
  simp [he, hd, hanswer]

end Cache

namespace SharedCache

/-- What a line holds. -/
def held (e : CacheEntity) : UInt64 × Bool × Bool := (e.blockAddr, e.dirty, e.valid)

/-- A shift drops what the first way holds, and appends the new line. -/
theorem map_held_shift (b : UInt64) (d : Bool) (pid : Int) (e : CacheEntity)
    (ways : List CacheEntity) :
    (shift false b d pid (e :: ways)).map held = ways.map held ++ [(b, d, true)] := by
  induction ways generalizing e with
  | nil => simp [shift, held]
  | cons next ways ih =>
    rw [shift, List.map_cons, ih]
    simp [held]

/-- In a set without a blank way, keeping the valid bits is shifting them. -/
theorem shift_full {ways : List CacheEntity} (h : ∀ e ∈ ways, e.valid = true) (b : UInt64)
    (d : Bool) (pid : Int) : shift true b d pid ways = shift false b d pid ways := by
  induction ways with
  | nil => rfl
  | cons e ways ih =>
    cases ways with
    | nil => simp [shift, h e (by simp)]
    | cons next ways =>
      rw [shift, shift, ih fun f hf => h f (by simp [hf])]
      simp [h e (by simp), h next (by simp)]

/-- Shifting the ways behind some others keeps what was apart apart, and blanks blank. -/
theorem shift_spec {pre post : List CacheEntity} {e : CacheEntity} {b : UInt64} {d : Bool}
    {pid : Int} (hdis : (pre ++ e :: post).Pairwise Apart)
    (hb : ∀ f ∈ pre ++ e :: post, f.blockAddr = b → b = NULL) :
    (pre ++ shift false b d pid (e :: post)).Pairwise Apart := by
  have hmap : (pre ++ shift false b d pid (e :: post)).map (·.blockAddr) =
      (pre ++ post).map (·.blockAddr) ++ [b] := by
    have := congrArg (List.map Prod.fst) (map_held_shift b d pid e post)
    simp only [List.map_map, List.map_append] at this
    simp only [List.map_append, List.append_assoc]
    rw [List.append_cancel_left_eq]
    exact this
  have happ : ∀ ways : List CacheEntity, ways.Pairwise Apart ↔
      (ways.map (·.blockAddr)).Pairwise fun x y => x = y → x = NULL := fun ways => by
    rw [List.pairwise_map]
    rfl
  rw [happ, hmap, List.pairwise_append, ← happ]
  refine ⟨hdis.sublist (List.append_sublist_append_left pre |>.mpr (List.sublist_cons_self e post)),
    List.pairwise_singleton _ _, ?_⟩
  intro x hx y hy hxy
  obtain ⟨f, hf, rfl⟩ := List.mem_map.mp hx
  rw [List.mem_singleton] at hy
  subst hy
  rw [hxy]
  refine hb f ?_ hxy
  rcases List.mem_append.mp hf with hf | hf <;> simp [hf]

theorem mem_shift (e : CacheEntity) (b : UInt64) (d : Bool) (pid : Int) {f : CacheEntity}
    {post : List CacheEntity} (h : f ∈ post) : ∃ g ∈ shift false b d pid (e :: post), held g = held f := by
  have hmem : held f ∈ (shift false b d pid (e :: post)).map held := by
    rw [map_held_shift]
    exact List.mem_append_left _ (List.mem_map_of_mem h)
  obtain ⟨g, hg, heq⟩ := List.mem_map.mp hmem
  exact ⟨g, hg, heq⟩

theorem of_mem_shift {e g : CacheEntity} {post : List CacheEntity} {b : UInt64} {d : Bool}
    {pid : Int} (h : g ∈ shift false b d pid (e :: post)) :
    (∃ f ∈ post, held g = held f) ∨ held g = (b, d, true) := by
  have hmem : held g ∈ (shift false b d pid (e :: post)).map held := List.mem_map_of_mem h
  rw [map_held_shift] at hmem
  rcases List.mem_append.mp hmem with hmem | hmem
  · obtain ⟨f, hf, heq⟩ := List.mem_map.mp hmem
    exact .inl ⟨f, hf, heq.symm⟩
  · exact .inr (List.mem_singleton.mp hmem)

theorem calculateRepShared_none {ways : List CacheEntity} (h : calculateRepShared ways = none) :
    ∀ e ∈ ways, e.valid = true := by
  intro e he
  obtain ⟨i, hi⟩ := List.getElem?_of_mem he
  have hfind := List.find?_eq_none.mp (Option.map_eq_none_iff.mp h) (e, i)
    (List.mem_reverse.mpr (List.mk_mem_zipIdx_iff_getElem?.mpr hi))
  simpa using hfind

theorem calculateRepShared_some {ways : List CacheEntity} {k : ℕ}
    (h : calculateRepShared ways = some k) : ∃ e, ways[k]? = some e ∧ e.valid = false := by
  obtain ⟨⟨e, i⟩, hfind, rfl⟩ := Option.map_eq_some_iff.mp h
  have hmem := List.mem_reverse.mp (List.mem_of_find?_eq_some hfind)
  exact ⟨e, List.mk_mem_zipIdx_iff_getElem?.mp hmem, by simpa using List.find?_some hfind⟩

/-- A fill shifts the ways behind some others; the way it starts at is blank, or it is the line that
leaves, and the answer names its block when it is dirty. -/
theorem add_eq_ok {c c' : SharedCache} {b v : UInt64} {t : RequestType} {pid : Int}
    (h : add c b t pid = .ok (v, c')) (hm : Marked c) :
    ∃ pre e post, c.lines (b.toNat % c.maxSet) = pre ++ e :: post ∧
      c' = CacheArray.setWays { c with cycle := c.cycle + 1 } (b.toNat % c.maxSet)
        (pre ++ shift false b (t = .write) pid (e :: post)) ∧
      (e.blockAddr = NULL ∨ leaving c b = some e ∧ v = if e.dirty then e.blockAddr else NULL) := by
  simp only [add, Outcome.bind_eq_ok] at h
  obtain ⟨i, hi, h⟩ := h
  have hi : i = b.toNat % c.maxSet := index_eq_ok hi
  subst hi
  split at h
  · next hrep =>
    have hvalid := calculateRepShared_none hrep
    rw [shift_full hvalid] at h
    split at h
    · cases h
    · next e post hways =>
      cases h
      refine ⟨[], e, post, hways, ?_, .inr ⟨?_, rfl⟩⟩
      · rw [hways]
        rfl
      · have hrep' : calculateRepShared (c.lines (b.toNat % c.maxSet)) = none := hrep
        have hhead : c.lines (b.toNat % c.maxSet) = e :: post := hways
        unfold leaving
        dsimp only
        rw [hrep', hhead]
        rfl
  · next k hrep =>
    obtain ⟨e, hk, hinvalid⟩ := calculateRepShared_some hrep
    obtain ⟨hlt, hek⟩ := List.getElem?_eq_some_iff.mp hk
    have hdrop : (c.lines (b.toNat % c.maxSet)).drop k =
        e :: (c.lines (b.toNat % c.maxSet)).drop (k + 1) := by
      rw [← hek]
      exact List.drop_eq_getElem_cons hlt
    cases h
    refine ⟨(c.lines (b.toNat % c.maxSet)).take k, e,
      (c.lines (b.toNat % c.maxSet)).drop (k + 1), ?_, ?_, .inl ?_⟩
    · rw [← hdrop, List.take_append_drop]
    · rw [← hdrop]
    · exact hm _ e (List.mem_of_getElem? hk) hinvalid

/-- **What a fill does**: the new block is dirty after a write, and of the dirty blocks only the
one answered leaves. -/
theorem add_spec {c c' : SharedCache} {b v : UInt64} {t : RequestType} {pid : Int}
    (h : add c b t pid = .ok (v, c')) (hb : b ≠ NULL → ¬ Present c b) (hm : Marked c) :
    c'.maxSet = c.maxSet ∧ (Distinct c → Distinct c') ∧ Marked c' ∧ (t = .write → Dirty c' b) ∧
      ∀ x, x ≠ NULL → Dirty c x → x = v ∨ Dirty c' x := by
  obtain ⟨pre, e, post, hways, rfl, he⟩ := add_eq_ok h hm
  have hnew : ∃ g ∈ shift false b (decide (t = .write)) pid (e :: post),
      held g = (b, decide (t = .write), true) := by
    have hmem : (b, decide (t = .write), true) ∈
        (shift false b (decide (t = .write)) pid (e :: post)).map held := by
      rw [map_held_shift]
      exact List.mem_append_right _ (List.mem_singleton_self _)
    exact List.mem_map.mp hmem
  refine ⟨rfl, fun hd => ?_, ?_, fun ht => ?_, fun x hx hdirty => ?_⟩
  · refine Distinct.setWays hd (shift_spec (hways ▸ hd _) fun f hf hfb => ?_)
    by_contra hne
    exact hb hne ⟨f, hways ▸ hf, hfb⟩
  · refine Marked.setWays hm fun f hf hv => ?_
    rcases List.mem_append.mp hf with hf | hf
    · exact hm _ f (by rw [hways]; simp [hf]) hv
    · rcases of_mem_shift hf with ⟨g, hg, heq⟩ | heq
      · obtain ⟨hgb, -, hgv⟩ : f.blockAddr = g.blockAddr ∧ f.dirty = g.dirty ∧ f.valid = g.valid := by
          simpa [held] using heq
        rw [hgb]
        exact hm _ g (by rw [hways]; simp [hg]) (hgv ▸ hv)
      · have hfv : f.valid = true := by simpa [held] using congrArg (·.2.2) heq
        rw [hfv] at hv
        cases hv
  · obtain ⟨g, hg, heq⟩ := hnew
    unfold Dirty
    rw [setWays_maxSet, setWays_lines, if_pos rfl]
    refine ⟨g, List.mem_append_right pre hg, congrArg Prod.fst heq, ?_⟩
    simpa [held, ht] using congrArg (·.2.1) heq
  · by_cases hxe : x = e.blockAddr ∧ e.dirty = true
    · rcases he with hnull | ⟨-, hv⟩
      · exact absurd (hxe.1.trans hnull) hx
      · rw [if_pos hxe.2] at hv
        exact .inl (hxe.1.trans hv.symm)
    · refine .inr (Dirty.setWays (c := { c with cycle := c.cycle + 1 }) hdirty ?_)
      intro f hf hfb hfd
      replace hf : f ∈ pre ++ e :: post := hways ▸ hf
      rcases List.mem_append.mp hf with hf | hf
      · exact ⟨f, List.mem_append_left _ hf, hfb, hfd⟩
      · rcases List.mem_cons.mp hf with rfl | hf
        · exact absurd ⟨hfb.symm, hfd⟩ hxe
        · obtain ⟨g, hg, heq⟩ := mem_shift e b (decide (t = .write)) pid hf
          exact ⟨g, List.mem_append_right _ hg, (congrArg Prod.fst heq).trans hfb,
            (congrArg (·.2.1) heq).trans hfd⟩

end SharedCache

end PIMSim
