import PIMSim.Procs.Proc
import PIMSim.Procs.SharedReplacement

/-!
# The block size

The constructors of the caches divide by the block size to get their number of sets. Nothing else
reads it: the translation keeps the offset of an address in its page, and the caches look up the
translated address as it is.

## Main definitions

* `CacheArray.construct`: the constructor of both caches
* `SameBlock`: two addresses in one block
* `TranslatesBlocks`, `CachesBlocks`: the translation and the caches see an address only through its
  block

## Main results

* `coversBlocks_iff`: so they do only when a block is one address
-/

namespace PIMSim

open CSharp CacheArray Transition

/-- The constructor of both caches: the block size goes into the number of sets. -/
def CacheArray.construct (blockSize assoc size : ℕ) : Outcome CacheArray :=
  if blockSize * assoc = 0 then .error .divideByZero
  else .ok (create assoc (size / (blockSize * assoc)))

/-- Two addresses in one block. -/
def SameBlock (blockSize : ℕ) (a a' : UInt64) : Prop := a.toNat / blockSize = a'.toNat / blockSize

/-- The block address that `get_ins_from_insp` gives to a memory instruction of the address. -/
def Core.fetchedBlock (c : Core) (addr : UInt64) : Outcome UInt64 :=
  ({ c with proc := { c.proc with insP := [.instruction { address := addr, isMem := true }] } } :
    Core).getInsFromInsp.map fun r => r.1.blockAddr

/-- Instructions of one block get one block address, whatever the page table is. -/
def TranslatesBlocks (blockSize : ℕ) : Prop :=
  ∀ (c : Core) (a a' : UInt64), SameBlock blockSize a a' → c.fetchedBlock a = c.fetchedBlock a'

/-- The calls of a cache do the same for the addresses of one block, after every run. -/
def CachesBlocks (m : CacheMethods) (blockSize : ℕ) : Prop :=
  ∀ assoc size cache, construct blockSize assoc size = .ok cache →
    ∀ calls s, exec (CacheRun.step m) { cache := cache } calls = .ok s →
      ∀ a a', SameBlock blockSize a a' → ∀ t pid,
        m.searchBlock s.cache a t = m.searchBlock s.cache a' t ∧
          m.add s.cache a t pid = m.add s.cache a' t pid ∧
          s.cache.remove a = s.cache.remove a' ∧ s.cache.ifdirty a = s.cache.ifdirty a'

/-- **A block is covered as a whole** by the translation and by both caches. -/
structure CoversBlocks (blockSize : ℕ) : Prop where
  translates : TranslatesBlocks blockSize
  caches : CachesBlocks Cache.methods blockSize
  shared : CachesBlocks SharedCache.methods blockSize

theorem sameBlock_one {a a' : UInt64} (h : SameBlock 1 a a') : a = a' := by
  simpa [SameBlock, UInt64.toNat_inj] using h

/-- The first two addresses are in one block. -/
theorem sameBlock_zero_one {blockSize : ℕ} (h : 1 < blockSize) : SameBlock blockSize 0 1 := by
  show 0 / blockSize = 1 / blockSize
  rw [Nat.zero_div, Nat.div_eq_of_lt h]

/-- A core whose page table is empty. -/
def emptyCore : Core where
  proc := { pid := 0, l1Cache := create 1 1, insW := { ins := [], size := 4 } }
  world := {
    sharedCache := create 1 1
    tlb := PageConverter.create 4096 1 1 1 false
    mctrl := Controller.init 1 }

/-- The translation keeps two addresses of a page apart. -/
theorem not_translatesBlocks {blockSize : ℕ} (h : 1 < blockSize) : ¬ TranslatesBlocks blockSize := by
  intro hall
  exact absurd (hall emptyCore 0 1 (sameBlock_zero_one h)) (by decide +kernel)

/-- A cache of one line keeps two addresses of a block apart. -/
theorem not_cachesBlocks {m : CacheMethods} {blockSize : ℕ} (h : 1 < blockSize)
    (hm : (exec (CacheRun.step m) (CacheRun.init 1 1) [.add 0 .read 0]).map (fun s =>
      ((m.searchBlock s.cache 0 .read).map Prod.fst, (m.searchBlock s.cache 1 .read).map Prod.fst)) =
        .ok (.ok true, .ok false)) : ¬ CachesBlocks m blockSize := by
  intro hall
  obtain ⟨s, hs, hhits⟩ := Outcome.exists_of_map_eq_ok hm
  obtain ⟨hzero, hone⟩ := Prod.mk.inj hhits
  have hcache : construct blockSize 1 blockSize = .ok (create 1 1) := by
    have hpos : 0 < blockSize := by omega
    unfold construct
    rw [Nat.mul_one, if_neg (Nat.ne_of_gt hpos), Nat.div_self hpos]
  have hsame := (hall 1 blockSize _ hcache _ s hs 0 1 (sameBlock_zero_one h) .read 0).1
  rw [hsame, hone] at hzero
  cases hzero

/-- **A block is covered as a whole** if and only if it is one address: so do the translation and
each of the caches. -/
theorem coversBlocks_iff (blockSize : ℕ) (h : 0 < blockSize) :
    (CoversBlocks blockSize ↔ blockSize = 1) ∧ (TranslatesBlocks blockSize ↔ blockSize = 1) ∧
      (CachesBlocks Cache.methods blockSize ↔ blockSize = 1) ∧
      (CachesBlocks SharedCache.methods blockSize ↔ blockSize = 1) := by
  have htranslates : TranslatesBlocks blockSize ↔ blockSize = 1 := by
    constructor
    · intro hall
      by_contra hne
      exact not_translatesBlocks (by omega) hall
    · rintro rfl c a a' hsame
      rw [sameBlock_one hsame]
  have hcaches : ∀ m : CacheMethods, (1 < blockSize → ¬ CachesBlocks m blockSize) →
      (CachesBlocks m blockSize ↔ blockSize = 1) := by
    intro m hno
    constructor
    · intro hall
      by_contra hne
      exact hno (by omega) hall
    · rintro rfl assoc size cache - calls s - a a' hsame t pid
      rw [sameBlock_one hsame]
      exact ⟨rfl, rfl, rfl, rfl⟩
  have hl1 := hcaches Cache.methods fun hlt => not_cachesBlocks hlt (by decide +kernel)
  have hshared := hcaches SharedCache.methods fun hlt => not_cachesBlocks hlt (by decide +kernel)
  refine ⟨⟨fun hall => htranslates.mp hall.translates, fun hone => ?_⟩, htranslates, hl1, hshared⟩
  exact ⟨htranslates.mpr hone, hl1.mpr hone, hshared.mpr hone⟩

/-- Blocks of one address are covered, and blocks of 64 addresses by none of the three. -/
theorem coversBlocks_one : CoversBlocks 1 ∧ ¬ CachesBlocks Cache.methods 64 :=
  ⟨(coversBlocks_iff 1 (by decide)).1.mpr rfl,
    fun h => absurd ((coversBlocks_iff 64 (by decide)).2.2.1.mp h) (by decide)⟩

/-- Blocks of 64 addresses are not covered. -/
theorem not_coversBlocks_64 : ¬ CoversBlocks 64 := fun h =>
  not_translatesBlocks (by decide) h.translates

end PIMSim
