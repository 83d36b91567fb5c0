import Mathlib.Data.List.Forall2
import Mathlib.Logic.Function.Basic
import PIMSim.Library.Checked

/-!
# The flush before a command

Before a host processor sends a command to a kernel, it flushes its caches: the cache at each position
of its list is flushed of the operand at the same position. A dirty block is written to the memory by a
functional write, which reaches it.

## Main definitions

* `Cache.check_addr`, `Cache.flushPIM`: whether a cache holds the block of an address, and its flush
* `flushOperands`: the flush loop of a command, with the caches and the physical addresses of the
  operands
* `Latest`: the latest data of a block
* `Issued`: a command is issued with no copy of its operands in the caches and their latest data in the
  memory
* `Paired`: each cache holds at most one block, and only of the operand at its position

## Main results

* `Cache.flushPIM_eq_ok`: what a flush does to the cache and to the memory
* `issued_iff_paired`: a command is issued so exactly when the caches are paired with the operands
-/

namespace PIMSim.Gem5

open Cpp

variable {δ : Type}

/-- A block of a cache, by the number of its memory line. -/
structure CacheBlk (δ : Type) where
  line : ℕ
  isValid : Bool
  isSecure : Bool
  isDirty : Bool
  data : δ
deriving DecidableEq, Repr

/-- The block is a valid copy of the line. -/
def CacheBlk.holds (l : ℕ) (b : CacheBlk δ) : Bool := b.isValid && b.line == l

/-- A cache. -/
structure Cache (δ : Type) where
  blks : List (CacheBlk δ)
deriving DecidableEq, Repr

namespace Cache

variable (blkSize : ℕ) (c : Cache δ)

/-- The valid block of a line, in the secure or in the other address space. -/
def findBlock (l : ℕ) (secure : Bool) : Option ℕ :=
  c.blks.findIdx? fun b => b.holds l && b.isSecure == secure

/-- The block of a line, the secure one first. -/
def lookup (l : ℕ) : Option ℕ := (c.findBlock l true).or (c.findBlock l false)

/-- The cache holds the block of an address. -/
def check_addr (start_addr : ℕ) : Bool := (c.lookup (start_addr / blkSize)).isSome

/-- The block is invalidated. -/
def invalidate (n : ℕ) : Cache δ where
  blks := c.blks.modify n fun b => { b with isValid := false, isDirty := false }

/-- A block is written back when it is dirty, and invalidated. -/
def flushPIM (memory : ℕ → δ) (start_addr : ℕ) : Outcome (Bool × Cache δ × (ℕ → δ)) :=
  let l := start_addr / blkSize
  match c.lookup l with
  | none => return (false, c, memory)
  | some n => do
    let blk ← vectorAt "flushPIM" c.blks n
    let memory := if blk.isDirty then Function.update memory l blk.data else memory
    let c := c.invalidate n
    let _ ← assert (c.findBlock l true = none ∧ c.findBlock l false = none)
    return (true, c, memory)

end Cache

/-- The flush loop of a command: the cache at each position is flushed of the operand at the same
position. -/
def flushOperands (blkSize : ℕ) :
    List ℕ → List (Cache δ) → (ℕ → δ) → Outcome (List (Cache δ) × (ℕ → δ))
  | _, [], memory => return ([], memory)
  | [], _ :: _, _ => .error (.outOfRange "PIMCommand")
  | a :: pimpAddr, c :: pCaches, memory => do
    let (c, memory) ←
      if c.check_addr blkSize a then do
        let (_, c, memory) ← c.flushPIM blkSize memory a
        pure (c, memory)
      else pure (c, memory)
    let (pCaches, memory) ← flushOperands blkSize pimpAddr pCaches memory
    return (c :: pCaches, memory)

/-! ### One cache -/

namespace Cache

variable {blkSize : ℕ} {c c' : Cache δ} {memory memory' : ℕ → δ} {l n : ℕ}

/-- The number of valid copies of a line. -/
def copies (c : Cache δ) (l : ℕ) : ℕ := c.blks.countP (CacheBlk.holds l)

theorem findBlock_eq_none :
    c.findBlock l true = none ∧ c.findBlock l false = none ↔ c.copies l = 0 := by
  unfold findBlock copies
  rw [List.findIdx?_eq_none_iff, List.findIdx?_eq_none_iff, List.countP_eq_zero]
  constructor
  · rintro ⟨hsecure, hplain⟩ b hb hholds
    cases hs : b.isSecure with
    | true => simpa [hholds, hs] using hsecure b hb
    | false => simpa [hholds, hs] using hplain b hb
  · intro h
    constructor <;> intro b hb <;> simp [h b hb]

theorem lookup_eq_none : c.lookup l = none ↔ c.copies l = 0 := by
  rw [← findBlock_eq_none, lookup, Option.or_eq_none_iff]

theorem exists_of_lookup (h : c.lookup l = some n) :
    ∃ b, c.blks[n]? = some b ∧ b.holds l = true := by
  have hfound {secure : Bool} (h : c.findBlock l secure = some n) :
      ∃ b, c.blks[n]? = some b ∧ b.holds l = true := by
    obtain ⟨hlt, hb, -⟩ := List.findIdx?_eq_some_iff_getElem.mp h
    exact ⟨c.blks[n], List.getElem?_eq_getElem hlt, (Bool.and_eq_true_iff.mp hb).1⟩
  rcases Option.or_eq_some_iff.mp h with h | ⟨-, h⟩
  · exact hfound h
  · exact hfound h

/-- Invalidating a valid copy of a line takes that copy away. -/
theorem copies_invalidate {b : CacheBlk δ} (hb : c.blks[n]? = some b) (hholds : b.holds l = true)
    (l' : ℕ) : (c.invalidate n).copies l' = if l' = l then c.copies l - 1 else c.copies l' := by
  obtain ⟨hn, hget⟩ := List.getElem?_eq_some_iff.mp hb
  have hline : b.isValid = true ∧ b.line = l := by simpa [CacheBlk.holds] using hholds
  have hset : (c.invalidate n).blks = c.blks.set n { b with isValid := false, isDirty := false } := by
    apply List.ext_getElem?
    intro i
    by_cases hi : n = i
    · subst hi
      simp [invalidate, hget, hn]
    · simp [invalidate, hi]
  have hcount : (c.invalidate n).copies l' = c.copies l' - if b.holds l' then 1 else 0 := by
    simp [copies, hset, List.countP_set hn, hget, CacheBlk.holds]
  rw [hcount]
  by_cases hl : l' = l
  · subst hl
    simp [hholds]
  · have hnot : b.holds l' = false := by simp [CacheBlk.holds, hline.2, Ne.symm hl]
    simp [hnot, hl]

/-- Two copies of a line of which the cache has one are the same. -/
theorem eq_of_copies_le_one (h : c.copies l ≤ 1) {b b' : CacheBlk δ} (hb : b ∈ c.blks)
    (hb' : b' ∈ c.blks) (hholds : b.holds l = true) (hholds' : b'.holds l = true) : b = b' := by
  have hmem : b ∈ c.blks.filter (CacheBlk.holds l) := List.mem_filter.mpr ⟨hb, hholds⟩
  have hmem' : b' ∈ c.blks.filter (CacheBlk.holds l) := List.mem_filter.mpr ⟨hb', hholds'⟩
  rw [copies, List.countP_eq_length_filter] at h
  match hfilter : c.blks.filter (CacheBlk.holds l) with
  | [] => simp [hfilter] at hmem
  | [x] =>
    rw [hfilter, List.mem_singleton] at hmem hmem'
    exact hmem.trans hmem'.symm
  | x :: y :: rest => simp [hfilter] at h

/-- The flush of a line the cache has. -/
theorem flushPIM_of_lookup {a : ℕ} {b : CacheBlk δ} (h : c.lookup (a / blkSize) = some n)
    (hb : c.blks[n]? = some b) :
    c.flushPIM blkSize memory a =
      (assert (((c.invalidate n).findBlock (a / blkSize) true = none ∧
        (c.invalidate n).findBlock (a / blkSize) false = none)) >>= fun _ =>
          .ok (true, c.invalidate n,
            if b.isDirty then Function.update memory (a / blkSize) b.data else memory)) := by
  have haccess : vectorAt "flushPIM" c.blks n = .ok b := vectorAt_eq_ok.mpr hb
  simp only [flushPIM, h, haccess]
  rfl

/-- What the flush of a line does: its one copy goes, with its data when it is dirty. -/
structure Flushed (l : ℕ) (c : Cache δ) (memory : ℕ → δ) (c' : Cache δ) (memory' : ℕ → δ) :
    Prop where
  copies_le : c.copies l ≤ 1
  copies_eq : ∀ l', c'.copies l' = if l' = l then 0 else c.copies l'
  frame : ∀ l' ≠ l, memory' l' = memory l'
  dirty : ∀ b ∈ c.blks, b.holds l = true → b.isDirty = true → memory' l = b.data
  clean : (∀ b ∈ c.blks, b.holds l = true → b.isDirty = false) → memory' l = memory l

/-- A line the cache has no copy of is not flushed. -/
theorem Flushed.of_copies_eq_zero (h : c.copies l = 0) : Flushed l c memory c memory := by
  refine ⟨by omega, ?_, fun _ _ => rfl, ?_, fun _ => rfl⟩
  · intro l'
    by_cases hl : l' = l
    · rw [if_pos hl, hl, h]
    · rw [if_neg hl]
  · intro b hb hholds
    exact absurd hholds (List.countP_eq_zero.mp h b hb)

/-- The only copy of a line is invalidated, and written back when it is dirty. -/
theorem Flushed.of_invalidate {b : CacheBlk δ} (hb : c.blks[n]? = some b)
    (hholds : b.holds l = true) (hone : c.copies l ≤ 1) :
    Flushed l c memory (c.invalidate n)
      (if b.isDirty then Function.update memory l b.data else memory) := by
  have hmem : b ∈ c.blks := List.mem_of_getElem? hb
  refine ⟨hone, ?_, ?_, ?_, ?_⟩
  · intro l'
    rw [copies_invalidate hb hholds, Nat.sub_eq_zero_of_le hone]
  · intro l' hl
    by_cases hdirty : b.isDirty = true
    · rw [if_pos hdirty, Function.update_of_ne hl]
    · rw [if_neg hdirty]
  · intro b' hb' hholds' hdirty
    -- the dirty copy is the one that was found
    rw [eq_of_copies_le_one hone hb' hmem hholds' hholds] at hdirty ⊢
    rw [if_pos hdirty, Function.update_self]
  · intro hclean
    simp [hclean b hmem hholds]

/-- A flush finds nothing, or invalidates the copy it finds. -/
theorem flushPIM_cases (blkSize : ℕ) (c : Cache δ) (memory : ℕ → δ) (a : ℕ) :
    c.copies (a / blkSize) = 0 ∧ c.flushPIM blkSize memory a = .ok (false, c, memory) ∨
    ∃ n b, c.blks[n]? = some b ∧ b.holds (a / blkSize) = true ∧
      c.lookup (a / blkSize) = some n ∧
      c.copies (a / blkSize) = (c.invalidate n).copies (a / blkSize) + 1 := by
  cases hlookup : c.lookup (a / blkSize) with
  | none =>
    refine Or.inl ⟨lookup_eq_none.mp hlookup, ?_⟩
    simp only [flushPIM, hlookup]
    rfl
  | some n =>
    obtain ⟨b, hb, hholds⟩ := exists_of_lookup hlookup
    have hpos : c.copies (a / blkSize) ≠ 0 := by
      intro hzero
      simp [lookup_eq_none.mpr hzero] at hlookup
    refine Or.inr ⟨n, b, hb, hholds, rfl, ?_⟩
    rw [copies_invalidate hb hholds, if_pos rfl]
    omega

/-- The flush of a line of which the cache has at most one copy. -/
theorem exists_flushPIM {a : ℕ} (h : c.copies (a / blkSize) ≤ 1) :
    ∃ r, c.flushPIM blkSize memory a = .ok r := by
  obtain ⟨-, hnone⟩ | ⟨n, b, hb, -, hlookup, hcount⟩ := flushPIM_cases blkSize c memory a
  · exact ⟨_, hnone⟩
  · have hzero : (c.invalidate n).copies (a / blkSize) = 0 := by omega
    rw [flushPIM_of_lookup hlookup hb]
    exact ⟨_, Outcome.bind_eq_ok.mpr ⟨(), assert_eq_ok.mpr (findBlock_eq_none.mpr hzero), rfl⟩⟩

/-- What a flush that returns has done. -/
theorem flushPIM_eq_ok {a : ℕ} {found : Bool}
    (h : c.flushPIM blkSize memory a = .ok (found, c', memory')) :
    Flushed (a / blkSize) c memory c' memory' := by
  obtain ⟨hzero, hnone⟩ | ⟨n, b, hb, hholds, hlookup, hcount⟩ := flushPIM_cases blkSize c memory a
  · rw [hnone] at h
    cases h
    exact Flushed.of_copies_eq_zero hzero
  · rw [flushPIM_of_lookup hlookup hb] at h
    obtain ⟨u, hassert, h⟩ := Outcome.bind_eq_ok.mp h
    have hzero := findBlock_eq_none.mp (assert_eq_ok.mp hassert)
    cases h
    exact Flushed.of_invalidate hb hholds (by omega)

end Cache

/-! ### The loop over the caches -/

section Loop

variable {blkSize : ℕ} {pCaches pCaches' : List (Cache δ)} {memory memory' : ℕ → δ}
  {pimpAddr : List ℕ} {l : ℕ}

/-- One round of the loop flushes the first cache of the first operand. -/
theorem flushOperands_cons (a : ℕ) (c : Cache δ) :
    flushOperands blkSize (a :: pimpAddr) (c :: pCaches) memory =
      (c.flushPIM blkSize memory a >>= fun r =>
        flushOperands blkSize pimpAddr pCaches r.2.2 >>= fun r' => .ok (r.2.1 :: r'.1, r'.2)) := by
  cases hlookup : c.lookup (a / blkSize) with
  | none =>
    simp only [flushOperands, Cache.check_addr, Cache.flushPIM, hlookup]
    rfl
  | some n =>
    simp only [flushOperands, Cache.check_addr, hlookup, Option.isSome_some, if_true]
    cases c.flushPIM blkSize memory a with
    | error e => rfl
    | ok r => rfl

theorem flushOperands_cons_eq_ok {a : ℕ} {c : Cache δ}
    (h : flushOperands blkSize (a :: pimpAddr) (c :: pCaches) memory = .ok (pCaches', memory')) :
    ∃ c' between cs, Cache.Flushed (a / blkSize) c memory c' between ∧
      flushOperands blkSize pimpAddr pCaches between = .ok (cs, memory') ∧ pCaches' = c' :: cs := by
  rw [flushOperands_cons] at h
  obtain ⟨⟨found, c', between⟩, hflush, h⟩ := Outcome.bind_eq_ok.mp h
  obtain ⟨⟨cs, m⟩, hloop, h⟩ := Outcome.bind_eq_ok.mp h
  cases h
  exact ⟨c', between, cs, Cache.flushPIM_eq_ok hflush, hloop, rfl⟩

/-- A loop that returns has an operand for each cache, each cache had at most one copy of its
operand, and the caches that still have a copy of a line are those not flushed of it. -/
theorem flushOperands_eq_ok
    (h : flushOperands blkSize pimpAddr pCaches memory = .ok (pCaches', memory')) :
    pCaches.length ≤ pimpAddr.length ∧
    (∀ ca ∈ pCaches.zip pimpAddr, ca.1.copies (ca.2 / blkSize) ≤ 1) ∧
    ∀ l, (∀ c ∈ pCaches', c.copies l = 0) ↔
      ∀ ca ∈ pCaches.zip pimpAddr, l ≠ ca.2 / blkSize → ca.1.copies l = 0 := by
  induction pCaches generalizing pimpAddr memory pCaches' with
  | nil =>
    cases pimpAddr <;> cases h <;> simp
  | cons c pCaches ih =>
    cases pimpAddr with
    | nil => cases h
    | cons a pimpAddr =>
      obtain ⟨c', between, cs, hflushed, hloop, rfl⟩ := flushOperands_cons_eq_ok h
      obtain ⟨hlength, hone, hiff⟩ := ih hloop
      refine ⟨Nat.succ_le_succ hlength, ?_, ?_⟩
      · rw [List.zip_cons_cons, List.forall_mem_cons]
        exact ⟨hflushed.copies_le, hone⟩
      · intro l
        rw [List.zip_cons_cons, List.forall_mem_cons, List.forall_mem_cons, hiff,
          hflushed.copies_eq]
        simp

/-- The loop returns when there is an operand for each cache and each cache has at most one copy
of its operand. -/
theorem exists_flushOperands (hlength : pCaches.length ≤ pimpAddr.length)
    (hone : ∀ ca ∈ pCaches.zip pimpAddr, ca.1.copies (ca.2 / blkSize) ≤ 1) :
    ∃ r, flushOperands blkSize pimpAddr pCaches memory = .ok r := by
  induction pCaches generalizing pimpAddr memory with
  | nil => cases pimpAddr <;> exact ⟨_, rfl⟩
  | cons c pCaches ih =>
    cases pimpAddr with
    | nil => simp at hlength
    | cons a pimpAddr =>
      rw [List.zip_cons_cons, List.forall_mem_cons] at hone
      obtain ⟨r, hflush⟩ : ∃ r, c.flushPIM blkSize memory a = .ok r :=
        Cache.exists_flushPIM hone.1
      obtain ⟨r', hloop⟩ : ∃ r', flushOperands blkSize pimpAddr pCaches r.2.2 = .ok r' :=
        ih (Nat.le_of_succ_le_succ hlength) hone.2
      rw [flushOperands_cons]
      exact ⟨_, Outcome.bind_eq_ok.mpr ⟨r, hflush, Outcome.bind_eq_ok.mpr ⟨r', hloop, rfl⟩⟩⟩

/-- The loop leaves in a line the data of its dirty copies in the caches flushed of it, or what the
memory had when there is none. -/
theorem flushOperands_memory
    (h : flushOperands blkSize pimpAddr pCaches memory = .ok (pCaches', memory')) {v : δ}
    (hdirty : ∀ ca ∈ pCaches.zip pimpAddr, ca.2 / blkSize = l →
      ∀ b ∈ ca.1.blks, b.holds l = true → b.isDirty = true → b.data = v)
    (hsome : memory l = v ∨ ∃ ca ∈ pCaches.zip pimpAddr, ca.2 / blkSize = l ∧
      ∃ b ∈ ca.1.blks, b.holds l = true ∧ b.isDirty = true) :
    memory' l = v := by
  induction pCaches generalizing pimpAddr memory pCaches' with
  | nil =>
    cases pimpAddr <;> cases h <;> simpa using hsome
  | cons c pCaches ih =>
    cases pimpAddr with
    | nil => cases h
    | cons a pimpAddr =>
      obtain ⟨c', between, cs, hflushed, hloop, rfl⟩ := flushOperands_cons_eq_ok h
      rw [List.zip_cons_cons, List.forall_mem_cons] at hdirty
      apply ih hloop hdirty.2
      by_cases hline : a / blkSize = l
      · subst hline
        by_cases hclean : ∀ b ∈ c.blks, b.holds (a / blkSize) = true → b.isDirty = false
        · rw [hflushed.clean hclean]
          apply hsome.imp_right
          rintro ⟨ca, hca, hl, b, hb, hholds, hd⟩
          rcases List.mem_cons.mp hca with rfl | hca
          · simp [hclean b hb hholds] at hd
          · exact ⟨ca, hca, hl, b, hb, hholds, hd⟩
        · -- its dirty copy is what the other caches must agree with
          push Not at hclean
          obtain ⟨b, hb, hholds, hd⟩ := hclean
          have hd : b.isDirty = true := by simpa using hd
          refine Or.inl ?_
          rw [hflushed.dirty b hb hholds hd]
          exact hdirty.1 rfl b hb hholds hd
      · rw [hflushed.frame l (Ne.symm hline)]
        apply hsome.imp_right
        rintro ⟨ca, hca, hl, h⟩
        rcases List.mem_cons.mp hca with rfl | hca
        · exact absurd hl hline
        · exact ⟨ca, hca, hl, h⟩

end Loop

/-! ### Issuing a command -/

section Issue

variable (blkSize : ℕ) (pimpAddr : List ℕ) (pCaches : List (Cache δ)) (memory : ℕ → δ)

/-- The latest data of a line: what its dirty copies hold, or the memory when there is none. -/
def Latest (l : ℕ) (v : δ) : Prop :=
  (∀ c ∈ pCaches, ∀ b ∈ c.blks, b.holds l = true → b.isDirty = true → b.data = v) ∧
  ((∀ c ∈ pCaches, ∀ b ∈ c.blks, b.holds l = true → b.isDirty = false) → memory l = v)

/-- The command is issued with no valid copy of its operands in the caches and their latest data in
the memory. -/
def Issued : Prop :=
  ∃ pCaches' memory', flushOperands blkSize pimpAddr pCaches memory = .ok (pCaches', memory') ∧
    ∀ a ∈ pimpAddr, (∀ c ∈ pCaches', ∀ b ∈ c.blks, b.holds (a / blkSize) = false) ∧
      ∀ v, Latest pCaches memory (a / blkSize) v → memory' (a / blkSize) = v

/-- Each cache has an operand at its position, at most one copy of that operand, and no copy of
an operand on another line. -/
def Paired : Prop :=
  pCaches.length ≤ pimpAddr.length ∧
  ∀ ca ∈ pCaches.zip pimpAddr, ∀ a ∈ pimpAddr,
    ca.1.copies (a / blkSize) ≤ if a / blkSize = ca.2 / blkSize then 1 else 0

variable {blkSize pimpAddr pCaches memory}

theorem forall_holds_eq_false {c : Cache δ} {l : ℕ} :
    (∀ b ∈ c.blks, b.holds l = false) ↔ c.copies l = 0 := by
  simp [Cache.copies, List.countP_eq_zero]

/-- A cache of the list has an operand at its position. -/
theorem exists_mem_zip (h : pCaches.length ≤ pimpAddr.length) {c : Cache δ} (hc : c ∈ pCaches) :
    ∃ a, (c, a) ∈ pCaches.zip pimpAddr := by
  rw [← List.map_fst_zip h] at hc
  obtain ⟨⟨c, a⟩, hca, rfl⟩ := List.mem_map.mp hc
  exact ⟨a, hca⟩

/-- The command is issued coherently exactly when the caches are paired with its operands. -/
theorem issued_iff_paired (a b c : ℕ) :
    Issued blkSize [a, b, c] pCaches memory ↔ Paired blkSize [a, b, c] pCaches := by
  constructor
  · rintro ⟨pCaches', memory', hloop, h⟩
    obtain ⟨hlength, hone, hleft⟩ := flushOperands_eq_ok hloop
    refine ⟨hlength, ?_⟩
    intro ca hca x hx
    by_cases hline : x / blkSize = ca.2 / blkSize
    · rw [if_pos hline, hline]
      exact hone ca hca
    · have hgone : ∀ c ∈ pCaches', c.copies (x / blkSize) = 0 := by
        intro c hc
        exact forall_holds_eq_false.mp ((h x hx).1 c hc)
      rw [(hleft (x / blkSize)).mp hgone ca hca hline]
      exact Nat.zero_le _
  · rintro ⟨hlength, hpaired⟩
    have hone : ∀ ca ∈ pCaches.zip [a, b, c], ca.1.copies (ca.2 / blkSize) ≤ 1 := by
      intro ca hca
      have h := hpaired ca hca ca.2 (List.of_mem_zip hca).2
      rwa [if_pos rfl] at h
    obtain ⟨⟨pCaches', memory'⟩, hloop⟩ :
        ∃ r, flushOperands blkSize [a, b, c] pCaches memory = .ok r :=
      exists_flushOperands hlength hone
    obtain ⟨-, -, hleft⟩ := flushOperands_eq_ok hloop
    have hnone (x : ℕ) (hx : x ∈ [a, b, c]) (ca : Cache δ × ℕ) (hca : ca ∈ pCaches.zip [a, b, c])
        (hline : x / blkSize ≠ ca.2 / blkSize) : ca.1.copies (x / blkSize) = 0 := by
      have h := hpaired ca hca x hx
      rw [if_neg hline] at h
      omega
    refine ⟨pCaches', memory', hloop, fun x hx => ⟨?_, ?_⟩⟩
    · intro c' hc'
      exact forall_holds_eq_false.mpr ((hleft (x / blkSize)).mpr (hnone x hx) c' hc')
    · rintro v ⟨hdirty, hclean⟩
      apply flushOperands_memory hloop
      · intro ca hca _
        exact hdirty ca.1 (List.of_mem_zip hca).1
      · by_cases hany : ∀ c ∈ pCaches, ∀ b ∈ c.blks, b.holds (x / blkSize) = true →
            b.isDirty = false
        · exact Or.inl (hclean hany)
        · -- a dirty copy is in a cache flushed of the operand
          push Not at hany
          obtain ⟨c', hc', b', hb', hholds, hd⟩ := hany
          obtain ⟨x', hca⟩ := exists_mem_zip hlength hc'
          refine Or.inr ⟨(c', x'), hca, ?_, b', hb', hholds, by simpa using hd⟩
          by_contra hline
          have hzero := hnone x hx _ hca (Ne.symm hline)
          simp [forall_holds_eq_false.mpr hzero b' hb'] at hholds

/-- A data cache with a dirty block of the second operand, an instruction cache, and a shared cache. -/
def secondOperandCached : List (Cache ℕ) :=
  [⟨[{ line := 1, isValid := true, isSecure := false, isDirty := true, data := 7 }]⟩, ⟨[]⟩, ⟨[]⟩]

/-- The data cache is flushed of the first operand only: the command is sent while its second operand
is in the data cache and the memory has the old data. -/
theorem not_issued_second_operand :
    ¬ Issued 64 [0, 64, 128] secondOperandCached fun _ => 0 := by
  rintro ⟨pCaches', memory', h, hissued⟩
  have hloop : flushOperands 64 [0, 64, 128] secondOperandCached (fun _ => 0) =
      .ok (secondOperandCached, fun _ => 0) := rfl
  obtain ⟨rfl, rfl⟩ := Prod.mk.inj (Except.ok.inj (h.symm.trans hloop))
  have hcached := (hissued 64 (by simp)).1 _ List.mem_cons_self _ List.mem_cons_self
  simp [CacheBlk.holds] at hcached

end Issue

end PIMSim.Gem5
