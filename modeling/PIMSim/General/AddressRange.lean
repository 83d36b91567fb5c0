import Mathlib.Data.Nat.Bitwise
import Mathlib.Data.UInt
import PIMSim.Library.Outcome

/-!
# Address ranges

An address range may be one of several interleaved ones, which share their bounds. A group of bits of an
address, combined with another group when the range is hashed, says which of them the address belongs to. The
offset of an address in its range leaves the group out.

## Main definitions

* `AddressRange`: a range, with the checks of its constructor as `AddressRange.make`
* `AddressRange.contains`, `AddressRange.getOffset`: the addresses of a range, and their offsets
* `AddressRange.merge`: the range that interleaved ranges make together
* `AddressRange.Placed`: the groups of bits are in the address

## Main results

* `AddressRange.existsUnique_contains`: an address is in one of the interleaved ranges
* `AddressRange.merge_contains`: the merged range has the addresses of its parts
* `AddressRange.getOffset_injective`: addresses of a range have different offsets
-/

namespace PIMSim

open CSharp

structure AddressRange where
  start : UInt64 := 1
  finish : UInt64 := 0
  intlvHighBit : UInt8 := 0
  xorHighBit : UInt8 := 0
  intlvBits : UInt8 := 0
  intlvMatch : UInt8 := 0
deriving DecidableEq

namespace AddressRange

/-- A shift to the right, by the lower six bits of the count. -/
def shr (v : UInt64) (n : Int) : UInt64 := v >>> UInt64.ofNat (n % 64).toNat

def shl (v : UInt64) (n : Int) : UInt64 := v <<< UInt64.ofNat (n % 64).toNat

def mask (nbits : Int) : UInt64 := if nbits = 64 then 0xFFFFFFFFFFFFFFFF else shl 1 nbits - 1

def bits (val : UInt64) (first last : Int) : UInt64 := shr val last &&& mask (first - last + 1)

def insertBits (val : UInt64) (first last : Int) (bitVal : UInt64) : UInt64 :=
  let bmask := shl (mask (first - last + 1)) last
  (shl bitVal last &&& bmask) ||| (val &&& ~~~bmask)

/-- One, shifted as an integer of 32 bits by the lower five bits of the count. -/
def shiftedOne (n : ℕ) : Int := ((1 : BitVec 32) <<< (n % 32)).toInt

variable (r : AddressRange)

/-- A condition whose failure is a call of `Debug.Fail`, which ends the program in a debug build. A
release build goes on. -/
def check (p : Prop) [Decidable p] : Outcome Unit := if p then return () else .error (.exit 1)

theorem check_eq_ok {p : Prop} [Decidable p] {u : Unit} : check p = .ok u ↔ p := by
  unfold check
  split_ifs with h
  · exact iff_of_true rfl h
  · exact iff_of_false (by simp) h

/-- The checks of the constructor. -/
def make (start finish : UInt64) (intlvHighBit xorHighBit intlvBits intlvMatch : UInt8) : Outcome AddressRange := do
  let n : Int := intlvBits.toNat
  let high : Int := intlvHighBit.toNat
  let xor : Int := xorHighBit.toNat
  check (¬(0 < n ∧ shiftedOne intlvBits.toNat ≤ intlvMatch.toNat))
  if 0 < n ∧ 0 < xor then
    check (xor ≠ high)
    check (high < xor → n ≤ xor - high)
    check (xor < high → n ≤ high - xor)
  return { start, finish, intlvHighBit, xorHighBit, intlvBits, intlvMatch }

def interleaved : Bool := r.intlvBits ≠ 0

def hashed : Bool := r.interleaved ∧ r.xorHighBit ≠ 0

/-- The group of bits with a highest bit. -/
def group (a : UInt64) (high : UInt8) : UInt64 := bits a high.toNat (high.toNat - r.intlvBits.toNat + 1)

def contains (a : UInt64) : Bool :=
  let inRange := r.start ≤ a ∧ a ≤ r.finish
  if !r.interleaved then inRange
  else if inRange then
    if !r.hashed then r.group a r.intlvHighBit = r.intlvMatch.toUInt64
    else r.group a r.intlvHighBit ^^^ r.group a r.xorHighBit = r.intlvMatch.toUInt64
  else false

def removeIntlvBits (a : UInt64) : UInt64 :=
  let intlvLowBit : Int := r.intlvHighBit.toNat - r.intlvBits.toNat + 1
  insertBits (shr a r.intlvBits.toNat) (intlvLowBit - 1) 0 a

def getOffset (a : UInt64) : UInt64 :=
  if ¬(r.start ≤ a ∧ a ≤ r.finish) then 0xFFFFFFFFFFFFFFFF
  else if r.interleaved then r.removeIntlvBits a - r.removeIntlvBits r.start
  else a - r.start

def mergesWith (q : AddressRange) : Bool :=
  q.start = r.start ∧ q.finish = r.finish ∧ q.intlvHighBit = r.intlvHighBit ∧
    q.xorHighBit = r.xorHighBit ∧ q.intlvBits = r.intlvBits

/-- The constructor from interleaved ranges. -/
def merge : List AddressRange → Outcome AddressRange
  | [] => return {}
  | first :: rest => do
    let merged := { first with intlvMatch := 0 }
    check (((first :: rest).length : Int) = shiftedOne first.intlvBits.toNat)
    let _ ← (first :: rest).foldlM (fun (m : UInt8) q => do
      check (merged.mergesWith q)
      check (q.intlvMatch = m)
      return m + 1) 0
    return { merged with intlvHighBit := 0, xorHighBit := 0, intlvBits := 0 }

/-! ### Bits -/

theorem shiftedOne_eq {n : ℕ} (hn : n ≤ 8) : shiftedOne n = 2 ^ n := by
  revert n
  decide

/-- A group of bits lies in the address. -/
structure Within (n high : UInt8) : Prop where
  pos : 0 < n.toNat
  few : n.toNat < 64
  le : n.toNat ≤ high.toNat + 1
  lt : high.toNat < 64

theorem testBit_shr (v : UInt64) {k : ℕ} (hk : k < 64) (i : ℕ) :
    (shr v k).toNat.testBit i = v.toNat.testBit (i + k) := by
  unfold shr
  have hcount : ((k : Int) % 64).toNat = k := by omega
  rw [hcount, UInt64.toNat_shiftRight, UInt64.toNat_ofNat', Nat.mod_eq_of_lt (by omega : k < 2 ^ 64),
    Nat.mod_eq_of_lt hk, Nat.testBit_shiftRight, Nat.add_comm]

theorem toNat_mask {n : ℕ} (hn : n ≤ 64) : (mask n).toNat = 2 ^ n - 1 := by
  unfold mask
  by_cases h : n = 64
  · rw [if_pos (by omega), h]
    rfl
  · rw [if_neg (by omega)]
    have hcount : ((n : Int) % 64).toNat = n := by omega
    have hlt : 2 ^ n < 2 ^ 64 := Nat.pow_lt_pow_right (by decide) (by omega)
    have hshl : (shl 1 n).toNat = 2 ^ n := by
      unfold shl
      rw [hcount, UInt64.toNat_shiftLeft, UInt64.toNat_ofNat', Nat.mod_eq_of_lt (by omega : n < 2 ^ 64),
        Nat.mod_eq_of_lt (by omega : n < 64), Nat.shiftLeft_eq]
      change 1 * 2 ^ n % 2 ^ 64 = _
      rw [one_mul, Nat.mod_eq_of_lt hlt]
    have hle : (1 : UInt64) ≤ shl 1 n := by
      rw [UInt64.le_iff_toNat_le, hshl]
      exact Nat.one_le_two_pow
    rw [UInt64.toNat_sub_of_le _ _ hle, hshl]
    rfl

theorem testBit_mask {n : ℕ} (hn : n ≤ 64) (i : ℕ) : (mask n).toNat.testBit i = decide (i < n) := by
  rw [toNat_mask hn, Nat.testBit_two_pow_sub_one]

/-- **A group of bits** of an address. -/
theorem testBit_group {high : UInt8} (h : Within r.intlvBits high) (a : UInt64) (i : ℕ) :
    (r.group a high).toNat.testBit i =
      (decide (i < r.intlvBits.toNat) && a.toNat.testBit (i + (high.toNat + 1 - r.intlvBits.toNat))) := by
  have hle := h.le
  have hlt := h.lt
  have hpos := h.pos
  have hlow : ((high.toNat : Int) - r.intlvBits.toNat + 1) = ((high.toNat + 1 - r.intlvBits.toNat : ℕ) : Int) := by
    omega
  have hnbits : ((high.toNat : Int) - ((high.toNat + 1 - r.intlvBits.toNat : ℕ) : Int) + 1) =
      ((r.intlvBits.toNat : ℕ) : Int) := by omega
  unfold group bits
  rw [hlow, hnbits, UInt64.toNat_and, Nat.testBit_and, testBit_shr _ (by omega), testBit_mask (by omega),
    Bool.and_comm]

theorem toNat_compl (v : UInt64) {i : ℕ} (hi : i < 64) : (~~~v).toNat.testBit i = !v.toNat.testBit i := by
  have h : (~~~v).toBitVec.getLsbD i = !v.toBitVec.getLsbD i := by
    rw [UInt64.toBitVec_not, BitVec.getLsbD_not]
    simp [hi]
  exact h

/-- The address without its group of bits. -/
theorem testBit_removeIntlvBits (h : Within r.intlvBits r.intlvHighBit) (a : UInt64) {i : ℕ} (hi : i < 64) :
    (r.removeIntlvBits a).toNat.testBit i =
      a.toNat.testBit (if i < r.intlvHighBit.toNat + 1 - r.intlvBits.toNat then i else i + r.intlvBits.toNat) := by
  have hle := h.le
  have hlt := h.lt
  have hpos := h.pos
  have hnbits : ((r.intlvHighBit.toNat : Int) - r.intlvBits.toNat + 1 - 1 - 0 + 1) =
      ((r.intlvHighBit.toNat + 1 - r.intlvBits.toNat : ℕ) : Int) := by omega
  have hzero (v : UInt64) : shl v 0 = v := by
    unfold shl
    exact UInt64.shiftLeft_zero
  unfold removeIntlvBits insertBits
  dsimp only
  rw [hnbits, hzero, hzero, UInt64.toNat_or, UInt64.toNat_and, UInt64.toNat_and, Nat.testBit_or, Nat.testBit_and,
    Nat.testBit_and, toNat_compl _ hi, testBit_mask (by omega), testBit_shr _ h.few]
  split_ifs with hlow <;> simp [hlow]

/-! ### Which range an address belongs to -/

/-- What says which of the interleaved ranges an address belongs to. -/
def stripe (a : UInt64) : UInt64 :=
  if r.hashed then r.group a r.intlvHighBit ^^^ r.group a r.xorHighBit else r.group a r.intlvHighBit

theorem contains_iff (hinterleaved : r.intlvBits ≠ 0) (a : UInt64) :
    r.contains a = true ↔ (r.start ≤ a ∧ a ≤ r.finish) ∧ r.stripe a = r.intlvMatch.toUInt64 := by
  have hbits : r.interleaved = true := decide_eq_true hinterleaved
  unfold contains stripe
  dsimp only
  rw [hbits]
  by_cases hrange : r.start ≤ a ∧ a ≤ r.finish
  · cases hhashed : r.hashed <;> simp [hrange]
  · simp [hrange]

/-- A range that is not interleaved. -/
theorem contains_iff_of_not (hinterleaved : r.intlvBits = 0) (a : UInt64) :
    r.contains a = true ↔ r.start ≤ a ∧ a ≤ r.finish := by
  have hbits : r.interleaved = false := decide_eq_false (not_not_intro hinterleaved)
  unfold contains
  rw [hbits]
  simp

/-- The groups of bits are in the address, and apart. -/
structure Placed : Prop where
  group : Within r.intlvBits r.intlvHighBit
  hash : r.xorHighBit ≠ 0 → Within r.intlvBits r.xorHighBit ∧
    (r.xorHighBit.toNat + r.intlvBits.toNat ≤ r.intlvHighBit.toNat ∨
      r.intlvHighBit.toNat + r.intlvBits.toNat ≤ r.xorHighBit.toNat)

variable {r}

/-- The checks of the constructor keep the groups apart. -/
theorem make_placed {start finish : UInt64} {high xor n k : UInt8} (h : make start finish high xor n k = .ok r)
    (hgroup : Within n high) (hhash : xor ≠ 0 → Within n xor) : r.Placed := by
  unfold make at h
  dsimp only at h
  obtain ⟨_, -, h⟩ := Outcome.bind_eq_ok.mp h
  by_cases hxor : xor = 0
  · rw [if_neg (by simp [hxor])] at h
    cases h
    exact ⟨hgroup, fun hne => absurd hxor hne⟩
  · have hpos := hgroup.pos
    have hxorPos : 0 < xor.toNat := Nat.pos_of_ne_zero fun hzero => hxor (UInt8.toNat_inj.mp hzero)
    rw [if_pos ⟨by omega, by omega⟩] at h
    obtain ⟨_, hne, h⟩ := Outcome.bind_eq_ok.mp h
    obtain ⟨_, hbehind, h⟩ := Outcome.bind_eq_ok.mp h
    obtain ⟨_, hbefore, h⟩ := Outcome.bind_eq_ok.mp h
    cases h
    have hne := check_eq_ok.mp hne
    have hbehind := check_eq_ok.mp hbehind
    have hbefore := check_eq_ok.mp hbefore
    refine ⟨hgroup, fun _ => ⟨hhash hxor, ?_⟩⟩
    dsimp only
    omega

theorem Placed.ne_zero (h : r.Placed) : r.intlvBits ≠ 0 := by
  intro hzero
  have hpos := h.group.pos
  rw [hzero] at hpos
  exact lt_irrefl _ hpos

/-- The hash has a group of bits of its own. -/
theorem Placed.hash_of_hashed (h : r.Placed) (hhashed : r.hashed = true) :
    Within r.intlvBits r.xorHighBit ∧
      (r.xorHighBit.toNat + r.intlvBits.toNat ≤ r.intlvHighBit.toNat ∨
        r.intlvHighBit.toNat + r.intlvBits.toNat ≤ r.xorHighBit.toNat) :=
  h.hash (of_decide_eq_true hhashed).2

theorem group_lt {high : UInt8} (h : Within r.intlvBits high) (a : UInt64) :
    (r.group a high).toNat < 2 ^ r.intlvBits.toNat := by
  refine Nat.lt_pow_two_of_testBit _ fun i hi => ?_
  rw [testBit_group r h, decide_eq_false (by omega), Bool.false_and]

theorem Placed.stripe_lt (h : r.Placed) (a : UInt64) : (r.stripe a).toNat < 2 ^ r.intlvBits.toNat := by
  unfold stripe
  split_ifs with hhashed
  · rw [UInt64.toNat_xor]
    exact Nat.xor_lt_two_pow (group_lt h.group a) (group_lt (h.hash_of_hashed hhashed).1 a)
  · exact group_lt h.group a

/-- **An address is in one of the interleaved ranges.** -/
theorem existsUnique_contains (h : r.Placed) (hbits : r.intlvBits.toNat ≤ 8) {a : UInt64}
    (ha : r.start ≤ a ∧ a ≤ r.finish) :
    ∃! k : UInt8, k.toNat < 2 ^ r.intlvBits.toNat ∧ { r with intlvMatch := k }.contains a = true := by
  have hlt := h.stripe_lt a
  have hbyte : (r.stripe a).toNat < 256 :=
    hlt.trans_le (Nat.pow_le_pow_right (by decide) hbits)
  have hk : (UInt8.ofNat (r.stripe a).toNat).toNat = (r.stripe a).toNat := by
    rw [UInt8.toNat_ofNat', Nat.mod_eq_of_lt hbyte]
  have hcontains (k : UInt8) : { r with intlvMatch := k }.contains a = true ↔ r.stripe a = k.toUInt64 := by
    rw [contains_iff { r with intlvMatch := k } h.ne_zero]
    exact and_iff_right ha
  refine ⟨UInt8.ofNat (r.stripe a).toNat, ⟨hk.trans_lt hlt, (hcontains _).mpr ?_⟩, fun k hother => ?_⟩
  · exact UInt64.toNat_inj.mp hk.symm
  · have hsame := congrArg UInt64.toNat ((hcontains k).mp hother.2)
    exact UInt8.toNat_inj.mp (hsame.symm.trans hk.symm)

/-! ### Merging -/

/-- What the checks of the merged ranges say. -/
theorem intlvMatch_of_foldlM {merged : AddressRange} {rs : List AddressRange} {m m' : UInt8}
    (h : rs.foldlM (fun (m : UInt8) q => do
      check (merged.mergesWith q)
      check (q.intlvMatch = m)
      return m + 1) m = .ok m') {i : ℕ} (hi : i < rs.length) :
    merged.mergesWith rs[i] = true ∧ rs[i].intlvMatch = m + UInt8.ofNat i := by
  induction rs generalizing m i with
  | nil => exact absurd hi (Nat.not_lt_zero _)
  | cons q rs ih =>
    rw [List.foldlM_cons] at h
    obtain ⟨m₁, hround, h⟩ := Outcome.bind_eq_ok.mp h
    obtain ⟨_, hmerges, hround⟩ := Outcome.bind_eq_ok.mp hround
    obtain ⟨_, hmatch, hround⟩ := Outcome.bind_eq_ok.mp hround
    cases hround
    cases i with
    | zero => exact ⟨check_eq_ok.mp hmerges, (check_eq_ok.mp hmatch).trans (by simp)⟩
    | succ i =>
      obtain ⟨hmerges', hmatch'⟩ := ih h (Nat.lt_of_succ_lt_succ hi)
      refine ⟨hmerges', hmatch'.trans ?_⟩
      rw [UInt8.ofNat_add, UInt8.add_assoc, UInt8.add_comm 1]
      rfl

theorem eq_of_mergesWith {q : AddressRange} (h : { r with intlvMatch := 0 }.mergesWith q = true) :
    q = { r with intlvMatch := q.intlvMatch } := by
  obtain ⟨hstart, hfinish, hhigh, hxor, hbits⟩ := of_decide_eq_true h
  obtain ⟨start, finish, high, xor, n, k⟩ := q
  simp only at hstart hfinish hhigh hxor hbits
  rw [hstart, hfinish, hhigh, hxor, hbits]

/-- **The merged range** has the addresses of its parts, when the checks of the constructor pass. -/
theorem merge_contains {first q : AddressRange} {rest : List AddressRange} (h : merge (first :: rest) = .ok q)
    (hbits : first.intlvBits.toNat ≤ 8) (hplaced : first.intlvBits ≠ 0 → first.Placed) (a : UInt64) :
    q.contains a = true ↔ ∃ p ∈ first :: rest, p.contains a = true := by
  unfold merge at h
  obtain ⟨_, hlength, h⟩ := Outcome.bind_eq_ok.mp h
  obtain ⟨_, hround, h⟩ := Outcome.bind_eq_ok.mp h
  cases h
  have hcount : (first :: rest).length = 2 ^ first.intlvBits.toNat := by
    have hshift := check_eq_ok.mp hlength
    rw [shiftedOne_eq hbits] at hshift
    exact_mod_cast hshift
  have hpart {i : ℕ} (hi : i < (first :: rest).length) :
      (first :: rest)[i] = { first with intlvMatch := UInt8.ofNat i } := by
    obtain ⟨hmerges, hmatch⟩ := intlvMatch_of_foldlM hround hi
    rw [UInt8.zero_add] at hmatch
    exact (eq_of_mergesWith hmerges).trans (by rw [hmatch])
  rw [contains_iff_of_not _ rfl]
  change first.start ≤ a ∧ a ≤ first.finish ↔ _
  by_cases hzero : first.intlvBits = 0
  · -- One range, which is not interleaved.
    have hone : rest = [] := by
      rw [hzero] at hcount
      exact List.eq_nil_of_length_eq_zero (Nat.succ_injective hcount)
    rw [hone]
    simp only [List.mem_singleton, exists_eq_left, contains_iff_of_not _ hzero]
  · have hfirst := hplaced hzero
    constructor
    · intro ha
      obtain ⟨k, ⟨hk, hcontains⟩, -⟩ := existsUnique_contains hfirst hbits ha
      have hi : k.toNat < (first :: rest).length := hcount ▸ hk
      refine ⟨_, List.getElem_mem hi, ?_⟩
      rw [hpart hi, UInt8.ofNat_toNat]
      exact hcontains
    · rintro ⟨p, hp, hcontains⟩
      obtain ⟨i, hi, rfl⟩ := List.mem_iff_getElem.mp hp
      rw [hpart hi, contains_iff { first with intlvMatch := UInt8.ofNat i } hzero] at hcontains
      exact hcontains.1

/-- Two ranges of alternate blocks of 64 bytes. -/
def block (k : UInt8) : AddressRange :=
  { start := 0, finish := 0xFFFF, intlvHighBit := 6, intlvBits := 1, intlvMatch := k }

theorem merge_contains_block : ∃ q, merge [block 0, block 1] = .ok q ∧
    (q.contains 0x40 = true ↔ ∃ p ∈ [block 0, block 1], p.contains 0x40 = true) :=
  ⟨{ start := 0, finish := 0xFFFF }, by decide, merge_contains (by decide) (by decide)
    (fun _ => ⟨⟨by decide, by decide, by decide, by decide⟩, fun h => absurd rfl h⟩) 0x40⟩

/-! ### Offsets -/

theorem eq_of_testBit {a b : UInt64} (h : ∀ i < 64, a.toNat.testBit i = b.toNat.testBit i) : a = b := by
  refine UInt64.toNat_inj.mp (Nat.eq_of_testBit_eq fun i => ?_)
  by_cases hi : i < 64
  · exact h i hi
  · have hpow : 2 ^ 64 ≤ 2 ^ i := Nat.pow_le_pow_right (by decide) (by omega)
    rw [Nat.testBit_lt_two_pow (a.toNat_lt.trans_le hpow), Nat.testBit_lt_two_pow (b.toNat_lt.trans_le hpow)]

/-- Addresses that agree outside their group of bits, and are in the same range, agree. -/
theorem Placed.eq_of_stripe (h : r.Placed) {a b : UInt64} (hremove : r.removeIntlvBits a = r.removeIntlvBits b)
    (hstripe : r.stripe a = r.stripe b) : a = b := by
  have hle := h.group.le
  have hlt := h.group.lt
  have hbit {i : ℕ} (hi : i < 64) := congrArg (fun v : UInt64 => v.toNat.testBit i) hremove
  -- The bits below the group, and those above it.
  have hbelow {i : ℕ} (hi : i < r.intlvHighBit.toNat + 1 - r.intlvBits.toNat) :
      a.toNat.testBit i = b.toNat.testBit i := by
    have hsame := hbit (show i < 64 by omega)
    simp only [testBit_removeIntlvBits r h.group _ (show i < 64 by omega), if_pos hi] at hsame
    exact hsame
  have habove {i : ℕ} (hi : r.intlvHighBit.toNat < i) (hi' : i < 64) :
      a.toNat.testBit i = b.toNat.testBit i := by
    have hsame := hbit (show i - r.intlvBits.toNat < 64 by omega)
    simp only [testBit_removeIntlvBits r h.group _ (show i - r.intlvBits.toNat < 64 by omega),
      if_neg (show ¬i - r.intlvBits.toNat < r.intlvHighBit.toNat + 1 - r.intlvBits.toNat by omega),
      Nat.sub_add_cancel (show r.intlvBits.toNat ≤ i by omega)] at hsame
    exact hsame
  refine eq_of_testBit fun i hi => ?_
  by_cases hlow : i < r.intlvHighBit.toNat + 1 - r.intlvBits.toNat
  · exact hbelow hlow
  by_cases hhigh : r.intlvHighBit.toNat < i
  · exact habove hhigh hi
  -- A bit of the group, which the range and the hash say.
  have hgroup (v : UInt64) : (r.group v r.intlvHighBit).toNat.testBit
      (i - (r.intlvHighBit.toNat + 1 - r.intlvBits.toNat)) = v.toNat.testBit i := by
    rw [testBit_group r h.group, decide_eq_true (by omega), Bool.true_and, Nat.sub_add_cancel (by omega)]
  have hsame := congrArg (fun v : UInt64 =>
    v.toNat.testBit (i - (r.intlvHighBit.toNat + 1 - r.intlvBits.toNat))) hstripe
  unfold stripe at hsame
  by_cases hhashed : r.hashed = true
  · obtain ⟨hwithin, happart⟩ := h.hash_of_hashed hhashed
    have hxle := hwithin.le
    have hxlt := hwithin.lt
    have hother : (r.group a r.xorHighBit).toNat.testBit (i - (r.intlvHighBit.toNat + 1 - r.intlvBits.toNat)) =
        (r.group b r.xorHighBit).toNat.testBit (i - (r.intlvHighBit.toNat + 1 - r.intlvBits.toNat)) := by
      rw [testBit_group r hwithin, testBit_group r hwithin]
      congr 1
      rcases happart with hbefore | hbehind
      · exact hbelow (by omega)
      · exact habove (by omega) (by omega)
    simp only [if_pos hhashed, UInt64.toNat_xor, Nat.testBit_xor, hgroup, hother] at hsame
    exact (Bool.xor_left_inj).mp hsame
  · simp only [if_neg hhashed, hgroup] at hsame
    exact hsame

/-- **Addresses of a range have different offsets.** -/
theorem getOffset_injective (hplaced : r.intlvBits ≠ 0 → r.Placed) {a b : UInt64} (ha : r.contains a = true)
    (hb : r.contains b = true) (h : r.getOffset a = r.getOffset b) : a = b := by
  by_cases hzero : r.intlvBits = 0
  · have hrangeA := (contains_iff_of_not r hzero a).mp ha
    have hrangeB := (contains_iff_of_not r hzero b).mp hb
    have hbits : r.interleaved = false := decide_eq_false (not_not_intro hzero)
    unfold getOffset at h
    rw [if_neg (not_not_intro hrangeA), if_neg (not_not_intro hrangeB), hbits] at h
    exact (UInt64.sub_left_inj _).mp h
  · obtain ⟨hrangeA, hstripeA⟩ := (contains_iff r hzero a).mp ha
    obtain ⟨hrangeB, hstripeB⟩ := (contains_iff r hzero b).mp hb
    have hbits : r.interleaved = true := decide_eq_true hzero
    unfold getOffset at h
    rw [if_neg (not_not_intro hrangeA), if_neg (not_not_intro hrangeB), if_pos hbits, if_pos hbits] at h
    exact (hplaced hzero).eq_of_stripe ((UInt64.sub_left_inj _).mp h) (hstripeA.trans hstripeB.symm)

/-- Four ranges, by two bits combined with two higher ones. -/
def hashedRange : AddressRange :=
  { start := 0, finish := 0xFFFF, intlvHighBit := 7, xorHighBit := 11, intlvBits := 2, intlvMatch := 0 }

theorem hashedRange_placed : hashedRange.Placed :=
  make_placed (show make 0 0xFFFF 7 11 2 0 = .ok hashedRange by decide)
    ⟨by decide, by decide, by decide, by decide⟩ fun _ => ⟨by decide, by decide, by decide, by decide⟩

theorem getOffset_injective_hashedRange : hashedRange.getOffset 0x20 ≠ hashedRange.getOffset 0x100 := fun h =>
  absurd (getOffset_injective (fun _ => hashedRange_placed) (by decide) (by decide) h) (by decide)

end AddressRange

end PIMSim
