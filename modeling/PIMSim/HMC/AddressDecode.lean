import Mathlib.Data.Set.Lattice
import Mathlib.Order.CompletePartialOrder
import PIMSim.HMC.Cube

/-!
# Where an address is stored

Three functions decode the quadrant, the vault and the bank of an address, each with a table of its own
over the links, the capacity and the block size. The block size is kept as a code in a register.

`hmcsim_util_set_max_blocksize` only adds the bits of a code to the register. The codes of 64 and of 128
bytes together are a code of the vendor, which leaves the block size at zero.

## Main definitions

* `setMaxBlocksize`, `afterCalls`: the register after calls
* `decodeVault`, `decodeQuad`: the other two decoders
* `Reads f S`: a decoder only reads the address bits `S`
* `Decodes c calls bsize`: what the last call asked for is in force, and the decoders split the address
* `Overwrites calls bsize`: the last call leaves no bits of earlier ones

## Main results

* `decodes_iff`: when the decoders split the address
-/

namespace PIMSim.HMC

open CSharp Fields

/-! ### The block size -/

/-- The code of a block size. -/
def blocksizeCode (bsize : ℕ) : UInt64 :=
  match bsize with
  | 32 => 0x0
  | 64 => 0x1
  | _ => 0x2

/-- `hmcsim_util_set_max_blocksize` on the register of a cube that exists. -/
def setMaxBlocksize (addressConfig : UInt64) (bsize : ℕ) : UInt64 := addressConfig ||| blocksizeCode bsize

/-- The register after calls. It starts at zero. -/
def afterCalls (calls : List ℕ) : UInt64 := calls.foldl setMaxBlocksize 0

/-! ### The decoders -/

/-- `hmcsim_util_decode_vault` -/
def decodeVault (c : Cube) (bsize : ℕ) (addr : UInt64) : ℕ :=
  if c.numLinks = 4 then
    if c.capacity = 2 then
      match bsize with
      | 32 => (field addr 5 0x7).toNat
      | 64 => (field addr 6 0x7).toNat
      | 128 => (field addr 7 0x7).toNat
      | _ => 0
    else if c.capacity = 4 then
      match bsize with
      | 32 => (field addr 5 0x7).toNat
      | 64 => (field addr 6 0x7).toNat
      | 128 => (field addr 7 0x7).toNat
      | 256 => (field addr 8 0x7).toNat
      | _ => 0
    else 0
  else if c.numLinks = 8 then
    if c.capacity = 4 then
      match bsize with
      | 32 => (field addr 5 0x7).toNat
      | 64 => (field addr 6 0x7).toNat
      | 128 => (field addr 7 0x7).toNat
      | 256 => (field addr 8 0x7).toNat
      | _ => 0
    else if c.capacity = 8 then
      match bsize with
      | 32 => (field addr 5 0x7).toNat
      | 64 => (field addr 6 0x7).toNat
      | 128 => (field addr 7 0x7).toNat
      | 256 => (field addr 8 0x7).toNat
      | _ => 0
    else 0
  else 0

/-- `hmcsim_util_decode_quad` -/
def decodeQuad (c : Cube) (bsize : ℕ) (addr : UInt64) : ℕ :=
  if c.numLinks = 4 then
    if c.capacity = 2 then
      match bsize with
      | 32 => (field addr 8 0x3).toNat
      | 64 => (field addr 9 0x3).toNat
      | 128 => (field addr 10 0x3).toNat
      | _ => 0
    else if c.capacity = 4 then
      match bsize with
      | 32 => (field addr 8 0x3).toNat
      -- the table for eight links has 9 here
      | 64 => (field addr 8 0x3).toNat
      | 128 => (field addr 10 0x3).toNat
      | 256 => (field addr 11 0x3).toNat
      | _ => 0
    else 0
  else if c.numLinks = 8 then
    if c.capacity = 4 then
      match bsize with
      | 32 => (field addr 8 0x3).toNat
      | 64 => (field addr 9 0x3).toNat
      | 128 => (field addr 10 0x3).toNat
      | 256 => (field addr 11 0x3).toNat
      | _ => 0
    else if c.capacity = 8 then
      match bsize with
      | 32 => (field addr 8 0x3).toNat
      | 64 => (field addr 9 0x3).toNat
      | 128 => (field addr 10 0x3).toNat
      | 256 => (field addr 11 0x3).toNat
      | _ => 0
    else 0
  else 0

/-- The quadrants of a cube. -/
def Cube.numQuads (c : Cube) : ℕ := if c.numLinks = 4 then 4 else 8

/-- The vaults of a quadrant. -/
def vaultsPerQuad : ℕ := 8

/-! ### The split of an address -/

/-- The decoder only reads the address bits of the set. -/
def Reads (f : UInt64 → ℕ) (S : Set ℕ) : Prop :=
  ∀ addr addr' : UInt64, (∀ i ∈ S, addr.toNat.testBit i = addr'.toNat.testBit i) → f addr = f addr'

/-- After the calls and one for `bsize`, that size is in force, the decoders stay in range of the cube,
they read disjoint address bits above those of a block, and every bank of every vault is reached by an
address of 34 bits. -/
structure Decodes (c : Cube) (calls : List ℕ) (bsize : ℕ) : Prop where
  inForce : maxBlocksize (afterCalls (calls ++ [bsize])) = bsize
  quad_lt : ∀ addr : UInt64, addr.toNat < 2 ^ 34 → decodeQuad c bsize addr < c.numQuads
  vault_lt : ∀ addr : UInt64, addr.toNat < 2 ^ 34 → decodeVault c bsize addr < vaultsPerQuad
  bank_lt : ∀ addr : UInt64, addr.toNat < 2 ^ 34 → decodeBank c bsize addr < c.numBanks
  disjoint : ∃ Q V B : Set ℕ, Reads (decodeQuad c bsize) Q ∧ Reads (decodeVault c bsize) V ∧
    Reads (decodeBank c bsize) B ∧ Disjoint Q V ∧ Disjoint Q B ∧ Disjoint V B ∧
    ∀ i ∈ Q ∪ V ∪ B, bsize ≤ 2 ^ i
  reached : ∀ q v b, q < c.numQuads → v < vaultsPerQuad → b < c.numBanks →
    ∃ addr : UInt64, addr.toNat < 2 ^ 34 ∧ decodeQuad c bsize addr = q ∧
      decodeVault c bsize addr = v ∧ decodeBank c bsize addr = b

/-- The earlier calls have added no bits to the code of the last one. -/
def Overwrites (calls : List ℕ) (bsize : ℕ) : Prop :=
  ∀ earlier ∈ calls, earlier = 32 ∨ blocksizeCode earlier = blocksizeCode bsize

/-! ### Fields of an address -/

/-- A field only reads its own bits. -/
theorem reads_field {lo mask : UInt64} {k n : ℕ} (hk : lo.toNat = k) (hlo : k < 64)
    (hmask : mask.toNat = 2 ^ n - 1) :
    Reads (fun addr => (field addr lo mask).toNat) {i | k ≤ i ∧ i < k + n} := by
  intro addr addr' hbits
  change (field addr lo mask).toNat = (field addr' lo mask).toNat
  rw [toNat_field (hk ▸ hlo) hmask, toNat_field (hk ▸ hlo) hmask, hk]
  apply Nat.eq_of_testBit_eq
  intro j
  rw [Nat.testBit_mod_two_pow, Nat.testBit_mod_two_pow, Nat.testBit_div_two_pow, Nat.testBit_div_two_pow]
  by_cases hj : j < n
  · have hmem : j + k ∈ {i | k ≤ i ∧ i < k + n} := by
      constructor <;> omega
    rw [hbits _ hmem]
  · simp [hj]

/-- Sets of bits that do not overlap. -/
theorem disjoint_bits {k m n l : ℕ} (h : k + m ≤ n) :
    Disjoint {i | n ≤ i ∧ i < n + l} {i | k ≤ i ∧ i < k + m} := by
  apply Set.disjoint_left.mpr
  rintro i ⟨hi, -⟩ ⟨-, hi'⟩
  omega

/-! ### The block size in force -/

theorem afterCalls_append (calls : List ℕ) (bsize : ℕ) :
    afterCalls (calls ++ [bsize]) = afterCalls calls ||| blocksizeCode bsize := by
  simp [afterCalls, setMaxBlocksize]

theorem blocksizeCode_of_ne {bsize : ℕ} (h32 : bsize ≠ 32) (h64 : bsize ≠ 64) : blocksizeCode bsize = 2 := by
  unfold blocksizeCode
  split
  · exact absurd rfl h32
  · exact absurd rfl h64
  · rfl

/-- The register after calls: a bit for 64 bytes, and a bit for the sizes other than 32 and 64. -/
theorem afterCalls_eq (calls : List ℕ) :
    afterCalls calls = (if 64 ∈ calls then 1 else 0) |||
      (if ∃ e ∈ calls, e ≠ 32 ∧ e ≠ 64 then 2 else 0) := by
  induction calls using List.reverseRecOn with
  | nil => rfl
  | append_singleton calls bsize ih =>
    have h64 : 64 ∈ calls ++ [bsize] ↔ 64 ∈ calls ∨ bsize = 64 := by
      simp [eq_comm]
    have hlarge : (∃ e ∈ calls ++ [bsize], e ≠ 32 ∧ e ≠ 64) ↔
        (∃ e ∈ calls, e ≠ 32 ∧ e ≠ 64) ∨ bsize ≠ 32 ∧ bsize ≠ 64 := by
      simp [or_and_right, exists_or]
    rw [afterCalls_append, ih]
    simp only [h64, hlarge]
    by_cases hb32 : bsize = 32
    · simp [hb32, blocksizeCode]
    · by_cases hb64 : bsize = 64
      · by_cases h : 64 ∈ calls <;> by_cases h' : ∃ e ∈ calls, e ≠ 32 ∧ e ≠ 64 <;>
          simp only [hb64, h, h', blocksizeCode, if_true, if_false, or_true, or_false, ne_eq,
            not_true_eq_false, and_false] <;> decide
      · by_cases h : 64 ∈ calls <;> by_cases h' : ∃ e ∈ calls, e ≠ 32 ∧ e ≠ 64 <;>
          simp only [hb32, hb64, h, h', blocksizeCode_of_ne hb32 hb64, if_true, if_false, or_true, or_false,
            ne_eq, not_false_eq_true, and_true] <;> decide

theorem blocksizeCode_eq_zero {e : ℕ} : blocksizeCode e = 0 ↔ e = 32 := by
  by_cases h32 : e = 32
  · simp [h32, blocksizeCode]
  · by_cases h64 : e = 64
    · simp [h64, blocksizeCode]
    · simp [blocksizeCode_of_ne h32 h64, h32]

theorem blocksizeCode_eq_one {e : ℕ} : blocksizeCode e = 1 ↔ e = 64 := by
  by_cases h32 : e = 32
  · simp [h32, blocksizeCode]
  · by_cases h64 : e = 64
    · simp [h64, blocksizeCode]
    · simp [blocksizeCode_of_ne h32 h64, h64]

theorem blocksizeCode_eq_two {e : ℕ} : blocksizeCode e = 2 ↔ e ≠ 32 ∧ e ≠ 64 := by
  by_cases h32 : e = 32
  · simp [h32, blocksizeCode]
  · by_cases h64 : e = 64
    · simp [h64, blocksizeCode]
    · simp [blocksizeCode_of_ne h32 h64, h32, h64]

theorem overwrites_32 {calls : List ℕ} :
    Overwrites calls 32 ↔ ¬ 64 ∈ calls ∧ ¬ ∃ e ∈ calls, e ≠ 32 ∧ e ≠ 64 := by
  unfold Overwrites
  simp only [show blocksizeCode 32 = 0 from rfl, blocksizeCode_eq_zero, or_self]
  constructor
  · intro h
    constructor
    · intro hmem
      exact absurd (h 64 hmem) (by decide)
    · rintro ⟨e, he, h32, -⟩
      exact h32 (h e he)
  · rintro ⟨h64, hlarge⟩ e he
    by_contra h32
    exact hlarge ⟨e, he, h32, fun heq => h64 (heq ▸ he)⟩

theorem overwrites_64 {calls : List ℕ} :
    Overwrites calls 64 ↔ ¬ ∃ e ∈ calls, e ≠ 32 ∧ e ≠ 64 := by
  unfold Overwrites
  simp only [show blocksizeCode 64 = 1 from rfl, blocksizeCode_eq_one]
  push Not
  constructor
  · intro h e he h32
    exact (h e he).resolve_left h32
  · intro h e he
    by_cases h32 : e = 32
    · exact Or.inl h32
    · exact Or.inr (h e he h32)

theorem overwrites_128 {calls : List ℕ} : Overwrites calls 128 ↔ ¬ 64 ∈ calls := by
  unfold Overwrites
  simp only [show blocksizeCode 128 = 2 from rfl, blocksizeCode_eq_two]
  constructor
  · intro h hmem
    have h64 := h 64 hmem
    omega
  · intro h e he
    by_cases h32 : e = 32
    · exact Or.inl h32
    · exact Or.inr ⟨h32, fun heq => h (heq ▸ he)⟩

/-- **The size in force** is that of the last call when the call leaves no bits of earlier ones. -/
theorem inForce_iff {calls : List ℕ} {bsize : ℕ} (hb : bsize = 32 ∨ bsize = 64 ∨ bsize = 128) :
    maxBlocksize (afterCalls (calls ++ [bsize])) = bsize ↔ Overwrites calls bsize := by
  rw [afterCalls_append, afterCalls_eq]
  rcases hb with rfl | rfl | rfl
  · rw [overwrites_32]
    by_cases h : 64 ∈ calls <;> by_cases h' : ∃ e ∈ calls, e ≠ 32 ∧ e ≠ 64 <;>
      simp only [h, h', if_true, if_false, not_true_eq_false, not_false_eq_true] <;> decide
  · rw [overwrites_64]
    by_cases h : 64 ∈ calls <;> by_cases h' : ∃ e ∈ calls, e ≠ 32 ∧ e ≠ 64 <;>
      simp only [h, h', if_true, if_false, not_true_eq_false, not_false_eq_true] <;> decide
  · rw [overwrites_128]
    by_cases h : 64 ∈ calls <;> by_cases h' : ∃ e ∈ calls, e ≠ 32 ∧ e ≠ 64 <;>
      simp only [h, h', if_true, if_false, not_true_eq_false, not_false_eq_true] <;> decide

/-! ### The decoders -/

variable {c : Cube} {calls : List ℕ} {bsize : ℕ}

theorem decodeQuad_lt (addr : UInt64) : decodeQuad c bsize addr < 4 := by
  have hfield (lo : UInt64) : (field addr lo 0x3).toNat < 4 :=
    Nat.lt_succ_of_le (UInt64.toNat_and .. ▸ Nat.and_le_right)
  unfold decodeQuad
  split_ifs
  all_goals first
    | exact (by decide : 0 < 4)
    | split <;> first
      | exact hfield _
      | exact (by decide : 0 < 4)

theorem decodeVault_lt (addr : UInt64) : decodeVault c bsize addr < vaultsPerQuad := by
  have hfield (lo : UInt64) : (field addr lo 0x7).toNat < 8 :=
    Nat.lt_succ_of_le (UInt64.toNat_and .. ▸ Nat.and_le_right)
  unfold decodeVault
  split_ifs
  all_goals first
    | exact (by decide : 0 < 8)
    | split <;> first
      | exact hfield _
      | exact (by decide : 0 < 8)

/-- The cubes of four links use eight banks. -/
theorem decodeBank_lt_eight (h4 : c.numLinks = 4) (addr : UInt64) : decodeBank c bsize addr < 8 := by
  have hfield (lo : UInt64) : (field addr lo 0x7).toNat < 8 :=
    Nat.lt_succ_of_le (UInt64.toNat_and .. ▸ Nat.and_le_right)
  unfold decodeBank
  rw [if_pos h4]
  split_ifs
  all_goals first
    | exact (by decide : 0 < 8)
    | split <;> first
      | exact hfield _
      | exact (by decide : 0 < 8)

/-- **Fields in a row**: where the decoders read the vault, the quadrant and the bank one above the
other, and the vault right above the block, they split the address. -/
theorem decodes_of_fields {k : ℕ} {vlo qlo blo : UInt64}
    (hvault : ∀ addr, decodeVault c bsize addr = (field addr vlo 0x7).toNat)
    (hquad : ∀ addr, decodeQuad c bsize addr = (field addr qlo 0x3).toNat)
    (hbank : ∀ addr, decodeBank c bsize addr = (field addr blo 0x7).toNat)
    (hvlo : vlo.toNat = k) (hqlo : qlo.toNat = k + 3) (hblo : blo.toNat = k + 5) (hk : k ≤ 26)
    (hbsize : bsize = 2 ^ k) (hquads : c.numQuads = 4) (hbanks : c.numBanks = 8)
    (hforce : maxBlocksize (afterCalls (calls ++ [bsize])) = bsize) : Decodes c calls bsize where
  inForce := hforce
  quad_lt addr _ := hquads ▸ decodeQuad_lt addr
  vault_lt addr _ := decodeVault_lt addr
  bank_lt addr _ := decodeBank_lt c bsize addr
  disjoint := by
    refine ⟨_, _, _, (funext hquad) ▸ reads_field (n := 2) hqlo (by omega) (by decide),
      (funext hvault) ▸ reads_field (n := 3) hvlo (by omega) (by decide),
      (funext hbank) ▸ reads_field (n := 3) hblo (by omega) (by decide),
      disjoint_bits (by omega), (disjoint_bits (by omega)).symm, (disjoint_bits (by omega)).symm, ?_⟩
    rintro i ((⟨hi, -⟩ | ⟨hi, -⟩) | ⟨hi, -⟩)
    all_goals
      rw [hbsize]
      exact Nat.pow_le_pow_right (by decide) (by omega)
  reached := by
    intro q v b hq hv hb
    rw [hquads] at hq
    rw [hbanks] at hb
    change v < 8 at hv
    -- the fields are the digits of the address above the block
    have hpow : 2 ^ k ≤ 2 ^ 26 := Nat.pow_le_pow_right (by decide) hk
    have hpos : 0 < 2 ^ k := Nat.two_pow_pos k
    have hlt : (v + 8 * q + 32 * b) * 2 ^ k < 2 ^ 34 := by
      calc (v + 8 * q + 32 * b) * 2 ^ k ≤ 255 * 2 ^ 26 := Nat.mul_le_mul (by omega) hpow
        _ < 2 ^ 34 := by decide
    have haddr : (UInt64.ofNat ((v + 8 * q + 32 * b) * 2 ^ k)).toNat = (v + 8 * q + 32 * b) * 2 ^ k :=
      UInt64.toNat_ofNat_of_lt' (hlt.trans (by decide))
    have haddr_lt : (UInt64.ofNat ((v + 8 * q + 32 * b) * 2 ^ k)).toNat < 2 ^ 34 := by
      rw [haddr]
      exact hlt
    refine ⟨UInt64.ofNat ((v + 8 * q + 32 * b) * 2 ^ k), haddr_lt, ?_, ?_, ?_⟩
    · rw [hquad, toNat_field (n := 2) (by omega) (by decide), haddr, hqlo, Nat.pow_add,
        ← Nat.div_div_eq_div_mul, Nat.mul_div_cancel _ hpos]
      omega
    · rw [hvault, toNat_field (n := 3) (by omega) (by decide), haddr, hvlo, Nat.mul_div_cancel _ hpos]
      omega
    · rw [hbank, toNat_field (n := 3) (by omega) (by decide), haddr, hblo, Nat.pow_add,
        ← Nat.div_div_eq_div_mul, Nat.mul_div_cancel _ hpos]
      omega

/-- The bit that the vault and the quadrant share for blocks of 64 bytes. -/
theorem field_overlap (addr : UInt64) (hquad : (field addr 8 0x3).toNat = 0) :
    (field addr 6 0x7).toNat ≠ 4 := by
  rw [toNat_field (n := 2) (by decide) (by decide)] at hquad
  rw [toNat_field (n := 3) (by decide) (by decide)]
  change addr.toNat / 2 ^ 8 % 2 ^ 2 = 0 at hquad
  change addr.toNat / 2 ^ 6 % 2 ^ 3 ≠ 4
  omega

/-- **The split of an address**: it is right exactly for cubes of four links, four gigabytes and eight
banks, with blocks of 32 or 128 bytes that were set over no other size. -/
theorem decodes_iff :
    Decodes c calls bsize ↔
      c.numLinks = 4 ∧ c.capacity = 4 ∧ c.numBanks = 8 ∧ (bsize = 32 ∨ bsize = 128) ∧
        Overwrites calls bsize := by
  constructor
  · intro h
    -- Every field is forced by one address that has to reach a place: with eight links the quad 4,
    -- which has no code in two bits.
    have hlinks : c.numLinks = 4 := by
      by_contra hne
      have hquads : c.numQuads = 8 := if_neg hne
      have hbanks := c.numBanks_eq
      obtain ⟨addr, -, hquad, -⟩ := h.reached 4 0 0 (by omega) (by decide) (by omega)
      exact absurd hquad (decodeQuad_lt addr).ne
    have hquads : c.numQuads = 4 := if_pos hlinks
    have hbanks := c.numBanks_eq
    -- Sixteen banks: the ninth is out of reach, since the field has three bits.
    have hbanks8 : c.numBanks = 8 := by
      by_contra hne
      obtain ⟨addr, -, -, -, hbank⟩ := h.reached 0 0 8 (by omega) (by decide) (by omega)
      exact absurd hbank (decodeBank_lt_eight hlinks addr).ne
    obtain ⟨addr, -, hquad, hvault, -⟩ := h.reached 0 4 0 (by omega) (by decide) (by omega)
    -- Some address decodes to vault 4; with another capacity all decode to vault 0.
    have hcapacity : c.capacity = 4 := by
      rcases c.capacity_eq with h4 | h6 | h8
      · exact h4
      · unfold decodeVault at hvault
        rw [if_pos hlinks, if_neg (by omega), if_neg (by omega)] at hvault
        exact absurd hvault (by decide)
      · exact absurd h8 (c.capacity_of_numLinks hlinks)
    have hsize : bsize = 32 ∨ bsize = 128 := by
      by_contra hne
      obtain ⟨h32, h128⟩ := not_or.mp hne
      have hforce := maxBlocksize_lt (afterCalls (calls ++ [bsize]))
      rw [h.inForce] at hforce
      unfold decodeQuad at hquad
      unfold decodeVault at hvault
      rw [if_pos hlinks, if_neg (by omega), if_pos hcapacity] at hquad hvault
      -- With blocks of 64 bytes the fields of quad and vault share a bit.
      split at hvault
      · exact h32 rfl
      · exact field_overlap addr hquad hvault
      · exact h128 rfl
      · exact absurd hforce (by decide)
      · exact absurd hvault (by decide)
    refine ⟨hlinks, hcapacity, hbanks8, hsize, (inForce_iff (by tauto)).mp h.inForce⟩
  · rintro ⟨hlinks, hcapacity, hbanks, hsize, hover⟩
    have hquads : c.numQuads = 4 := if_pos hlinks
    have hforce := (inForce_iff (by tauto)).mpr hover
    have hne : c.capacity ≠ 2 := by omega
    -- For both sizes the three fields lie side by side above the block.
    rcases hsize with rfl | rfl
    · have hvault (addr : UInt64) : decodeVault c 32 addr = (field addr 5 0x7).toNat := by
        unfold decodeVault
        rw [if_pos hlinks, if_neg hne, if_pos hcapacity]
        rfl
      have hquad (addr : UInt64) : decodeQuad c 32 addr = (field addr 8 0x3).toNat := by
        unfold decodeQuad
        rw [if_pos hlinks, if_neg hne, if_pos hcapacity]
        rfl
      have hbank (addr : UInt64) : decodeBank c 32 addr = (field addr 10 0x7).toNat := by
        unfold decodeBank
        rw [if_pos hlinks, if_neg hne, if_pos hcapacity]
        rfl
      exact decodes_of_fields (k := 5) hvault hquad hbank rfl rfl rfl (by decide) rfl hquads hbanks hforce
    · have hvault (addr : UInt64) : decodeVault c 128 addr = (field addr 7 0x7).toNat := by
        unfold decodeVault
        rw [if_pos hlinks, if_neg hne, if_pos hcapacity]
        rfl
      have hquad (addr : UInt64) : decodeQuad c 128 addr = (field addr 10 0x3).toNat := by
        unfold decodeQuad
        rw [if_pos hlinks, if_neg hne, if_pos hcapacity]
        rfl
      have hbank (addr : UInt64) : decodeBank c 128 addr = (field addr 12 0x7).toNat := by
        unfold decodeBank
        rw [if_pos hlinks, if_neg hne, if_pos hcapacity]
        rfl
      exact decodes_of_fields (k := 7) hvault hquad hbank rfl rfl rfl (by decide) rfl hquads hbanks hforce

/-- A cube of eight links, with the largest capacity. -/
def eightLinks : Cube where
  numDevs := 1
  numLinks := 8
  numVaults := 64
  queueDepth := 16
  numBanks := 16
  numDrams := 20
  capacity := 8
  xbarDepth := 64
  accepted := by decide

/-- No address of the cube with eight links is stored in its fifth quadrant. -/
theorem not_decodes_eightLinks :
    ¬ ∀ (c : Cube) (calls : List ℕ) (bsize : ℕ), bsize = 32 ∨ bsize = 64 ∨ bsize = 128 →
      Decodes c calls bsize := by
  intro h
  obtain ⟨addr, -, hquad, -⟩ :=
    (h eightLinks [] 64 (by decide)).reached 4 0 0 (by decide) (by decide) (by decide)
  exact absurd hquad (decodeQuad_lt addr).ne

end PIMSim.HMC
