import PIMSim.HMC.Packet
import PIMSim.Library.Arrays

/-!
# The memory cubes

The host is connected to cubes by links. A link ends in a crossbar with a queue of requests and a queue
of responses. Behind the crossbars are the vaults of the cube, each with two queues and the banks of the
memory.

`hmcsim_init` checks the sizes before it builds the queues, so that every size is within the bounds that
it checks, and every table has the size it was built with.

## Main definitions

* `Sizes`, `Sizes.refused`, `Cube`: the arguments of `hmcsim_init`, the check, and sizes that passed it
* `HmcQueue`, `HmcBank`, `Vault`, `HmcDev`: the tables of a cube
* `HMCSim`: the state of the simulator
* `maxBlocksize`, `decodeBank`: the block size of a cube, and the bank of an address

## Main results

* `decodeBank_lt`: the bank of an address exists
* `maxBlocksize_lt`: no block has 256 bytes
-/

namespace PIMSim.HMC

open CSharp Fields

/-! ### Sizes -/

/-- The arguments of `hmcsim_init`. -/
structure Sizes where
  numDevs : ℕ
  numLinks : ℕ
  numVaults : ℕ
  queueDepth : ℕ
  numBanks : ℕ
  numDrams : ℕ
  capacity : ℕ
  xbarDepth : ℕ
deriving DecidableEq

/-- `hmcsim_init` returns an error for its arguments. -/
def Sizes.refused (z : Sizes) : Bool :=
  8 < z.numDevs || z.numDevs < 1 ||
    z.numLinks < 4 || 8 < z.numLinks ||
    z.numVaults < 32 || 64 < z.numVaults ||
    z.numBanks < 8 || 32 < z.numBanks ||
    z.numDrams < 20 || 20 < z.numDrams ||
    z.capacity < 4 || 8 < z.capacity ||
    z.queueDepth < 2 || 65536 < z.queueDepth ||
    z.xbarDepth < 2 || 65536 < z.xbarDepth ||
    -- the sizes that the addresses are made for
    (z.numBanks != 8 && z.numBanks != 16) ||
    (z.numLinks != 4 && z.numLinks != 8) ||
    z.numVaults / z.numLinks != 8 ||
    z.capacity % 2 != 0 ||
    (z.capacity == 2 && (z.numBanks == 16 || z.numLinks == 8)) ||
    (z.capacity == 4 && (z.numBanks == 16 && z.numLinks == 8)) ||
    (z.capacity == 8 && (z.numBanks == 8 || z.numLinks == 4))

/-- Sizes that `hmcsim_init` accepts. -/
structure Cube extends Sizes where
  accepted : toSizes.refused = false

namespace Cube

variable (c : Cube)

theorem numDevs_le : 1 ≤ c.numDevs ∧ c.numDevs ≤ 8 := by
  have h := c.accepted
  simp only [Sizes.refused, Bool.or_eq_false_iff, decide_eq_false_iff_not] at h
  omega

theorem numLinks_eq : c.numLinks = 4 ∨ c.numLinks = 8 := by
  have h := c.accepted
  simp only [Sizes.refused, Bool.or_eq_false_iff, Bool.and_eq_false_iff, bne_eq_false_iff_eq] at h
  tauto

theorem numBanks_eq : c.numBanks = 8 ∨ c.numBanks = 16 := by
  have h := c.accepted
  simp only [Sizes.refused, Bool.or_eq_false_iff, Bool.and_eq_false_iff, bne_eq_false_iff_eq] at h
  tauto

theorem numBanks_pos : 0 < c.numBanks := by
  have h := c.numBanks_eq
  omega

/-- Cubes of eight gigabytes have sixteen banks. -/
theorem numBanks_of_capacity (h8 : c.capacity = 8) : c.numBanks = 16 := by
  have h := c.accepted
  have hbanks := c.numBanks_eq
  simp only [Sizes.refused, Bool.or_eq_false_iff, Bool.and_eq_false_iff, beq_eq_false_iff_ne, h8] at h
  tauto

theorem capacity_eq : c.capacity = 4 ∨ c.capacity = 6 ∨ c.capacity = 8 := by
  have h := c.accepted
  simp only [Sizes.refused, Bool.or_eq_false_iff, decide_eq_false_iff_not, bne_eq_false_iff_eq] at h
  omega

/-- Cubes of four links do not have eight gigabytes. -/
theorem capacity_of_numLinks (h4 : c.numLinks = 4) : c.capacity ≠ 8 := by
  intro h8
  have h := c.accepted
  simp [Sizes.refused, h4, h8] at h

theorem xbarDepth_pos : 0 < c.xbarDepth := by
  have h := c.accepted
  simp only [Sizes.refused, Bool.or_eq_false_iff, decide_eq_false_iff_not] at h
  omega

end Cube

/-- A cube of four links. -/
def fourLinks : Cube where
  numDevs := 1
  numLinks := 4
  numVaults := 32
  queueDepth := 2
  numBanks := 8
  numDrams := 20
  capacity := 4
  xbarDepth := 2
  accepted := by decide

/-! ### Tables -/

/-- The words of a packet in a queue or a bank. -/
abbrev Words := Vector UInt64 maxUqPacket

/-- The valid codes of a slot. -/
inductive Slot
  | invalid
  | valid
  | conflict
  | stalled
  | new
  | zombie
deriving DecidableEq

/-- `hmc_queue` -/
structure HmcQueue where
  valid : Slot := .invalid
  packet : Words := Vector.replicate maxUqPacket 0
deriving DecidableEq

/-- `hmcsim_util_zero_packet` -/
def HmcQueue.zero : HmcQueue := {}

/-- `hmc_bank` -/
structure HmcBank where
  delay : ℕ := 0
  valid : Slot := .invalid
  packet : Words := Vector.replicate maxUqPacket 0
deriving DecidableEq

/-- `hmc_vault` -/
structure Vault (c : Cube) where
  rqstQueue : Vector HmcQueue c.queueDepth
  rspQueue : Vector HmcQueue c.queueDepth
  banks : Vector HmcBank c.numBanks
deriving DecidableEq

/-- `hmc_xbar` -/
structure Xbar (c : Cube) where
  rqst : Vector HmcQueue c.xbarDepth
  rsp : Vector HmcQueue c.xbarDepth
deriving DecidableEq

/-- `hmc_dev`, with its vaults in one table and the register that holds the block size. -/
structure HmcDev (c : Cube) where
  /-- The links that lead to the host. -/
  hostLinks : Vector Bool c.numLinks
  xbar : Vector (Xbar c) c.numLinks
  vaults : Vector (Vault c) c.numVaults
  addressConfig : UInt64
deriving DecidableEq

/-- `HMC_MAX_CMC` -/
def maxCmc : ℕ := 70

/-- `hmc_cmc`. Nothing in the simulator sets the function that executes a custom command. -/
structure HmcCmc where
  active : Bool := false
  rspCmd : HmcResponse := .rdRs
deriving DecidableEq

/-- The tokens, by their status: unused, set without a response, and set with one. -/
abbrev Tokens := Vector ℕ 1024

/-- The state of the simulator. -/
structure HMCSim (c : Cube) where
  devs : Vector (HmcDev c) c.numDevs
  cmcs : Vector HmcCmc maxCmc
  tokens : Tokens
deriving DecidableEq

/-! ### Addresses -/

/-- `hmcsim_util_get_max_blocksize`, by the address configuration register. The codes of a vendor leave
the size at zero. -/
def maxBlocksize (addressConfig : UInt64) : ℕ :=
  match (addressConfig &&& 0xF).toNat with
  | 0x0 | 0x8 | 0xA => 32
  | 0x1 | 0x9 => 64
  | 0x2 => 128
  | _ => 0

theorem maxBlocksize_lt (addressConfig : UInt64) : maxBlocksize addressConfig < 256 := by
  unfold maxBlocksize
  split <;> decide

/-- `hmcsim_util_decode_bank` -/
def decodeBank (c : Cube) (bsize : ℕ) (addr : UInt64) : ℕ :=
  if c.numLinks = 4 then
    if c.capacity = 2 then
      match bsize with
      | 32 => (field addr 9 0x7).toNat
      | 64 => (field addr 10 0x7).toNat
      | 128 => (field addr 11 0x7).toNat
      | _ => 0
    -- the comments of the source put each field one bit lower than its shifts do
    else if c.capacity = 4 then
      match bsize with
      | 32 => (field addr 10 0x7).toNat
      | 64 => (field addr 11 0x7).toNat
      | 128 => (field addr 12 0x7).toNat
      | 256 => (field addr 13 0x7).toNat
      | _ => 0
    else 0
  else if c.numLinks = 8 then
    if c.capacity = 4 then
      match bsize with
      | 32 => (field addr 10 0x7).toNat
      | 64 => (field addr 11 0x7).toNat
      | 128 => (field addr 12 0x7).toNat
      | 256 => (field addr 13 0x7).toNat
      | _ => 0
    else if c.capacity = 8 then
      match bsize with
      | 32 => (field addr 10 0xF).toNat
      | 64 => (field addr 11 0xF).toNat
      | 128 => (field addr 12 0xF).toNat
      | 256 => (field addr 13 0xF).toNat
      | _ => 0
    else 0
  else 0

/-- **The bank of an address** exists. -/
theorem decodeBank_lt (c : Cube) (bsize : ℕ) (addr : UInt64) : decodeBank c bsize addr < c.numBanks := by
  have hbanks := c.numBanks_eq
  have hpos := c.numBanks_pos
  have hthree (lo : UInt64) : (field addr lo 0x7).toNat < 8 :=
    Nat.lt_succ_of_le (UInt64.toNat_and .. ▸ Nat.and_le_right)
  have hfour (lo : UInt64) : (field addr lo 0xF).toNat < 16 :=
    Nat.lt_succ_of_le (UInt64.toNat_and .. ▸ Nat.and_le_right)
  have hsmall (lo : UInt64) : (field addr lo 0x7).toNat < c.numBanks := (hthree lo).trans_le (by omega)
  unfold decodeBank
  split_ifs with _ _ _ _ _ h8
  all_goals first
    | exact hpos
    | split <;> first
      | exact hsmall _
      | exact hpos
      | exact (hfour _).trans_le (c.numBanks_of_capacity h8).ge

end PIMSim.HMC
