import PIMSim.DDR.MultiChannel

/-!
# The sizes of the memory

`MultiChannelMemorySystem` makes a memory system for every channel, and each of them derives the number
of its ranks from the megabytes of the channel and those of a rank. The results are settings that all
channels share, so that every channel writes them again.

The megabytes of a rank are computed with machine numbers: first a product of 32 bits, then products of
64 bits, then a shift that drops what is no whole megabyte.

## Main definitions

* `Sizes`, `Derived`: the numbers that the constructors read, and those that they write
* `Sizes.memorySystem`, `Sizes.multiChannel`: the constructors
* `Sizes.Derives`: the constructors return, and the numbers they write are right
* `Sizes.Fit`: sizes that fit the machine numbers

## Main results

* `Sizes.derives_iff`: the numbers are right exactly when the sizes fit
* `Sizes.ranks_isPowerOfTwo`: the ranks are a power of two when the channels are
-/

namespace PIMSim.DDR

open CSharp

/-- A power of two of 32 bits. -/
def PowerOfTwo.ofLog (log : ℕ) : PowerOfTwo where
  val := UInt32.ofNat (2 ^ (log % 32))
  log := log % 32
  toNat_val := UInt32.toNat_ofNat_of_lt (Nat.pow_lt_pow_right Nat.one_lt_two (Nat.mod_lt log (by decide)))

/-- The numbers that the constructors read. -/
structure Sizes where
  numRows : PowerOfTwo
  numCols : PowerOfTwo
  numBanks : PowerOfTwo
  deviceWidth : PowerOfTwo
  jedecDataBusBits : PowerOfTwo
  megsOfMemory : PowerOfTwo
  numChans : UInt32
  numChans_pos : 0 < numChans

/-- The numbers that they write. `Config` starts with one rank. -/
structure Derived where
  numRanks : UInt32 := 1
  numRanksLog : UInt32 := 0
  numDevices : UInt32 := 0
  totalStorage : UInt64 := 0
deriving DecidableEq

/-- A quotient of unsigned numbers. -/
def divide (n m : UInt64) : Outcome UInt64 := if m = 0 then .error .divideByZero else .ok (n / m)

/-- The constructor of a list with a capacity. -/
def newList (capacity : Int) : Outcome Unit :=
  if capacity < 0 then .error .argumentOutOfRange else .ok ()

/-- `(int)NUM_RANKS * (int)NUM_BANKS` -/
def bankCount (numRanks numBanks : UInt32) : Int :=
  Int.bmod (toInt numRanks.toNat * toInt numBanks.toNat) (2 ^ 32)

/-- The lists that `MemoryController` reserves. -/
def MemoryController.reserve (numRanks numBanks : UInt32) : Outcome Unit := do
  newList (toInt numRanks.toNat)
  newList (toInt numBanks.toNat)
  newList (bankCount numRanks numBanks)

namespace Sizes

variable (z : Sizes)

/-- `NUM_COLS * DEVICE_WIDTH`, with 32 bits. -/
def rowBits : UInt32 := z.numCols.val * z.deviceWidth.val

/-- The cells of a device. -/
def deviceBits : UInt64 :=
  z.numRows.val.toUInt64 * z.rowBits.toUInt64 * z.numBanks.val.toUInt64

/-- The devices of a rank. -/
def devices : UInt64 := z.jedecDataBusBits.val.toUInt64 / z.deviceWidth.val.toUInt64

def megsOfStoragePerRank : UInt64 := (z.deviceBits * z.devices / 8) >>> 20

/-- The ranks are derived from the megabytes, if there are any. -/
def setRanks (megsOfMemory : UInt32) (d : Derived) : Outcome Derived :=
  if megsOfMemory ≠ 0 then do
    let quotient ← divide megsOfMemory.toUInt64 z.megsOfStoragePerRank
    let numRanks := quotient.toUInt32
    return { d with
      numRanks := if numRanks = 0 then 1 else numRanks
      numRanksLog := DRAMConfig.log2 numRanks.toUInt64 }
  else return d

/-- The constructor of `MemorySystem`. -/
def memorySystem (megsOfMemory : UInt32) (d : Derived) : Outcome Derived := do
  let d ← z.setRanks megsOfMemory d
  MemoryController.reserve d.numRanks z.numBanks.val
  return { d with
    numDevices := z.jedecDataBusBits.val / z.deviceWidth.val
    totalStorage := d.numRanks.toUInt64 * z.megsOfStoragePerRank }

/-- The megabytes of a channel. -/
def channelMegs : UInt32 := z.megsOfMemory.val / z.numChans

/-- The constructor of `MultiChannelMemorySystem`. -/
def multiChannel (d : Derived) : Outcome Derived :=
  if MultiChannelMemorySystem.isPowerOfTwo z.megsOfMemory.val.toUInt64 then
    (List.range z.numChans.toNat).foldlM (fun d _ => z.memorySystem z.channelMegs d) d
  else .error (.exit 1 "ERROR:  Please specify a power of 2 memory size")

/-! ### What is right -/

/-- No product wraps. -/
structure Unwrapped (d : Derived) : Prop where
  row : z.rowBits.toNat = z.numCols.val.toNat * z.deviceWidth.val.toNat
  array : (z.numRows.val.toUInt64 * z.rowBits.toUInt64).toNat =
    z.numRows.val.toNat * z.rowBits.toNat
  device : z.deviceBits.toNat =
    (z.numRows.val.toUInt64 * z.rowBits.toUInt64).toNat * z.numBanks.val.toNat
  rank : (z.deviceBits * z.devices).toNat = z.deviceBits.toNat * z.devices.toNat
  total : d.totalStorage.toNat = d.numRanks.toNat * z.megsOfStoragePerRank.toNat
  banks : bankCount d.numRanks z.numBanks.val = d.numRanks.toNat * z.numBanks.val.toNat

/-- The cells of a device, and the bits of a rank, as numbers without a bound. -/
def cellsPerDevice : ℕ :=
  z.numRows.val.toNat * (z.numCols.val.toNat * z.deviceWidth.val.toNat) * z.numBanks.val.toNat

def bitsPerRank : ℕ :=
  z.cellsPerDevice * (z.jedecDataBusBits.val.toNat / z.deviceWidth.val.toNat)

/-- **The numbers are right**: the constructors return, no product wraps, the ranks are a power of two
with the logarithm that is kept, the storage is that of all ranks, every rank of an address exists, and
another channel changes nothing. -/
def Derives : Prop :=
  ∃ d, z.multiChannel {} = .ok d ∧ z.Unwrapped d ∧
    d.numRanks.toNat = 2 ^ d.numRanksLog.toNat ∧
    d.totalStorage.toNat * 2 ^ 23 = d.numRanks.toNat * z.bitsPerRank ∧
    (∀ (cfg : DRAMConfig) (address : UInt64) (place : Place),
      cfg.numRanksLog = d.numRanksLog.toNat → addressMapping cfg address = .ok place →
        place.rank < d.numRanks.toNat) ∧
    z.memorySystem z.channelMegs d = .ok d

/-- The ranks of a channel, as a number without a bound. -/
def ranks : ℕ := max 1 (z.channelMegs.toNat / (z.bitsPerRank / 2 ^ 23))

/-- **Sizes that fit**: the products fit their machine numbers, a rank has a megabyte at least, the
ranks are a power of two, and the table of the banks fits a list. -/
structure Fit : Prop where
  row : z.numCols.val.toNat * z.deviceWidth.val.toNat < 2 ^ 32
  device : z.cellsPerDevice < 2 ^ 64
  rank : z.bitsPerRank < 2 ^ 64
  megabyte : 2 ^ 23 ≤ z.bitsPerRank ∨ z.channelMegs = 0 ∧ z.bitsPerRank = 0
  ranks : ∃ k, z.ranks = 2 ^ k
  banks : z.ranks * z.numBanks.val.toNat < 2 ^ 31

variable {z : Sizes} {d d' : Derived} {megs : UInt32}

/-! ### Products of machine numbers -/

theorem toNat_mul_of_lt {a b : UInt64} (h : a.toNat * b.toNat < 2 ^ 64) :
    (a * b).toNat = a.toNat * b.toNat := by
  rw [UInt64.toNat_mul]
  exact Nat.mod_eq_of_lt h

theorem toNat_devices : z.devices.toNat =
    z.jedecDataBusBits.val.toNat / z.deviceWidth.val.toNat := by
  rw [devices, UInt64.toNat_div, UInt32.toNat_toUInt64, UInt32.toNat_toUInt64]

/-- The products fit exactly when none of them wraps. -/
theorem Unwrapped.lt (h : z.Unwrapped d) :
    z.numCols.val.toNat * z.deviceWidth.val.toNat < 2 ^ 32 ∧ z.deviceBits.toNat = z.cellsPerDevice ∧
      (z.deviceBits * z.devices).toNat = z.bitsPerRank := by
  have hdevice : z.deviceBits.toNat = z.cellsPerDevice := by
    rw [h.device, h.array, h.row]
    rfl
  refine ⟨h.row ▸ z.rowBits.toNat_lt, hdevice, ?_⟩
  rw [h.rank, hdevice, toNat_devices]
  rfl

section Products

variable (hrow : z.numCols.val.toNat * z.deviceWidth.val.toNat < 2 ^ 32)
  (hdevice : z.cellsPerDevice < 2 ^ 64) (hrank : z.bitsPerRank < 2 ^ 64)

include hrow

theorem toNat_rowBits : z.rowBits.toNat = z.numCols.val.toNat * z.deviceWidth.val.toNat := by
  rw [rowBits, UInt32.toNat_mul]
  exact Nat.mod_eq_of_lt hrow

include hdevice

theorem toNat_array : (z.numRows.val.toUInt64 * z.rowBits.toUInt64).toNat =
    z.numRows.val.toNat * z.rowBits.toNat := by
  refine toNat_mul_of_lt ?_
  rw [UInt32.toNat_toUInt64, UInt32.toNat_toUInt64, toNat_rowBits hrow]
  exact (Nat.le_mul_of_pos_right _ z.numBanks.val_pos).trans_lt hdevice

theorem toNat_deviceBits : z.deviceBits.toNat = z.cellsPerDevice := by
  have harray := toNat_array hrow hdevice
  rw [toNat_rowBits hrow] at harray
  rw [deviceBits, toNat_mul_of_lt]
  · rw [harray, UInt32.toNat_toUInt64]
    rfl
  · rw [harray, UInt32.toNat_toUInt64]
    exact hdevice

include hrank

theorem toNat_rank : (z.deviceBits * z.devices).toNat = z.deviceBits.toNat * z.devices.toNat := by
  refine toNat_mul_of_lt ?_
  rw [toNat_deviceBits hrow hdevice, toNat_devices]
  exact hrank

theorem toNat_rank_eq : (z.deviceBits * z.devices).toNat = z.bitsPerRank := by
  rw [toNat_rank hrow hdevice hrank, toNat_deviceBits hrow hdevice, toNat_devices]
  rfl

end Products

/-- The megabytes of a rank, when no product wraps. -/
theorem toNat_megs (h : (z.deviceBits * z.devices).toNat = z.bitsPerRank) :
    z.megsOfStoragePerRank.toNat = z.bitsPerRank / 2 ^ 23 := by
  have hbytes : (z.deviceBits * z.devices / 8).toNat = z.bitsPerRank / 8 := by
    rw [UInt64.toNat_div, h]
    rfl
  rw [megsOfStoragePerRank, UInt64.toNat_shiftRight, hbytes, Nat.shiftRight_eq_div_pow,
    Nat.div_div_eq_div_mul]
  rfl

/-! ### The constructors -/

/-- The settings after a rank count was derived. -/
def derive (z : Sizes) (megs : UInt32) (d : Derived) : Derived :=
  let numRanks := (megs.toUInt64 / z.megsOfStoragePerRank).toUInt32
  { d with
    numRanks := if numRanks = 0 then 1 else numRanks
    numRanksLog := DRAMConfig.log2 numRanks.toUInt64 }

theorem setRanks_of_ne_zero (hmegs : megs ≠ 0) (hzero : z.megsOfStoragePerRank ≠ 0) (d : Derived) :
    z.setRanks megs d = .ok (z.derive megs d) := by
  unfold setRanks divide
  rw [if_pos hmegs, if_neg hzero]
  rfl

theorem setRanks_eq_ok (h : z.setRanks megs d = .ok d') :
    megs = 0 ∧ d' = d ∨ megs ≠ 0 ∧ z.megsOfStoragePerRank ≠ 0 ∧ d' = z.derive megs d := by
  by_cases hmegs : megs = 0
  · rw [setRanks, if_neg (not_not.mpr hmegs)] at h
    cases h
    exact .inl ⟨hmegs, rfl⟩
  · by_cases hzero : z.megsOfStoragePerRank = 0
    · rw [setRanks, if_pos hmegs, divide, if_pos hzero] at h
      cases h
    · rw [setRanks_of_ne_zero hmegs hzero] at h
      cases h
      exact .inr ⟨hmegs, hzero, rfl⟩

theorem memorySystem_eq_ok (h : z.memorySystem megs d = .ok d') :
    ∃ d₁, z.setRanks megs d = .ok d₁ ∧
      MemoryController.reserve d₁.numRanks z.numBanks.val = .ok () ∧ d' = { d₁ with
        numDevices := z.jedecDataBusBits.val / z.deviceWidth.val
        totalStorage := d₁.numRanks.toUInt64 * z.megsOfStoragePerRank } := by
  obtain ⟨d₁, hd₁, h⟩ := Outcome.bind_eq_ok.mp h
  obtain ⟨u, hreserve, h⟩ := Outcome.bind_eq_ok.mp h
  cases h
  exact ⟨d₁, hd₁, hreserve, rfl⟩

/-- **Another channel** changes nothing. -/
theorem memorySystem_again (h : z.memorySystem megs d = .ok d') :
    z.memorySystem megs d' = .ok d' := by
  obtain ⟨d₁, hd₁, hreserve, rfl⟩ := memorySystem_eq_ok h
  rcases setRanks_eq_ok hd₁ with ⟨hmegs, rfl⟩ | ⟨hmegs, hzero, rfl⟩
  · refine Outcome.bind_eq_ok.mpr ⟨_, if_neg (not_not.mpr hmegs), ?_⟩
    exact Outcome.bind_eq_ok.mpr ⟨(), hreserve, rfl⟩
  · refine Outcome.bind_eq_ok.mpr ⟨_, setRanks_of_ne_zero hmegs hzero _, ?_⟩
    exact Outcome.bind_eq_ok.mpr ⟨(), hreserve, rfl⟩

/-- A loop whose body changes nothing the second time. -/
theorem foldlM_again {α β : Type} {f : α → Outcome α} (hf : ∀ a b, f a = .ok b → f b = .ok b)
    {xs : List β} (hne : xs ≠ []) (a : α) : xs.foldlM (fun a _ => f a) a = f a := by
  induction xs generalizing a with
  | nil => exact absurd rfl hne
  | cons x xs ih =>
    rw [List.foldlM_cons]
    cases ha : f a with
    | error e => rfl
    | ok b =>
      rw [Outcome.ok_bind]
      by_cases hxs : xs = []
      · rw [hxs]
        rfl
      · rw [ih hxs, hf a b ha]

theorem multiChannel_eq (z : Sizes) (d : Derived) :
    z.multiChannel d = z.memorySystem z.channelMegs d := by
  unfold multiChannel
  rw [if_pos z.megsOfMemory.isPowerOfTwo_val]
  apply foldlM_again fun _ _ => memorySystem_again
  have hpos : 0 < z.numChans.toNat := UInt32.lt_iff_toNat_lt.mp z.numChans_pos
  rw [ne_eq, List.range_eq_nil]
  exact hpos.ne'

/-! ### The results -/

theorem toNat_quotient (z : Sizes) (megs : UInt32) :
    (megs.toUInt64 / z.megsOfStoragePerRank).toUInt32.toNat =
      megs.toNat / z.megsOfStoragePerRank.toNat := by
  have hle : megs.toNat / z.megsOfStoragePerRank.toNat < 2 ^ 32 :=
    (Nat.div_le_self _ _).trans_lt megs.toNat_lt
  rw [UInt64.toNat_toUInt32, UInt64.toNat_div, UInt32.toNat_toUInt64]
  exact Nat.mod_eq_of_lt hle

/-- The ranks that a channel derives. -/
theorem toNat_derive (z : Sizes) (megs : UInt32) (d : Derived) :
    (z.derive megs d).numRanks.toNat = max 1 (megs.toNat / z.megsOfStoragePerRank.toNat) := by
  have hquotient := toNat_quotient z megs
  unfold derive
  dsimp only
  split_ifs with hzero
  · rw [hzero] at hquotient
    rw [← hquotient]
    rfl
  · rw [hquotient]
    refine (Nat.max_eq_right (Nat.one_le_iff_ne_zero.mpr fun heq => hzero ?_)).symm
    exact UInt32.toNat_inj.mp (hquotient.trans heq)

/-- A rank number is cut to the bits of its field. -/
theorem rank_lt {cfg : DRAMConfig} {address : UInt64} {place : Place} (hlog : cfg.numRanksLog < 64)
    (h : addressMapping cfg address = .ok place) : place.rank < 2 ^ cfg.numRanksLog := by
  have hbits : Field.rank.bits cfg = cfg.numRanksLog :=
    (Geometry.shiftCount cfg.numRanksLog).trans (Nat.mod_eq_of_lt hlog)
  by_cases hscheme : cfg.addressMappingScheme = .scheme7
  · unfold addressMapping at h
    rw [hscheme] at h
    cases h
  · unfold addressMapping at h
    rw [AddressMappingScheme.order_eq hscheme] at h
    cases h
    obtain ⟨low, high, hsplit⟩ := List.append_of_mem (AddressMappingScheme.mem_order hscheme .rank)
    have hnodup := AddressMappingScheme.nodup_order cfg.addressMappingScheme
    rw [hsplit] at hnodup ⊢
    have hhigh : Field.rank ∉ high := (List.nodup_cons.mp (List.nodup_append.mp hnodup).2.1).1
    change (cutFields cfg {} _ (low ++ .rank :: high)).get .rank < _
    rw [get_cutFields _ _ _ _ hhigh, hbits]
    exact (Nat.mod_le _ _).trans_lt (Nat.mod_lt _ (Nat.two_pow_pos _))

/-- A table of banks that fits is reserved with its size. -/
theorem bankCount_eq_iff (n m : UInt32) (hn : 0 < n.toNat) (hm : 0 < m.toNat) :
    bankCount n m = n.toNat * m.toNat ↔ n.toNat * m.toNat < 2 ^ 31 := by
  constructor
  · intro h
    have hlt : bankCount n m < (2 ^ 32 + 1) / 2 := Int.bmod_lt (by decide)
    rw [h] at hlt
    have hlt' : (n.toNat : Int) * m.toNat < 2 ^ 31 := hlt
    exact_mod_cast hlt'
  · intro h
    have hn' : n.toNat < 2 ^ 31 := (Nat.le_mul_of_pos_right _ hm).trans_lt h
    have hm' : m.toNat < 2 ^ 31 := (Nat.le_mul_of_pos_left _ hn).trans_lt h
    have hint : ∀ k : ℕ, k < 2 ^ 31 → toInt k = k := fun k hk =>
      Int.bmod_eq_of_le_mul_two (by omega) (by omega)
    unfold bankCount
    rw [hint _ hn', hint _ hm']
    have hcast : (n.toNat : Int) * m.toNat < 2 ^ 31 := by exact_mod_cast h
    have hpos : (0 : Int) ≤ n.toNat * m.toNat := by positivity
    apply Int.bmod_eq_of_le_mul_two
    · omega
    · omega

theorem reserve_of_lt {n m : UInt32} (hn : 0 < n.toNat) (hm : 0 < m.toNat)
    (h : n.toNat * m.toNat < 2 ^ 31) : MemoryController.reserve n m = .ok () := by
  have hn' : n.toNat < 2 ^ 31 := (Nat.le_mul_of_pos_right _ hm).trans_lt h
  have hm' : m.toNat < 2 ^ 31 := (Nat.le_mul_of_pos_left _ hn).trans_lt h
  have hlist : ∀ k : ℕ, newList k = .ok () := fun k => if_neg (by omega)
  have hint : ∀ k : ℕ, k < 2 ^ 31 → toInt k = k := fun k hk =>
    Int.bmod_eq_of_le_mul_two (by omega) (by omega)
  unfold MemoryController.reserve
  rw [(bankCount_eq_iff n m hn hm).mpr h, hint _ hn', hint _ hm', hlist, hlist, ← Nat.cast_mul, hlist]
  rfl

/-- A quotient of powers of two. -/
theorem two_pow_div (a b : ℕ) : 2 ^ a / 2 ^ b = 0 ∨ ∃ k, 2 ^ a / 2 ^ b = 2 ^ k := by
  by_cases hle : b ≤ a
  · exact .inr ⟨a - b, Nat.pow_div hle (by decide)⟩
  · exact .inl (Nat.div_eq_of_lt (Nat.pow_lt_pow_right (by decide) (Nat.not_le.mp hle)))

theorem bitsPerRank_eq (z : Sizes) : z.bitsPerRank = 0 ∨ ∃ k, z.bitsPerRank = 2 ^ k := by
  unfold bitsPerRank cellsPerDevice
  rw [z.numRows.toNat_val, z.numCols.toNat_val, z.numBanks.toNat_val, z.deviceWidth.toNat_val,
    z.jedecDataBusBits.toNat_val]
  rcases two_pow_div z.jedecDataBusBits.log z.deviceWidth.log with hzero | ⟨k, hk⟩
  · exact .inl (by rw [hzero, Nat.mul_zero])
  · rw [hk, ← Nat.pow_add, ← Nat.pow_add, ← Nat.pow_add, ← Nat.pow_add]
    exact .inr ⟨_, rfl⟩

/-- A rank that fits is a whole number of megabytes. -/
theorem Fit.dvd (h : z.Fit) : 2 ^ 23 ∣ z.bitsPerRank := by
  rcases z.bitsPerRank_eq with hzero | ⟨k, hk⟩
  · rw [hzero]
    exact Nat.dvd_zero _
  · rcases h.megabyte with hle | ⟨-, hzero⟩
    · rw [hk] at hle ⊢
      exact Nat.pow_dvd_pow 2 ((Nat.pow_le_pow_iff_right (by decide)).mp hle)
    · rw [hzero]
      exact Nat.dvd_zero _

/-- **The ranks are a power of two** when the channels are. -/
theorem ranks_isPowerOfTwo {c : ℕ} (h : z.numChans.toNat = 2 ^ c) : ∃ k, z.ranks = 2 ^ k := by
  have hmax : ∀ n : ℕ, (n = 0 ∨ ∃ k, n = 2 ^ k) → ∃ k, max 1 n = 2 ^ k := by
    rintro n (rfl | ⟨k, rfl⟩)
    · exact ⟨0, rfl⟩
    · exact ⟨k, Nat.max_eq_right (Nat.one_le_two_pow)⟩
  refine hmax _ ?_
  rw [channelMegs, UInt32.toNat_div, h, z.megsOfMemory.toNat_val]
  rcases two_pow_div z.megsOfMemory.log c with hzero | ⟨a, ha⟩
  · rw [hzero, Nat.zero_div]
    exact .inl rfl
  · rw [ha]
    rcases z.bitsPerRank_eq with hzero | ⟨b, hb⟩
    · rw [hzero]
      simp
    · rw [hb]
      rcases two_pow_div b 23 with hzero | ⟨k, hk⟩
      · rw [hzero, Nat.div_zero]
        exact .inl rfl
      · rw [hk]
        exact two_pow_div a k

/-- The ranks after a constructor, as a number without a bound. -/
theorem toNat_numRanks (hmegs : z.megsOfStoragePerRank.toNat = z.bitsPerRank / 2 ^ 23)
    (h : z.setRanks z.channelMegs {} = .ok d) : d.numRanks.toNat = z.ranks := by
  unfold ranks
  rw [← hmegs]
  rcases setRanks_eq_ok h with ⟨hzero, rfl⟩ | ⟨-, -, rfl⟩
  · rw [hzero, UInt32.toNat_zero, Nat.zero_div]
    rfl
  · exact toNat_derive z _ _

/-- The logarithm that is kept is that of the ranks. -/
theorem numRanks_eq_two_pow (hranks : ∃ k, z.ranks = 2 ^ k)
    (hmegs : z.megsOfStoragePerRank.toNat = z.bitsPerRank / 2 ^ 23)
    (h : z.setRanks z.channelMegs {} = .ok d) : d.numRanks.toNat = 2 ^ d.numRanksLog.toNat := by
  obtain ⟨k, hk⟩ := hranks
  have hnum := (toNat_numRanks hmegs h).trans hk
  rcases setRanks_eq_ok h with ⟨-, rfl⟩ | ⟨-, -, rfl⟩
  · rfl
  · rw [hnum]
    unfold derive at hnum ⊢
    dsimp only at hnum ⊢
    split_ifs at hnum with hzero
    · rw [hzero]
      change 2 ^ k = 2 ^ (DRAMConfig.log2 0).toNat
      rw [log2_zero, ← hnum]
      rfl
    · have hlt : k < 32 := by
        have hsmall := UInt32.toNat_lt (z.channelMegs.toUInt64 / z.megsOfStoragePerRank).toUInt32
        rw [hnum] at hsmall
        exact (Nat.pow_lt_pow_iff_right (by decide)).mp hsmall
      rw [log2_two_pow hlt ((UInt32.toNat_toUInt64 _).trans hnum)]

/-- The storage of all ranks is a machine number. -/
theorem toNat_total (hmegs : z.megsOfStoragePerRank.toNat = z.bitsPerRank / 2 ^ 23)
    (h : z.setRanks z.channelMegs {} = .ok d) :
    (d.numRanks.toUInt64 * z.megsOfStoragePerRank).toNat =
      d.numRanks.toNat * z.megsOfStoragePerRank.toNat := by
  rw [toNat_mul_of_lt] <;> rw [UInt32.toNat_toUInt64]
  have hone : 1 * z.megsOfStoragePerRank.toNat < 2 ^ 64 := by
    rw [Nat.one_mul]
    exact z.megsOfStoragePerRank.toNat_lt
  rw [toNat_numRanks hmegs h, ranks, ← hmegs]
  rcases Nat.le_total 1 (z.channelMegs.toNat / z.megsOfStoragePerRank.toNat) with hle | hle
  · rw [Nat.max_eq_right hle]
    have hsmall := z.channelMegs.toNat_lt
    have hdiv := Nat.div_mul_le_self z.channelMegs.toNat z.megsOfStoragePerRank.toNat
    omega
  · rw [Nat.max_eq_left hle]
    exact hone

theorem one_le_ranks (z : Sizes) : 0 < z.ranks := Nat.le_max_left 1 _

theorem Derives.fit (h : z.Derives) : z.Fit := by
  obtain ⟨d, hd, hunwrapped, hpow, hstorage, -, -⟩ := h
  rw [multiChannel_eq] at hd
  obtain ⟨d₁, hd₁, hreserve, rfl⟩ := memorySystem_eq_ok hd
  obtain ⟨hrow, hdevice, hrank⟩ := hunwrapped.lt
  have hmegs := toNat_megs hrank
  have hranks : d₁.numRanks.toNat = z.ranks := toNat_numRanks hmegs hd₁
  have hbanks := hunwrapped.banks
  rw [bankCount_eq_iff _ _ (hranks ▸ z.one_le_ranks) z.numBanks.val_pos] at hbanks
  refine ⟨hrow, hdevice ▸ UInt64.toNat_lt _, hrank ▸ UInt64.toNat_lt _, ?_, ?_, ?_⟩
  · by_cases hle : 2 ^ 23 ≤ z.bitsPerRank
    · exact .inl hle
    · have hnone : z.megsOfStoragePerRank.toNat = 0 := by
        rw [hmegs]
        exact Nat.div_eq_of_lt (Nat.not_le.mp hle)
      rcases setRanks_eq_ok hd₁ with ⟨hzero, rfl⟩ | ⟨-, hne, -⟩
      · refine .inr ⟨hzero, ?_⟩
        -- one rank without a megabyte: its storage is none at all
        have htotal := hunwrapped.total
        rw [hnone, Nat.mul_zero] at htotal
        rw [htotal, Nat.zero_mul] at hstorage
        exact (Nat.one_mul _).symm.trans hstorage.symm
      · exact absurd (UInt64.toNat_inj.mp (hnone.trans UInt64.toNat_zero.symm)) hne
  · exact ⟨_, hranks ▸ hpow⟩
  · exact hranks ▸ hbanks

theorem Fit.derives (h : z.Fit) : z.Derives := by
  have hmegs := toNat_megs (toNat_rank_eq h.row h.device h.rank)
  obtain ⟨d₁, hd₁⟩ : ∃ d₁, z.setRanks z.channelMegs {} = .ok d₁ := by
    by_cases hzero : z.channelMegs = 0
    · exact ⟨_, if_neg (not_not.mpr hzero)⟩
    · refine ⟨_, setRanks_of_ne_zero hzero (fun hnone => ?_) _⟩
      rw [hnone, UInt64.toNat_zero] at hmegs
      rcases h.megabyte with hle | ⟨hzero', -⟩
      · have hpos := Nat.div_pos hle (by decide : 0 < 2 ^ 23)
        omega
      · exact hzero hzero'
  have hranks := toNat_numRanks hmegs hd₁
  have htotal := toNat_total hmegs hd₁
  have hpow := numRanks_eq_two_pow h.ranks hmegs hd₁
  have hpos : 0 < d₁.numRanks.toNat := hranks ▸ z.one_le_ranks
  have hbanks : d₁.numRanks.toNat * z.numBanks.val.toNat < 2 ^ 31 := hranks ▸ h.banks
  have hreserve := reserve_of_lt hpos z.numBanks.val_pos hbanks
  have hd : z.memorySystem z.channelMegs {} = .ok { d₁ with
      numDevices := z.jedecDataBusBits.val / z.deviceWidth.val
      totalStorage := d₁.numRanks.toUInt64 * z.megsOfStoragePerRank } :=
    Outcome.bind_eq_ok.mpr ⟨d₁, hd₁, Outcome.bind_eq_ok.mpr ⟨(), hreserve, rfl⟩⟩
  have hlog : d₁.numRanksLog.toNat < 32 := by
    have hsmall := d₁.numRanks.toNat_lt
    rw [hpow] at hsmall
    exact (Nat.pow_lt_pow_iff_right (by decide)).mp hsmall
  refine ⟨_, (multiChannel_eq z {}).trans hd, ?_, hpow, ?_, ?_, memorySystem_again hd⟩
  · refine ⟨toNat_rowBits h.row, toNat_array h.row h.device, ?_,
      toNat_rank h.row h.device h.rank, htotal, ?_⟩
    · rw [toNat_deviceBits h.row h.device, toNat_array h.row h.device, toNat_rowBits h.row]
      rfl
    · exact (bankCount_eq_iff _ _ hpos z.numBanks.val_pos).mpr hbanks
  · change (d₁.numRanks.toUInt64 * z.megsOfStoragePerRank).toNat * 2 ^ 23 = _
    rw [htotal, hmegs, Nat.mul_assoc, Nat.div_mul_cancel h.dvd]
  · intro cfg address place hcfg hplace
    change place.rank < d₁.numRanks.toNat
    rw [hpow]
    change cfg.numRanksLog = d₁.numRanksLog.toNat at hcfg
    rw [← hcfg]
    exact rank_lt (by omega) hplace

/-- **The sizes of the memory**: the constructors derive right numbers exactly when the sizes fit. -/
theorem derives_iff (z : Sizes) : z.Derives ↔ z.Fit := ⟨Derives.fit, Fit.derives⟩

theorem two_channels_pos : (0 : UInt32) < 2 := by decide

/-- Eight devices of eight bits with 32768 rows, and two gigabytes in two channels. -/
def twoGigabytes : Sizes where
  numRows := .ofLog 15
  numCols := .ofLog 10
  numBanks := .ofLog 3
  deviceWidth := .ofLog 3
  jedecDataBusBits := .ofLog 6
  megsOfMemory := .ofLog 11
  numChans := 2
  numChans_pos := two_channels_pos

/-- The gigabyte of a channel is less than a rank has, so that there is one rank. -/
example : twoGigabytes.Derives :=
  Fit.derives ⟨by decide, by decide, by decide, by decide, ⟨0, by decide⟩, by decide⟩

/-- A rank of 64 kilobytes has no megabyte. -/
def smallRank : Sizes := { twoGigabytes with numRows := .ofLog 0 }

/-- The megabytes of a channel are divided by those of a rank, which are none. -/
theorem not_derives_smallRank : ¬ smallRank.Derives := by
  rintro ⟨d, hd, -⟩
  rw [multiChannel_eq] at hd
  cases hd

end Sizes

end PIMSim.DDR
