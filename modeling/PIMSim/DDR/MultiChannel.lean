import Mathlib.Algebra.BigOperators.Group.List.Basic
import Mathlib.Data.Nat.Bitwise
import PIMSim.DDR.AddressMapping

/-!
# Channels and the geometry of the memory

The widths of the address fields are logarithms of the numbers in the settings, and a memory system
of several channels finds the channel of a transaction with a mapping of its own. The mapping of an
address below the capacity is then a matter of cutting a number into digits.

## Main definitions

* `DRAMConfig.log2`: the rounded logarithm of the settings
* `Geometry`, `Geometry.config`: numbers that are powers of two, and the settings made of them
* `MultiChannelMemorySystem.findChannelNumber`: the channel a transaction is given to
* `Geometry.Bijective`: every burst has a place of its own, which exists
* `Geometry.Suffices`: the numbers whose widths suffice for that

## Main results

* `Geometry.bijective_iff`: when the mapping is a bijection
-/

namespace PIMSim.DDR

open CSharp

theorem toNat_shiftRight_one (value : UInt64) : (value >>> 1).toNat = value.toNat / 2 := by
  rw [UInt64.toNat_shiftRight, Nat.shiftRight_eq_div_pow]
  rfl

theorem shiftRight_one_toNat_lt {value : UInt64} (h : 0 < value) :
    (value >>> 1).toNat < value.toNat := by
  have hpos : 0 < value.toNat := UInt64.lt_iff_toNat_lt.mp h
  rw [toNat_shiftRight_one]
  exact Nat.div_lt_self hpos (by decide)

/-- The loop of `log2`. -/
def log2Loop (value : UInt64) (logbase2 : UInt32) : UInt32 :=
  if 0 < value then log2Loop (value >>> 1) (logbase2 + 1) else logbase2
termination_by value.toNat
decreasing_by exact shiftRight_one_toNat_lt ‹_›

def DRAMConfig.log2 (value : UInt64) : UInt32 :=
  let logbase2 := log2Loop (value >>> 1) 0
  if ((1 : UInt32) <<< logbase2).toUInt64 < value then logbase2 + 1 else logbase2

/-- A setting that is a power of two. -/
structure PowerOfTwo where
  val : UInt32
  log : ℕ
  toNat_val : val.toNat = 2 ^ log

/-- The numbers that make up the memory. -/
structure Geometry where
  numChans : PowerOfTwo
  numRanks : PowerOfTwo
  numBanks : PowerOfTwo
  numRows : PowerOfTwo
  numCols : PowerOfTwo
  jedecDataBusBits : PowerOfTwo
  bl : PowerOfTwo

namespace Geometry

variable (g : Geometry)

/-- `JEDEC_DATA_BUS_BITS / 8` -/
def busBytes : UInt32 := g.jedecDataBusBits.val / 8

def transactionSize : UInt32 := g.busBytes * g.bl.val

def throwAwayBits : UInt32 := DRAMConfig.log2 g.transactionSize.toUInt64

def byteOffsetWidth : UInt32 := DRAMConfig.log2 g.busBytes.toUInt64

/-- The settings with the values that `ReadIniFile` and `MemorySystem` compute beforehand. -/
def config (cfg : DRAMConfig) : DRAMConfig :=
  { cfg with
    numBanks := g.numBanks.val.toNat
    numCols := g.numCols.val.toNat
    numRanks := g.numRanks.val.toNat
    bl := g.bl.val
    numBanksLog := (DRAMConfig.log2 g.numBanks.val.toUInt64).toNat
    numChansLog := (DRAMConfig.log2 g.numChans.val.toUInt64).toNat
    numRowsLog := (DRAMConfig.log2 g.numRows.val.toUInt64).toNat
    numColsLog := (DRAMConfig.log2 g.numCols.val.toUInt64).toNat
    numRanksLog := (DRAMConfig.log2 g.numRanks.val.toUInt64).toNat
    byteOffsetWidth := g.byteOffsetWidth.toNat
    colLowBitWidth := (g.throwAwayBits - g.byteOffsetWidth).toNat }

/-- The number of values of a field. -/
def part : Field → PowerOfTwo
  | .chan => g.numChans
  | .rank => g.numRanks
  | .bank => g.numBanks
  | .row => g.numRows
  | .column => g.numCols

/-- The number of bytes. -/
def capacity : ℕ :=
  g.numChans.val.toNat * g.numRanks.val.toNat * g.numBanks.val.toNat * g.numRows.val.toNat *
    g.numCols.val.toNat * g.busBytes.toNat

/-- The bytes of a burst, which `TRANSACTION_SIZE` keeps in 32 bits. -/
def transactionBytes : ℕ := g.busBytes.toNat * g.bl.val.toNat

end Geometry

namespace MultiChannelMemorySystem

/-- The class has a copy of the mapping. -/
def addressMapping (cfg : DRAMConfig) (physicalAddress : UInt64) : Outcome Place :=
  PIMSim.DDR.addressMapping cfg physicalAddress

/-- The class has a copy of `log2`. -/
def dramsimLog2 (value : UInt64) : UInt32 := DRAMConfig.log2 value

def isPowerOfTwo (x : UInt64) : Bool := (1 : UInt64) <<< (dramsimLog2 x).toUInt64 == x

def findChannelNumber (numChans : UInt32) (cfg : DRAMConfig) (addr : UInt64) : Outcome ℕ :=
  if numChans = 1 then .ok 0
  else if isPowerOfTwo numChans.toUInt64 then do
    let place ← addressMapping cfg addr
    if numChans.toNat ≤ place.chan then
      .error (.exit 1 ("ERROR Got channel index " ++ toString place.chan ++ " but only " ++
        toString numChans ++ " exist"))
    else .ok place.chan
  else .error (.exit 1 "ERROR  We can only support power of two # of channels.")

end MultiChannelMemorySystem

def Place.get (place : Place) : Field → ℕ
  | .chan => place.chan
  | .rank => place.rank
  | .bank => place.bank
  | .row => place.row
  | .column => place.column

/-- The fields below the column. -/
def AddressMappingScheme.below (scheme : AddressMappingScheme) : List Field :=
  (scheme.order.getD []).takeWhile (· ≠ .column)

/-- The fields above the column. -/
def AddressMappingScheme.above (scheme : AddressMappingScheme) : List Field :=
  ((scheme.order.getD []).dropWhile (· ≠ .column)).tail

namespace Geometry

variable (g : Geometry)

/-- The number of values a sequence of fields has. -/
def values (fields : List Field) : ℕ := (fields.map fun f => (g.part f).val.toNat).prod

/-- The place exists in the memory. -/
def Contains (place : Place) : Prop := ∀ f, place.get f < (g.part f).val.toNat

/-- **The mapping is a bijection**: every address of the memory is mapped to a place that exists, on
the channel the transaction is given to, and no two bursts share a place. -/
structure Bijective (cfg : DRAMConfig) : Prop where
  mapped : ∀ p : UInt64, p.toNat < g.capacity → ∃ place,
    addressMapping (g.config cfg) p = .ok place ∧ g.Contains place ∧
      MultiChannelMemorySystem.findChannelNumber g.numChans.val (g.config cfg) p = .ok place.chan
  injective : ∀ p q : UInt64, p.toNat < g.capacity → q.toNat < g.capacity →
    g.transactionBytes ∣ p.toNat → g.transactionBytes ∣ q.toNat →
      addressMapping (g.config cfg) p = addressMapping (g.config cfg) q → p = q

/-- **The widths suffice**: there is at most one burst; or its size fits 32 bits, and a row holds it
or no address goes beyond the column, since the fields above are no more than what the burst takes
off or the fields up to the column already use 64 bits. -/
def Suffices (scheme : AddressMappingScheme) : Prop :=
  g.capacity ≤ g.transactionBytes ∨
    g.transactionBytes < 2 ^ 32 ∧
      (g.bl.val ≤ g.numCols.val ∨ g.values scheme.above ≤ g.bl.val.toNat ∨
        2 ^ 64 ≤ g.transactionBytes * g.values scheme.below * g.numCols.val.toNat)

end Geometry

/-! ### Logarithms -/

theorem log2Loop_zero {value : UInt64} (h : value.toNat = 0) (n : UInt32) :
    log2Loop value n = n := by
  have hpos : ¬ 0 < value := by
    rw [UInt64.lt_iff_toNat_lt, h]
    exact Nat.lt_irrefl 0
  rw [log2Loop, if_neg hpos]

theorem log2Loop_two_pow {value : UInt64} {k : ℕ} (h : value.toNat = 2 ^ k) (n : UInt32) :
    log2Loop value n = n + UInt32.ofNat (k + 1) := by
  have hpos {value : UInt64} {k : ℕ} (h : value.toNat = 2 ^ k) : 0 < value := by
    rw [UInt64.lt_iff_toNat_lt, h]
    exact Nat.two_pow_pos k
  induction k generalizing value n with
  | zero =>
    have hhalf : (value >>> 1).toNat = 0 := by
      rw [toNat_shiftRight_one, h]
      rfl
    rw [log2Loop, if_pos (hpos h), log2Loop_zero hhalf]
    rfl
  | succ k ih =>
    have hhalf : (value >>> 1).toNat = 2 ^ k := by
      rw [toNat_shiftRight_one, h, Nat.pow_succ, Nat.mul_div_cancel _ (by decide)]
    rw [log2Loop, if_pos (hpos h), ih hhalf, UInt32.add_assoc]
    congr 1
    rw [UInt32.ofNat_add (k + 1) 1, UInt32.add_comm]
    rfl

/-- The logarithm of a power of two is exact. -/
theorem log2_two_pow {x : UInt64} {k : ℕ} (hk : k < 32) (hx : x.toNat = 2 ^ k) :
    (DRAMConfig.log2 x).toNat = k := by
  have hloop : log2Loop (x >>> 1) 0 = UInt32.ofNat k := by
    have hhalf := toNat_shiftRight_one x
    cases k with
    | zero => exact log2Loop_zero (by rw [hhalf, hx]; rfl) 0
    | succ k =>
      rw [hx, Nat.pow_succ, Nat.mul_div_cancel _ (by decide)] at hhalf
      rw [log2Loop_two_pow hhalf, UInt32.zero_add]
  have hofNat : (UInt32.ofNat k).toNat = k := UInt32.toNat_ofNat_of_lt' (hk.trans (by decide))
  have hexact : ¬ ((1 : UInt32) <<< UInt32.ofNat k).toUInt64 < x := by
    have hlt : 2 ^ k < 2 ^ 32 := Nat.pow_lt_pow_right (by decide) hk
    rw [UInt64.lt_iff_toNat_lt, hx, UInt32.toNat_toUInt64, UInt32.toNat_shiftLeft, hofNat,
      Nat.mod_eq_of_lt hk, Nat.shiftLeft_eq, UInt32.toNat_one, Nat.one_mul, Nat.mod_eq_of_lt hlt]
    exact Nat.lt_irrefl _
  unfold DRAMConfig.log2
  rw [hloop, if_neg hexact, hofNat]

theorem log2_zero : DRAMConfig.log2 0 = 0 := by
  unfold DRAMConfig.log2
  rw [log2Loop_zero rfl]
  rfl

namespace PowerOfTwo

variable (n : PowerOfTwo)

theorem log_lt : n.log < 32 := by
  have h := n.val.toNat_lt
  rw [n.toNat_val] at h
  exact (Nat.pow_lt_pow_iff_right (by decide)).mp h

@[simp] theorem log2_val : (DRAMConfig.log2 n.val.toUInt64).toNat = n.log :=
  log2_two_pow n.log_lt (by rw [UInt32.toNat_toUInt64, n.toNat_val])

theorem val_pos : 0 < n.val.toNat := by
  rw [n.toNat_val]
  exact Nat.two_pow_pos _

theorem isPowerOfTwo_val : MultiChannelMemorySystem.isPowerOfTwo n.val.toUInt64 = true := by
  have hlog := n.log_lt
  have hlt : 2 ^ n.log < 2 ^ 64 := Nat.pow_lt_pow_right (by decide) (by omega)
  rw [MultiChannelMemorySystem.isPowerOfTwo, MultiChannelMemorySystem.dramsimLog2, beq_iff_eq,
    ← UInt64.toNat_inj, UInt64.toNat_shiftLeft, UInt32.toNat_toUInt64, UInt32.toNat_toUInt64,
    n.log2_val, n.toNat_val, Nat.mod_eq_of_lt (by omega : n.log < 64), Nat.shiftLeft_eq,
    UInt64.toNat_one, Nat.one_mul, Nat.mod_eq_of_lt hlt]

theorem toNat_le_iff {m : PowerOfTwo} : n.val.toNat ≤ m.val.toNat ↔ n.log ≤ m.log := by
  rw [n.toNat_val, m.toNat_val, Nat.pow_le_pow_iff_right (by decide)]

end PowerOfTwo

/-! ### Digits -/

/-- The number of bits a field takes: the shift count keeps its low six bits. -/
def Field.bits (cfg : DRAMConfig) (f : Field) : ℕ := (f.width cfg).toNat % 64

/-- The bits of a sequence of fields. -/
def bitsOf (cfg : DRAMConfig) (fields : List Field) : ℕ := (fields.map (Field.bits cfg)).sum

@[simp] theorem Place.get_set_self (place : Place) (n : ℕ) (f : Field) :
    (place.set n f).get f = n := by
  cases f <;> rfl

theorem Place.get_set_of_ne (place : Place) (n : ℕ) {f f' : Field} (h : f' ≠ f) :
    (place.set n f).get f' = place.get f' := by
  cases f <;> cases f' <;> first | rfl | exact absurd rfl h

section Digits

variable {cfg : DRAMConfig} {fields : List Field}

theorem toNat_shiftRight_width (a : UInt64) (f : Field) :
    (a >>> f.width cfg).toNat = a.toNat / 2 ^ f.bits cfg := by
  rw [UInt64.toNat_shiftRight, Nat.shiftRight_eq_div_pow, Field.bits]

/-- What is lost when the low `w` bits are shifted out and zeros shifted in. -/
theorem toNat_xor_shift (a w : UInt64) :
    (a ^^^ ((a >>> w) <<< w)).toNat = a.toNat % 2 ^ (w.toNat % 64) := by
  have hlt : a.toNat >>> (w.toNat % 64) <<< (w.toNat % 64) < 2 ^ 64 := by
    rw [Nat.shiftRight_eq_div_pow, Nat.shiftLeft_eq]
    exact (Nat.div_mul_le_self _ _).trans_lt a.toNat_lt
  rw [UInt64.toNat_xor, UInt64.toNat_shiftLeft, UInt64.toNat_shiftRight, Nat.mod_eq_of_lt hlt]
  apply Nat.eq_of_testBit_eq
  intro i
  rw [Nat.testBit_xor, Nat.testBit_shiftLeft, Nat.testBit_shiftRight, Nat.testBit_mod_two_pow]
  by_cases hi : i < w.toNat % 64
  · simp [hi, Nat.not_le.mpr hi]
  · simp [hi, Nat.not_lt.mp hi, Nat.add_sub_cancel' (Nat.not_lt.mp hi)]

theorem get_cutFields_of_notMem {f : Field} (place : Place) (a : UInt64) (h : f ∉ fields) :
    (cutFields cfg place a fields).get f = place.get f := by
  induction fields generalizing place a with
  | nil => rfl
  | cons g fields ih =>
    obtain ⟨hg, hrest⟩ := not_or.mp (mt List.mem_cons.mpr h)
    rw [cutFields, ih _ _ hrest, Place.get_set_of_ne _ _ hg]

/-- A field is a digit of the address. -/
theorem get_cutFields {f : Field} (low high : List Field) (place : Place) (a : UInt64)
    (h : f ∉ high) :
    (cutFields cfg place a (low ++ f :: high)).get f =
      a.toNat / 2 ^ bitsOf cfg low % 2 ^ f.bits cfg % 2 ^ 32 := by
  induction low generalizing place a with
  | nil =>
    rw [List.nil_append, cutFields, get_cutFields_of_notMem _ _ h, Place.get_set_self,
      toNat_xor_shift]
    simp [bitsOf, Field.bits]
  | cons g low ih =>
    rw [List.cons_append, cutFields, ih, toNat_shiftRight_width, Nat.div_div_eq_div_mul,
      ← Nat.pow_add]
    rfl

/-- The fields tell the low bits of the address. -/
theorem mod_eq_of_cutFields (low high : List Field) (place place' : Place) (a b : UInt64)
    (hnodup : (low ++ high).Nodup) (hbits : ∀ f ∈ low, f.bits cfg ≤ 32)
    (h : ∀ f ∈ low, (cutFields cfg place a (low ++ high)).get f =
      (cutFields cfg place' b (low ++ high)).get f) :
    a.toNat % 2 ^ bitsOf cfg low = b.toNat % 2 ^ bitsOf cfg low := by
  induction low generalizing place place' a b with
  | nil => simp [bitsOf, Nat.mod_one]
  | cons f low ih =>
    rw [List.cons_append, List.nodup_cons] at hnodup
    obtain ⟨hf, hnodup⟩ := hnodup
    have hmod (n : ℕ) : n % 2 ^ f.bits cfg % 2 ^ 32 = n % 2 ^ f.bits cfg :=
      Nat.mod_eq_of_lt ((Nat.mod_lt _ (Nat.two_pow_pos _)).trans_le
        (Nat.pow_le_pow_right (by decide) (hbits f (List.mem_cons_self ..))))
    have hdigit := h f (List.mem_cons_self ..)
    have hrest := ih _ _ _ _ hnodup (fun g hg => hbits g (List.mem_cons_of_mem _ hg))
      fun g hg => h g (List.mem_cons_of_mem _ hg)
    rw [List.cons_append, cutFields, cutFields, get_cutFields_of_notMem _ _ hf,
      get_cutFields_of_notMem _ _ hf, Place.get_set_self, Place.get_set_self, toNat_xor_shift,
      toNat_xor_shift] at hdigit
    rw [toNat_shiftRight_width, toNat_shiftRight_width] at hrest
    rw [show (f.width cfg).toNat % 64 = f.bits cfg from rfl, hmod, hmod] at hdigit
    have hsum : bitsOf cfg (f :: low) = f.bits cfg + bitsOf cfg low := rfl
    rw [hsum, Nat.pow_add, Nat.mod_mul, Nat.mod_mul, hdigit, hrest]

end Digits

/-! ### Widths -/

theorem AddressMappingScheme.order_eq {scheme : AddressMappingScheme} (h : scheme ≠ .scheme7) :
    scheme.order = some (scheme.below ++ .column :: scheme.above) := by
  cases scheme <;> first | rfl | exact absurd rfl h

theorem AddressMappingScheme.nodup_order (scheme : AddressMappingScheme) :
    (scheme.below ++ .column :: scheme.above).Nodup := by
  cases scheme <;> decide

theorem AddressMappingScheme.mem_order {scheme : AddressMappingScheme} (h : scheme ≠ .scheme7)
    (f : Field) : f ∈ scheme.below ++ .column :: scheme.above := by
  cases scheme <;> first | exact absurd rfl h | cases f <;> decide

namespace Geometry

variable {g : Geometry} {cfg : DRAMConfig} {scheme : AddressMappingScheme} {o : ℕ}

variable (cfg) in
theorem bits_of_ne {f : Field} (h : f ≠ .column) : f.bits (g.config cfg) = (g.part f).log := by
  have hmod (n : PowerOfTwo) :
      (UInt64.ofNat (DRAMConfig.log2 n.val.toUInt64).toNat).toNat % 64 = n.log := by
    have hlt := n.log_lt
    rw [n.log2_val, UInt64.toNat_ofNat_of_lt' (hlt.trans (by decide)), Nat.mod_eq_of_lt (by omega)]
  cases f with
  | column => exact absurd rfl h
  | chan | rank | bank | row => exact hmod _

theorem values_pos (fields : List Field) : 0 < g.values fields := by
  refine List.prod_pos fun n hn => ?_
  obtain ⟨f, -, rfl⟩ := List.mem_map.mp hn
  exact (g.part f).val_pos

variable (cfg) in
theorem values_eq {fields : List Field} (h : .column ∉ fields) :
    g.values fields = 2 ^ bitsOf (g.config cfg) fields := by
  induction fields with
  | nil => rfl
  | cons f fields ih =>
    obtain ⟨hf, hrest⟩ := not_or.mp (mt List.mem_cons.mpr h)
    have hbits : bitsOf (g.config cfg) (f :: fields) =
        (g.part f).log + bitsOf (g.config cfg) fields := by
      rw [← bits_of_ne cfg (Ne.symm hf)]
      rfl
    rw [hbits, Nat.pow_add, ← ih hrest, ← (g.part f).toNat_val]
    rfl

theorem column_notMem (scheme : AddressMappingScheme) :
    .column ∉ scheme.below ∧ .column ∉ scheme.above := by
  cases scheme <;> decide

theorem capacity_eq (h : scheme ≠ .scheme7) :
    g.capacity = g.values scheme.below * g.numCols.val.toNat * g.values scheme.above *
      g.busBytes.toNat := by
  cases scheme with
  | scheme7 => exact absurd rfl h
  | scheme1 | scheme2 | scheme3 | scheme4 | scheme5 | scheme6 =>
    simp [values, capacity, AddressMappingScheme.below, AddressMappingScheme.above,
      AddressMappingScheme.order, part, -mul_eq_mul_right_iff]
    ring

/-! ### The bus and the burst -/

theorem exists_busBytes_eq (h : g.capacity ≠ 0) :
    ∃ o < 29, g.busBytes.toNat = 2 ^ o ∧ g.byteOffsetWidth.toNat = o := by
  have hdiv : g.busBytes.toNat = 2 ^ g.jedecDataBusBits.log / 2 ^ 3 := by
    rw [busBytes, UInt32.toNat_div, g.jedecDataBusBits.toNat_val]
    rfl
  have hle : 3 ≤ g.jedecDataBusBits.log := by
    by_contra hlt
    apply h
    rw [capacity, hdiv, Nat.div_eq_of_lt (Nat.pow_lt_pow_right (by decide) (by omega)),
      Nat.mul_zero]
  rw [Nat.pow_div hle (by decide)] at hdiv
  have hlt := g.jedecDataBusBits.log_lt
  refine ⟨_, ?_, hdiv, log2_two_pow (by omega) ?_⟩
  · omega
  · rw [UInt32.toNat_toUInt64, hdiv]

theorem transactionBytes_eq (ho : g.busBytes.toNat = 2 ^ o) :
    g.transactionBytes = 2 ^ (o + g.bl.log) := by
  rw [transactionBytes, ho, g.bl.toNat_val, Nat.pow_add]

/-- A shift count keeps its low six bits. -/
theorem shiftCount (n : ℕ) : (UInt64.ofNat n).toNat % 64 = n % 64 := by
  rw [UInt64.toNat_ofNat', Nat.mod_mod_of_dvd _ (by decide)]

/-- The bits of a burst that the column does not have. -/
theorem toNat_colLow (ho : g.busBytes.toNat = 2 ^ o) (hwidth : g.byteOffsetWidth.toNat = o)
    (hfits : g.transactionBytes < 2 ^ 32) :
    (g.throwAwayBits - g.byteOffsetWidth).toNat = g.bl.log := by
  have hsize : g.transactionSize.toNat = 2 ^ (o + g.bl.log) := by
    rw [← transactionBytes_eq ho, ← Nat.mod_eq_of_lt hfits]
    exact UInt32.toNat_mul ..
  have hlt : o + g.bl.log < 32 := by
    rw [transactionBytes_eq ho] at hfits
    exact (Nat.pow_lt_pow_iff_right (by decide)).mp hfits
  have hthrow : g.throwAwayBits.toNat = o + g.bl.log :=
    log2_two_pow hlt (by rw [UInt32.toNat_toUInt64, hsize])
  rw [UInt32.toNat_sub, hthrow, hwidth]
  omega

/-- The size of a burst is zero when it does not fit 32 bits. -/
theorem throwAwayBits_eq_zero (ho : g.busBytes.toNat = 2 ^ o)
    (hfits : ¬ g.transactionBytes < 2 ^ 32) : g.throwAwayBits = 0 := by
  have hle : 32 ≤ o + g.bl.log := by
    rw [transactionBytes_eq ho] at hfits
    exact Nat.le_of_not_lt fun h => hfits (Nat.pow_lt_pow_right (by decide) h)
  have hsize : g.transactionSize.toNat = 0 := by
    have hmul : g.transactionSize.toNat = g.transactionBytes % 2 ^ 32 := UInt32.toNat_mul ..
    rw [hmul, transactionBytes_eq ho]
    exact Nat.mod_eq_zero_of_dvd (Nat.pow_dvd_pow 2 hle)
  rw [throwAwayBits, UInt32.toNat_inj.mp (hsize.trans UInt32.toNat_zero.symm)]
  exact log2_zero

/-- What is shifted out before the fields are cut off. -/
theorem toNat_shiftRight_offset (ho : g.busBytes.toNat = 2 ^ o)
    (hwidth : g.byteOffsetWidth.toNat = o) (hlt : o < 29) (p : UInt64) :
    (p >>> UInt64.ofNat (g.config cfg).byteOffsetWidth >>>
        UInt64.ofNat (g.config cfg).colLowBitWidth).toNat =
      if g.transactionBytes < 2 ^ 32 then p.toNat / g.transactionBytes else 0 := by
  have hbl := g.bl.log_lt
  show (p >>> UInt64.ofNat g.byteOffsetWidth.toNat >>>
    UInt64.ofNat (g.throwAwayBits - g.byteOffsetWidth).toNat).toNat = _
  rw [UInt64.toNat_shiftRight, UInt64.toNat_shiftRight, Nat.shiftRight_eq_div_pow,
    Nat.shiftRight_eq_div_pow, shiftCount, shiftCount, hwidth, Nat.div_div_eq_div_mul,
    ← Nat.pow_add, Nat.mod_eq_of_lt (by omega : o < 64)]
  split
  · next hfits =>
    rw [toNat_colLow ho hwidth hfits, transactionBytes_eq ho,
      Nat.mod_eq_of_lt (by omega : g.bl.log < 64)]
  · next hfits =>
    have hpos : 32 ≤ o + g.bl.log := by
      rw [transactionBytes_eq ho] at hfits
      exact Nat.le_of_not_lt fun h => hfits (Nat.pow_lt_pow_right (by decide) h)
    have hcount : (g.throwAwayBits - g.byteOffsetWidth).toNat % 64 = 64 - o := by
      rw [throwAwayBits_eq_zero ho hfits, UInt32.toNat_sub, hwidth, UInt32.toNat_zero]
      omega
    rw [hcount, Nat.add_sub_cancel' (by omega)]
    exact Nat.div_eq_of_lt p.toNat_lt

variable (cfg) in
/-- The bits of the column that are cut off. -/
theorem column_bits (ho : g.busBytes.toNat = 2 ^ o) (hwidth : g.byteOffsetWidth.toNat = o)
    (hfits : g.transactionBytes < 2 ^ 32) : Field.column.bits (g.config cfg) =
      if g.bl.log ≤ g.numCols.log then g.numCols.log - g.bl.log
      else 64 - (g.bl.log - g.numCols.log) := by
  have hcols := g.numCols.log_lt
  have hbl := g.bl.log_lt
  show (UInt64.ofNat (((DRAMConfig.log2 g.numCols.val.toUInt64).toNat -
    (g.throwAwayBits - g.byteOffsetWidth).toNat : Int) % 64).toNat).toNat % 64 = _
  rw [shiftCount, g.numCols.log2_val, toNat_colLow ho hwidth hfits]
  split <;> omega

/-- The address the fields are cut from. -/
def offset (g : Geometry) (cfg : DRAMConfig) (p : UInt64) : UInt64 :=
  p >>> UInt64.ofNat (g.config cfg).byteOffsetWidth >>> UInt64.ofNat (g.config cfg).colLowBitWidth

theorem addressMapping_eq (h : cfg.addressMappingScheme ≠ .scheme7) (p : UInt64) :
    addressMapping (g.config cfg) p = .ok (cutFields (g.config cfg) {} (g.offset cfg p)
      (cfg.addressMappingScheme.below ++ .column :: cfg.addressMappingScheme.above)) := by
  have horder : (g.config cfg).addressMappingScheme.order =
    some (cfg.addressMappingScheme.below ++ .column :: cfg.addressMappingScheme.above) :=
      AddressMappingScheme.order_eq h
  simp only [addressMapping, horder]
  rfl

/-- The channel of a place that exists is the one found for the transaction. -/
theorem findChannelNumber_eq {p : UInt64} {place : Place}
    (hmap : addressMapping (g.config cfg) p = .ok place) (hplace : g.Contains place) :
    MultiChannelMemorySystem.findChannelNumber g.numChans.val (g.config cfg) p =
      .ok place.chan := by
  have hchan : place.chan < g.numChans.val.toNat := hplace .chan
  have hpow := g.numChans.isPowerOfTwo_val
  unfold MultiChannelMemorySystem.findChannelNumber
  by_cases hone : g.numChans.val = 1
  · rw [hone] at hchan
    rw [if_pos hone, Nat.lt_one_iff.mp hchan]
  · rw [if_neg hone, if_pos hpow, MultiChannelMemorySystem.addressMapping, hmap, Outcome.ok_bind,
      if_neg (Nat.not_le.mpr hchan)]

/-! ### Places -/

section Places

variable (hscheme : cfg.addressMappingScheme ≠ .scheme7) (ho : g.busBytes.toNat = 2 ^ o)
  (hwidth : g.byteOffsetWidth.toNat = o)

include hscheme ho hwidth

/-- The digits of an address whose burst goes no further than the column are in range. -/
theorem contains_place {p : UInt64}
    (hcol : g.transactionBytes < 2 ^ 32 ∧ g.bl.log ≤ g.numCols.log ∨
      (g.offset cfg p).toNat / 2 ^ bitsOf (g.config cfg) cfg.addressMappingScheme.below <
        2 ^ g.numCols.log) :
    g.Contains (cutFields (g.config cfg) {} (g.offset cfg p)
      (cfg.addressMappingScheme.below ++ .column :: cfg.addressMappingScheme.above)) := by
  intro f
  by_cases hf : f = .column
  · subst hf
    rw [get_cutFields _ _ _ _ (column_notMem _).2]
    show _ < g.numCols.val.toNat
    rw [g.numCols.toNat_val]
    rcases hcol with ⟨hfits, hle⟩ | hsmall
    · calc _ ≤ _ := Nat.mod_le _ _
        _ < 2 ^ Field.column.bits (g.config cfg) := Nat.mod_lt _ (Nat.two_pow_pos _)
        _ ≤ 2 ^ g.numCols.log := by
          rw [column_bits cfg ho hwidth hfits, if_pos hle]
          exact Nat.pow_le_pow_right (by decide) (Nat.sub_le _ _)
    · exact (Nat.mod_le _ _).trans_lt ((Nat.mod_le _ _).trans_lt hsmall)
  · obtain ⟨low, high, hsplit⟩ := List.append_of_mem (AddressMappingScheme.mem_order hscheme f)
    have hnodup := AddressMappingScheme.nodup_order cfg.addressMappingScheme
    rw [hsplit] at hnodup ⊢
    have hhigh : f ∉ high := (List.nodup_cons.mp (List.nodup_append.mp hnodup).2.1).1
    rw [get_cutFields _ _ _ _ hhigh, (g.part f).toNat_val, ← bits_of_ne cfg hf]
    exact (Nat.mod_le _ _).trans_lt (Nat.mod_lt _ (Nat.two_pow_pos _))

variable (hfits : g.transactionBytes < 2 ^ 32)

include hfits

/-- An address of the memory has no bits above its fields when a row holds a burst. -/
theorem offset_lt (hlt : o < 29) (hle : g.bl.log ≤ g.numCols.log) {p : UInt64}
    (hp : p.toNat < g.capacity) : (g.offset cfg p).toNat < 2 ^ bitsOf (g.config cfg)
      (cfg.addressMappingScheme.below ++ .column :: cfg.addressMappingScheme.above) := by
  have hcolumn := column_bits cfg ho hwidth hfits
  rw [if_pos hle] at hcolumn
  have hsum : bitsOf (g.config cfg)
      (cfg.addressMappingScheme.below ++ .column :: cfg.addressMappingScheme.above) =
        bitsOf (g.config cfg) cfg.addressMappingScheme.below + (g.numCols.log - g.bl.log +
          bitsOf (g.config cfg) cfg.addressMappingScheme.above) := by
    rw [← hcolumn]
    simp [bitsOf]
  rw [offset, toNat_shiftRight_offset ho hwidth hlt, if_pos hfits, hsum]
  apply Nat.div_lt_of_lt_mul
  calc p.toNat < g.capacity := hp
    _ = _ := ?_
  rw [capacity_eq hscheme, values_eq cfg (column_notMem _).1,
    values_eq cfg (column_notMem _).2, ho, g.numCols.toNat_val, transactionBytes_eq ho,
    ← Nat.pow_add, ← Nat.pow_add, ← Nat.pow_add, ← Nat.pow_add]
  congr 1
  omega

/-- The offsets of one place agree when a row holds a burst. -/
theorem offset_inj_of_le (hlt : o < 29) (hle : g.bl.log ≤ g.numCols.log) {p q : UInt64}
    (hp : p.toNat < g.capacity) (hq : q.toNat < g.capacity)
    (h : addressMapping (g.config cfg) p = addressMapping (g.config cfg) q) :
    (g.offset cfg p).toNat = (g.offset cfg q).toNat := by
  rw [addressMapping_eq hscheme, addressMapping_eq hscheme, Except.ok.injEq] at h
  have hbits : ∀ f ∈ cfg.addressMappingScheme.below ++ .column :: cfg.addressMappingScheme.above,
      f.bits (g.config cfg) ≤ 32 := by
    intro f _
    by_cases hf : f = .column
    · rw [hf, column_bits cfg ho hwidth hfits, if_pos hle]
      exact (Nat.sub_le _ _).trans g.numCols.log_lt.le
    · rw [bits_of_ne cfg hf]
      exact (g.part f).log_lt.le
  have hmod := mod_eq_of_cutFields
    (cfg.addressMappingScheme.below ++ .column :: cfg.addressMappingScheme.above) []
    {} {} (g.offset cfg p) (g.offset cfg q)
    (by rw [List.append_nil]; exact AddressMappingScheme.nodup_order _) hbits
    fun f _ => by rw [List.append_nil, h]
  rwa [Nat.mod_eq_of_lt (offset_lt hscheme ho hwidth hfits hlt hle hp),
    Nat.mod_eq_of_lt (offset_lt hscheme ho hwidth hfits hlt hle hq)] at hmod

/-- The offsets of one place agree when none goes beyond the column. -/
theorem offset_inj_of_lt (hle : ¬ g.bl.log ≤ g.numCols.log) {p q : UInt64}
    (hcol : ∀ x ∈ [p, q], (g.offset cfg x).toNat /
      2 ^ bitsOf (g.config cfg) cfg.addressMappingScheme.below < 2 ^ g.numCols.log)
    (h : addressMapping (g.config cfg) p = addressMapping (g.config cfg) q) :
    (g.offset cfg p).toNat = (g.offset cfg q).toNat := by
  rw [addressMapping_eq hscheme, addressMapping_eq hscheme, Except.ok.injEq] at h
  have hbits : ∀ f ∈ cfg.addressMappingScheme.below, f.bits (g.config cfg) ≤ 32 := by
    intro f hf
    rw [bits_of_ne cfg fun hcolumn => (column_notMem _).1 (hcolumn ▸ hf)]
    exact (g.part f).log_lt.le
  have hmod := mod_eq_of_cutFields cfg.addressMappingScheme.below
    (.column :: cfg.addressMappingScheme.above) {} {} (g.offset cfg p) (g.offset cfg q)
    (AddressMappingScheme.nodup_order _)
    hbits fun f _ => by rw [h]
  -- The digit of the column is all that is left of the offset.
  have hdigit (x : UInt64) (hx : x ∈ [p, q]) : (cutFields (g.config cfg) {} (g.offset cfg x)
      (cfg.addressMappingScheme.below ++ .column :: cfg.addressMappingScheme.above)).get .column =
        (g.offset cfg x).toNat / 2 ^ bitsOf (g.config cfg) cfg.addressMappingScheme.below := by
    have hcols := g.numCols.log_lt
    have hbl := g.bl.log_lt
    have hlt (n : ℕ) (hn : g.numCols.log ≤ n) : (g.offset cfg x).toNat /
        2 ^ bitsOf (g.config cfg) cfg.addressMappingScheme.below < 2 ^ n :=
      (hcol x hx).trans_le (Nat.pow_le_pow_right (by decide) hn)
    rw [get_cutFields _ _ _ _ (column_notMem _).2, column_bits cfg ho hwidth hfits, if_neg hle,
      Nat.mod_eq_of_lt (hlt _ (by omega)), Nat.mod_eq_of_lt (hlt _ (by omega))]
  have hdiv := hdigit p (by simp)
  rw [h, hdigit q (by simp)] at hdiv
  rw [← Nat.div_add_mod (g.offset cfg p).toNat, ← hdiv, hmod, Nat.div_add_mod]

end Places

/-! ### The bijection -/

/-- No address goes beyond the column. -/
theorem offset_div_lt (hscheme : cfg.addressMappingScheme ≠ .scheme7)
    (ho : g.busBytes.toNat = 2 ^ o) (hwidth : g.byteOffsetWidth.toNat = o) (hlt : o < 29)
    (hfits : g.transactionBytes < 2 ^ 32)
    (h : g.values cfg.addressMappingScheme.above ≤ g.bl.val.toNat ∨ 2 ^ 64 ≤
      g.transactionBytes * g.values cfg.addressMappingScheme.below * g.numCols.val.toNat)
    {p : UInt64} (hp : p.toNat < g.capacity) : (g.offset cfg p).toNat /
      2 ^ bitsOf (g.config cfg) cfg.addressMappingScheme.below < 2 ^ g.numCols.log := by
  have hbound : p.toNat <
      g.transactionBytes * g.values cfg.addressMappingScheme.below * g.numCols.val.toNat := by
    rcases h with habove | hlarge
    · calc p.toNat < g.capacity := hp
        _ = g.values cfg.addressMappingScheme.below * g.numCols.val.toNat *
              g.values cfg.addressMappingScheme.above * g.busBytes.toNat := capacity_eq hscheme
        _ ≤ g.values cfg.addressMappingScheme.below * g.numCols.val.toNat *
              g.bl.val.toNat * g.busBytes.toNat := by gcongr
        _ = _ := by
          rw [transactionBytes]
          ring
    · exact p.toNat_lt.trans_le hlarge
  rw [offset, toNat_shiftRight_offset ho hwidth hlt, if_pos hfits, Nat.div_div_eq_div_mul,
    ← values_eq cfg (column_notMem _).1, ← g.numCols.toNat_val]
  exact Nat.div_lt_of_lt_mul hbound

theorem Bijective.of_suffices (hscheme : cfg.addressMappingScheme ≠ .scheme7)
    (hcapacity : g.capacity ≠ 0) (h : g.Suffices cfg.addressMappingScheme) : g.Bijective cfg := by
  obtain ⟨o, hlt, ho, hwidth⟩ := exists_busBytes_eq hcapacity
  have hpos : 0 < g.transactionBytes := by
    rw [transactionBytes_eq ho]
    exact Nat.two_pow_pos _
  by_cases hfits : g.transactionBytes < 2 ^ 32
  · -- The low bits of the column are dropped with the offset: they have to be there, or nothing may
    -- lie above them.
    have hwide : g.bl.val.toNat ≤ g.numCols.val.toNat ∨
        (g.values cfg.addressMappingScheme.above ≤ g.bl.val.toNat ∨ 2 ^ 64 ≤
          g.transactionBytes * g.values cfg.addressMappingScheme.below * g.numCols.val.toNat) := by
      rcases h with hone | ⟨-, hle | habove⟩
      · rw [capacity_eq hscheme, transactionBytes, Nat.mul_comm g.busBytes.toNat, ho] at hone
        have hbelow := values_pos (g := g) cfg.addressMappingScheme.below
        have hcols := g.numCols.val_pos
        refine .inr (.inl ?_)
        calc g.values cfg.addressMappingScheme.above
            ≤ g.values cfg.addressMappingScheme.below * g.numCols.val.toNat *
                g.values cfg.addressMappingScheme.above :=
              Nat.le_mul_of_pos_left _ (Nat.mul_pos hbelow hcols)
          _ ≤ g.bl.val.toNat := Nat.le_of_mul_le_mul_right hone (Nat.two_pow_pos o)
      · exact .inl hle
      · exact .inr habove
    refine ⟨fun p hp => ?_, fun p q hp hq hdvd hdvd' h => ?_⟩
    · refine ⟨_, addressMapping_eq hscheme p, ?_⟩
      have hplace := contains_place hscheme ho hwidth (hwide.imp
        (fun hle => ⟨hfits, g.bl.toNat_le_iff.mp hle⟩)
        (offset_div_lt hscheme ho hwidth hlt hfits · hp))
      exact ⟨hplace, findChannelNumber_eq (addressMapping_eq hscheme p) hplace⟩
    · have hoffset : (g.offset cfg p).toNat = (g.offset cfg q).toNat := by
        by_cases hle : g.bl.log ≤ g.numCols.log
        · exact offset_inj_of_le hscheme ho hwidth hfits hlt hle hp hq h
        · have hrest := hwide.resolve_left (mt g.bl.toNat_le_iff.mp hle)
          refine offset_inj_of_lt hscheme ho hwidth hfits hle (fun x hx => ?_) h
          refine offset_div_lt hscheme ho hwidth hlt hfits hrest ?_
          simp only [List.mem_cons, List.not_mem_nil, or_false] at hx
          rcases hx with rfl | rfl
          · exact hp
          · exact hq
      rw [offset, offset, toNat_shiftRight_offset ho hwidth hlt,
        toNat_shiftRight_offset ho hwidth hlt, if_pos hfits, if_pos hfits] at hoffset
      rw [← UInt64.toNat_inj, ← Nat.div_mul_cancel hdvd, hoffset, Nat.div_mul_cancel hdvd']
  · -- A transaction as large as the whole memory: every address has the offset 0.
    have hone : g.capacity ≤ g.transactionBytes := h.resolve_right fun h => hfits h.1
    have hzero (p : UInt64) : (g.offset cfg p).toNat = 0 := by
      rw [offset, toNat_shiftRight_offset ho hwidth hlt, if_neg hfits]
    refine ⟨fun p _ => ?_, fun p q hp hq hdvd hdvd' _ => ?_⟩
    · have hplace := contains_place hscheme ho hwidth (.inr (by
        rw [hzero p, Nat.zero_div]
        exact Nat.two_pow_pos _))
      exact ⟨_, addressMapping_eq hscheme p, hplace,
        findChannelNumber_eq (addressMapping_eq hscheme p) hplace⟩
    · rw [← UInt64.toNat_inj, Nat.eq_zero_of_dvd_of_lt hdvd (hp.trans_le hone),
        Nat.eq_zero_of_dvd_of_lt hdvd' (hq.trans_le hone)]

/-- An address of a memory whose column is too narrow. -/
theorem Bijective.suffices (h : g.Bijective cfg) (hscheme : cfg.addressMappingScheme ≠ .scheme7)
    (hcapacity : g.capacity ≠ 0) : g.Suffices cfg.addressMappingScheme := by
  obtain ⟨o, hlt, ho, hwidth⟩ := exists_busBytes_eq hcapacity
  have hbl := g.bl.log_lt
  by_contra hnot
  obtain ⟨hmany, hnot⟩ := not_or.mp hnot
  by_cases hfits : g.transactionBytes < 2 ^ 32
  · obtain ⟨hle, hnot⟩ := not_or.mp (not_and.mp hnot hfits)
    obtain ⟨habove, hsmall⟩ := not_or.mp hnot
    -- The first address whose offset has a bit above the column.
    have hp : (UInt64.ofNat (g.transactionBytes * g.values cfg.addressMappingScheme.below *
        g.numCols.val.toNat)).toNat = g.transactionBytes *
          g.values cfg.addressMappingScheme.below * g.numCols.val.toNat :=
      UInt64.toNat_ofNat_of_lt' (Nat.not_le.mp hsmall)
    have hin : g.transactionBytes * g.values cfg.addressMappingScheme.below *
        g.numCols.val.toNat < g.capacity := by
      have hbelow := values_pos (g := g) cfg.addressMappingScheme.below
      have hbus : 0 < g.busBytes.toNat := ho ▸ Nat.two_pow_pos o
      have hcols := g.numCols.val_pos
      calc _ = g.values cfg.addressMappingScheme.below * g.numCols.val.toNat * g.bl.val.toNat *
              g.busBytes.toNat := by
            rw [transactionBytes]
            ring
        _ < g.values cfg.addressMappingScheme.below * g.numCols.val.toNat *
              g.values cfg.addressMappingScheme.above * g.busBytes.toNat := by
            have hlt := Nat.not_le.mp habove
            gcongr
        _ = g.capacity := (capacity_eq hscheme).symm
    obtain ⟨place, hmap, hplace, -⟩ := h.mapped _ (hp.symm ▸ hin)
    rw [addressMapping_eq hscheme, Except.ok.injEq] at hmap
    have hcolumn := hplace .column
    rw [← hmap, get_cutFields _ _ _ _ (column_notMem _).2, offset,
      toNat_shiftRight_offset ho hwidth hlt, if_pos hfits, hp, Nat.mul_assoc,
      Nat.mul_div_cancel_left _ (by rw [transactionBytes_eq ho]; exact Nat.two_pow_pos _),
      values_eq cfg (column_notMem _).1, Nat.mul_div_cancel_left _ (Nat.two_pow_pos _),
      column_bits cfg ho hwidth hfits, if_neg (mt g.bl.toNat_le_iff.mpr hle)] at hcolumn
    have hcols := g.numCols.log_lt
    have hkeep (n : ℕ) (hn : g.numCols.log < n) : g.numCols.val.toNat % 2 ^ n =
        g.numCols.val.toNat := by
      rw [g.numCols.toNat_val]
      exact Nat.mod_eq_of_lt (Nat.pow_lt_pow_right (by decide) hn)
    rw [hkeep _ (by omega), hkeep _ hcols] at hcolumn
    exact absurd hcolumn (Nat.lt_irrefl _)
  · have htwo : g.transactionBytes < 2 ^ 64 := by
      rw [transactionBytes_eq ho]
      exact Nat.pow_lt_pow_right (by decide) (by omega)
    have hp : (UInt64.ofNat g.transactionBytes).toNat = g.transactionBytes :=
      UInt64.toNat_ofNat_of_lt' htwo
    have hsame : g.offset cfg 0 = g.offset cfg (UInt64.ofNat g.transactionBytes) := by
      rw [← UInt64.toNat_inj, offset, offset, toNat_shiftRight_offset ho hwidth hlt,
        toNat_shiftRight_offset ho hwidth hlt, if_neg hfits, if_neg hfits]
    have heq := h.injective 0 (UInt64.ofNat g.transactionBytes) (Nat.pos_of_ne_zero hcapacity)
      (by rw [hp]; exact Nat.not_le.mp hmany) (Nat.dvd_zero _) (by rw [hp])
      (by rw [addressMapping_eq hscheme, addressMapping_eq hscheme, hsame])
    rw [← UInt64.toNat_inj, hp] at heq
    exact hfits (heq ▸ by decide)

/-- **The mapping is a bijection** on the memories without a byte, and on those whose widths suffice
unless the scheme is the seventh one: its branch is never taken, and the first address ends the
program. -/
theorem bijective_iff (g : Geometry) (cfg : DRAMConfig) : g.Bijective cfg ↔
    g.capacity = 0 ∨ cfg.addressMappingScheme ≠ .scheme7 ∧ g.Suffices cfg.addressMappingScheme := by
  constructor
  · intro h
    by_cases hcapacity : g.capacity = 0
    · exact .inl hcapacity
    have hscheme : cfg.addressMappingScheme ≠ .scheme7 := by
      intro hseventh
      obtain ⟨place, hmap, -⟩ := h.mapped 0 (Nat.pos_of_ne_zero hcapacity)
      have horder : (g.config cfg).addressMappingScheme.order = none := by
        show cfg.addressMappingScheme.order = none
        rw [hseventh]
        rfl
      simp only [addressMapping, horder] at hmap
      cases hmap
    exact .inr ⟨hscheme, h.suffices hscheme hcapacity⟩
  · rintro (hcapacity | ⟨hscheme, h⟩)
    · refine ⟨fun p hp => ?_, fun p q hp => ?_⟩ <;>
        exact absurd (hcapacity ▸ hp) (Nat.not_lt_zero _)
    · by_cases hcapacity : g.capacity = 0
      · refine ⟨fun p hp => ?_, fun p q hp => ?_⟩ <;>
          exact absurd (hcapacity ▸ hp) (Nat.not_lt_zero _)
      · exact .of_suffices hscheme hcapacity h

end Geometry

/-- Two channels of two ranks with eight banks of 16384 rows and 1024 columns, on a bus of 64 bits
with bursts of eight. -/
def twoChannels : Geometry where
  numChans := ⟨2, 1, rfl⟩
  numRanks := ⟨2, 1, rfl⟩
  numBanks := ⟨8, 3, rfl⟩
  numRows := ⟨16384, 14, rfl⟩
  numCols := ⟨1024, 10, rfl⟩
  jedecDataBusBits := ⟨64, 6, rfl⟩
  bl := ⟨8, 3, rfl⟩

/-- The seventh scheme maps no address. -/
theorem not_bijective_scheme7 :
    ¬ ∀ scheme, twoChannels.Bijective { addressMappingScheme := scheme } := by
  intro h
  obtain ⟨place, hmap, -⟩ := (h .scheme7).mapped 0 (by decide)
  cases hmap

end PIMSim.DDR
