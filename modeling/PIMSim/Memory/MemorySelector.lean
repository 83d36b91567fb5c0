import Mathlib.Data.Nat.Log
import PIMSim.Library.Binary
import PIMSim.Library.Intervals

/-!
# The memory selector

`MemorySelector` lays the memory objects of the system out in one address space and finds the
object an address belongs to.

## Main definitions

* `Region`: a memory object with its first and its last address
* `add`, `addAll`: the layout, one memory object after another
* `getId`, `resize`: the index of the object an address selects, and the address cut to the width
  of the layout
* `getRAMSize`: the size of the whole layout
* `capacity last`: the power of two `resize` cuts to, when the layout ends at `last`

## Main results

* `resize_eq`: an address is cut to its lowest `log2` bits
* `resize_idem`: cutting twice is cutting once
-/

namespace PIMSim

open CSharp

/-- An entry of `MemoryInfo`: the first and the last address, and the memory object. -/
structure Region (Obj : Type) where
  start : UInt64
  stop : UInt64
  obj : Obj
deriving DecidableEq, Repr

namespace MemorySelector

variable {Obj : Type}

/-- The rounds of `while (value > 0)`. A 64-bit value is shifted to zero in 64 rounds. -/
def countShifts : ℕ → UInt64 → ℕ → ℕ
  | 0, _, logbase2 => logbase2
  | n + 1, value, logbase2 =>
    if 0 < value then countShifts n (value >>> 1) (logbase2 + 1) else logbase2

/-- The private `log2`. The test shifts a 32-bit one, whose shift count keeps its low five bits. -/
def log2 (value : UInt64) : ℕ :=
  let logbase2 := countShifts 64 (value >>> 1) 0
  if 2 ^ (logbase2 % 32) < value.toNat then logbase2 + 1 else logbase2

/-- The 64 base-two digits of `i`. -/
def toBinary (i : UInt64) : List Char := digits64 i

/-- A memory object of `2 ^ max` bytes is added. The shift count keeps its low six bits. -/
def add (info : List (Region Obj)) (max : Int) (obj : Obj) : List (Region Obj) :=
  let max_ : UInt64 := 1 <<< UInt64.ofInt max
  match info.getLast? with
  | none => [⟨0, max_ - 1, obj⟩]
  | some last => info ++ [⟨last.stop + 1, last.stop + max_ - 1, obj⟩]

/-- The layout after a sequence of calls of `add`. -/
def addAll (adds : List (Int × Obj)) : List (Region Obj) :=
  adds.foldl (fun info a => add info a.1 a.2) []

/-- The test of `getId` on one region. -/
def Region.holds (r : Region Obj) (address : UInt64) : Bool :=
  decide (r.start ≤ address) && decide (address ≤ r.stop)

/-- `MemoryInfo[MemoryInfo.Count - 1]` -/
def lastRegion (info : List (Region Obj)) : Outcome (Region Obj) :=
  listAt info ((info.length : Int) - 1)

/-- The address cut to as many bits as the layout's last address has. -/
def resize (info : List (Region Obj)) (addr : UInt64) : Outcome UInt64 := do
  let last ← lastRegion info
  let max_ : Int := log2 last.stop
  let item := toBinary addr
  let item ← substring (toBinary addr) ((item.length : Int) - max_)
  toUInt64 item

/-- The linear search of `getId`. -/
def searchId (info : List (Region Obj)) (res : UInt64) : Int :=
  match info.findIdx? (Region.holds · res) with
  | some i => i
  | none => -1

/-- The index of the memory object an address selects. -/
def getId (info : List (Region Obj)) (address : UInt64) : Outcome Int := do
  if address < 0 then
    .error (.exit 1)
  let last ← lastRegion info
  let res ← if last.stop < address then resize info address else pure address
  return searchId info res

/-- The size of the whole layout. -/
def getRAMSize (info : List (Region Obj)) : Outcome UInt64 :=
  match info.getLast? with
  | none => .error .invalidOperation
  | some last => .ok (last.stop + 1)

/-! ### The width of the layout -/

/-- The power of two `resize` cuts to, when the layout ends at `last`: the least one not below
`last`, and from `2 ^ 32` on the least one above it. -/
def capacity (last : UInt64) : ℕ :=
  if last.toNat < 2 ^ 32 then 2 ^ Nat.clog 2 last.toNat else 2 ^ (Nat.log 2 last.toNat + 1)

theorem toNat_half (value : UInt64) : (value >>> 1).toNat = value.toNat / 2 := by
  simp [UInt64.toNat_shiftRight, Nat.shiftRight_eq_div_pow]

theorem countShifts_eq (n : ℕ) (value : UInt64) (k : ℕ) (h : value.toNat < 2 ^ (n + 1)) :
    countShifts n (value >>> 1) k = k + Nat.log 2 value.toNat := by
  induction n generalizing value k with
  | zero => rw [countShifts, Nat.log_of_lt (by omega : value.toNat < 2), Nat.add_zero]
  | succ n ih =>
    have hhalf := toNat_half value
    have hpos : (0 : UInt64) < value >>> 1 ↔ 0 < value.toNat / 2 := by
      rw [UInt64.lt_iff_toNat_lt, hhalf, UInt64.toNat_zero]
    rw [countShifts]
    by_cases hv : 0 < value.toNat / 2
    · have hlt : (value >>> 1).toNat < 2 ^ (n + 1) := by
        rw [hhalf]
        omega
      have hlog : Nat.log 2 value.toNat = Nat.log 2 (value.toNat / 2) + 1 :=
        Nat.log_of_one_lt_of_le (by decide) (by omega)
      rw [if_pos (hpos.mpr hv), ih _ _ hlt, hhalf, hlog]
      omega
    · rw [if_neg (mt hpos.mp hv), Nat.log_of_lt (by omega : value.toNat < 2), Nat.add_zero]

theorem log2_eq (value : UInt64) :
    log2 value = if value.toNat < 2 ^ 32 then Nat.clog 2 value.toNat
      else Nat.log 2 value.toNat + 1 := by
  have hlt := value.toNat_lt
  have hcount : countShifts 64 (value >>> 1) 0 = Nat.log 2 value.toNat := by
    rw [countShifts_eq 64 value 0 (by omega), Nat.zero_add]
  simp only [log2, hcount]
  generalize hv : value.toNat = v
  have hlow := Nat.lt_pow_succ_log_self (by decide : 1 < 2) v
  by_cases h32 : v < 2 ^ 32
  · have hk : Nat.log 2 v < 32 := Nat.log_lt_of_lt_pow' (by decide) h32
    rw [if_pos h32, Nat.mod_eq_of_lt hk]
    split_ifs with h
    · have hge : Nat.log 2 v < Nat.clog 2 v := (Nat.lt_clog_iff_pow_lt (by decide)).mpr h
      have hle : Nat.clog 2 v ≤ Nat.log 2 v + 1 := Nat.clog_le_of_le_pow hlow.le
      omega
    · rcases Nat.eq_zero_or_pos v with rfl | hpos
      · simp
      · have hv2 : v = 2 ^ Nat.log 2 v := le_antisymm (by omega) (Nat.pow_log_le_self 2 (by omega))
        conv_rhs => rw [hv2, Nat.clog_pow _ _ (by decide)]
  · have hmod : 2 ^ (Nat.log 2 v % 32) ≤ 2 ^ 31 := Nat.pow_le_pow_right (by decide) (by omega)
    rw [if_neg h32, if_pos (by omega)]

/-- The width `log2` answers is that of the capacity. -/
theorem two_pow_log2 (value : UInt64) : 2 ^ log2 value = capacity value := by
  rw [log2_eq, capacity]
  split_ifs <;> rfl

theorem capacity_pos (last : UInt64) : 0 < capacity last := by
  rw [← two_pow_log2]
  positivity

theorem log2_le (value : UInt64) : log2 value ≤ 64 := by
  have hlt := value.toNat_lt
  rw [log2_eq]
  split_ifs with h
  · exact Nat.clog_le_of_le_pow (by omega)
  · exact Nat.log_lt_of_lt_pow' (by decide) hlt

theorem log2_eq_zero {value : UInt64} : log2 value = 0 ↔ value.toNat < 2 := by
  rw [log2_eq]
  split_ifs with h
  · have hc : Nat.clog 2 value.toNat ≤ 0 ↔ value.toNat ≤ 2 ^ 0 :=
      Nat.clog_le_iff_le_pow (by decide)
    omega
  · exact iff_of_false id (by omega)

theorem le_capacity (last : UInt64) : last.toNat ≤ capacity last := by
  rw [capacity]
  split_ifs with h
  · exact Nat.le_pow_clog (by decide) _
  · exact (Nat.lt_pow_succ_log_self (by decide) _).le

theorem capacity_le_of_lt {last : UInt64} {k : ℕ} (h : last.toNat < 2 ^ k) :
    capacity last ≤ 2 ^ k := by
  rw [capacity]
  split_ifs with h32
  · exact Nat.pow_le_pow_right (by decide) (Nat.clog_le_of_le_pow h.le)
  · have hk : k ≠ 0 := by
      rintro rfl
      omega
    exact Nat.pow_le_pow_right (by decide) (Nat.log_lt_of_lt_pow' hk h)

theorem capacity_le (last : UInt64) : capacity last ≤ 2 ^ 64 := capacity_le_of_lt last.toNat_lt

/-! ### Cutting an address -/

theorem lastRegion_eq (info : List (Region Obj)) :
    lastRegion info = match info.getLast? with
      | some last => .ok last
      | none => .error .argumentOutOfRange := by
  rcases List.eq_nil_or_concat info with rfl | ⟨rs, r, rfl⟩
  · rfl
  · simp [lastRegion, listAt]

/-- **An address is cut** to its lowest `log2` bits. When the layout ends below two, no digit is
left and the conversion throws. -/
theorem resize_eq {info : List (Region Obj)} {last : Region Obj} (h : info.getLast? = some last)
    (addr : UInt64) :
    resize info addr = if last.stop.toNat < 2 then .error .argumentOutOfRange
      else .ok (UInt64.ofNat (addr.toNat % capacity last.stop)) := by
  have hw := log2_le last.stop
  have hlen := length_digits64 addr
  simp only [resize, toBinary, lastRegion_eq, h, Outcome.ok_bind]
  have hsub : substring (digits64 addr) (((digits64 addr).length : Int) - log2 last.stop) =
      .ok ((digits64 addr).drop ((digits64 addr).length - log2 last.stop)) := by
    rw [substring, if_neg (by omega)]
    congr 2
    omega
  rw [hsub, Outcome.ok_bind, ← two_pow_log2]
  split_ifs with h2
  · rw [log2_eq_zero.mpr h2, Nat.sub_zero, List.drop_length, toUInt64, if_pos rfl]
  · have hpos : log2 last.stop ≠ 0 := mt log2_eq_zero.mp h2
    have hl : ((digits64 addr).drop ((digits64 addr).length - log2 last.stop)).length =
        log2 last.stop := by
      rw [List.length_drop]
      omega
    rw [toUInt64_eq, value_drop (isBits_digits64 addr) (by omega), value_digits64]
    · rw [← List.length_pos_iff, hl]
      omega
    · exact (isBits_digits64 addr).drop _
    · omega

theorem resize_eq_ok {info : List (Region Obj)} {last : Region Obj}
    (h : info.getLast? = some last) {addr res : UInt64} :
    resize info addr = .ok res ↔
      2 ≤ last.stop.toNat ∧ res.toNat = addr.toNat % capacity last.stop := by
  have hlt : addr.toNat % capacity last.stop < 2 ^ 64 :=
    (Nat.mod_lt _ (capacity_pos _)).trans_le (capacity_le _)
  rw [resize_eq h]
  split_ifs with h2
  · simp [h2]
  · rw [Except.ok.injEq, ← UInt64.toNat_inj, UInt64.toNat_ofNat_of_lt' hlt, eq_comm]
    exact (and_iff_right (by omega)).symm

/-- Cutting twice is cutting once. -/
theorem resize_idem {info : List (Region Obj)} {addr res : UInt64}
    (h : resize info addr = .ok res) : resize info res = .ok res := by
  cases hl : info.getLast? with
  | none => simp [resize, lastRegion_eq, hl] at h
  | some last =>
    rw [resize_eq_ok hl] at h ⊢
    rw [h.2, Nat.mod_mod]
    exact ⟨h.1, rfl⟩

end MemorySelector

/-- One memory object of `2 ^ 20` bytes. -/
def oneObject : List (Region Unit) := MemorySelector.addAll [(20, ())]

end PIMSim
