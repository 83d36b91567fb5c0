import Mathlib.Order.Bounds.Basic
import PIMSim.DDR.MultiChannel
import PIMSim.Memory.MemorySelector

/-!
# The rounded logarithm

Three classes have the same `log2`. It counts how often its argument can be halved, and adds one when
the power of two of that count is below the argument. The power is computed with 32 bits, and the count
of its shift keeps five bits, so that from `2 ^ 32` on the power is always below the argument.

## Main definitions

* `IsCeilingLog v n`: `n` is the least exponent whose power of two is not below `v`
* `LogsRight v`: every copy of `log2` ends with that exponent

## Main results

* `toNat_log2`: the copies agree
* `logsRight_iff`: they are right except at the powers of two from `2 ^ 32` on
-/

namespace PIMSim

open MemorySelector DDR

/-- The least exponent whose power of two is not below `v`. -/
def IsCeilingLog (v n : ℕ) : Prop := IsLeast {k | v ≤ 2 ^ k} n

/-- Every copy of `log2` ends, with the least exponent whose power of two is not below its argument. The
loop of the first copy is bounded by 64 rounds, and more rounds make no difference. -/
structure LogsRight (v : UInt64) : Prop where
  ends : ∀ n, 64 ≤ n → countShifts n (v >>> 1) 0 = countShifts 64 (v >>> 1) 0
  selector : IsCeilingLog v.toNat (MemorySelector.log2 v)
  config : IsCeilingLog v.toNat (DRAMConfig.log2 v).toNat
  channel : IsCeilingLog v.toNat (MultiChannelMemorySystem.dramsimLog2 v).toNat

/-- The ceiling of the logarithm is the least exponent. -/
theorem isCeilingLog_iff {v n : ℕ} : IsCeilingLog v n ↔ Nat.clog 2 v = n := by
  have hleast : IsCeilingLog v (Nat.clog 2 v) := by
    constructor
    · exact Nat.le_pow_clog (by decide) v
    · intro k hk
      exact Nat.clog_le_of_le_pow hk
  constructor
  · intro h
    exact hleast.unique h
  · rintro rfl
    exact hleast

/-- The ceiling of the logarithm is above its floor, except at the powers of two. -/
theorem clog_eq_log_succ_iff {v : ℕ} (hv : v ≠ 0) :
    Nat.clog 2 v = Nat.log 2 v + 1 ↔ v ≠ 2 ^ Nat.log 2 v := by
  have hlow := Nat.pow_log_le_self 2 hv
  have hhigh := Nat.lt_pow_succ_log_self (by decide : 1 < 2) v
  constructor
  · intro h heq
    have hle : Nat.clog 2 v ≤ Nat.log 2 v := Nat.clog_le_of_le_pow heq.le
    omega
  · intro hne
    have hgt : Nat.log 2 v < Nat.clog 2 v := (Nat.lt_clog_iff_pow_lt (by decide)).mpr (by omega)
    have hle : Nat.clog 2 v ≤ Nat.log 2 v + 1 := Nat.clog_le_of_le_pow hhigh.le
    omega

/-! ### The copies -/

/-- The two loops count the same rounds. -/
theorem log2Loop_eq {m : ℕ} {value : UInt64} (h : value.toNat < 2 ^ m) (k : ℕ) :
    log2Loop value (UInt32.ofNat k) = UInt32.ofNat (countShifts m value k) := by
  induction m generalizing value k with
  | zero => exact log2Loop_zero (by omega) _
  | succ m ih =>
    unfold countShifts
    by_cases hpos : 0 < value
    · have hhalf : (value >>> 1).toNat < 2 ^ m := by
        rw [toNat_shiftRight_one]
        omega
      have hnext : UInt32.ofNat k + 1 = UInt32.ofNat (k + 1) := (UInt32.ofNat_add k 1).symm
      rw [log2Loop, if_pos hpos, if_pos hpos, hnext]
      exact ih hhalf (k + 1)
    · rw [log2Loop, if_neg hpos, if_neg hpos]

/-- **The copies agree.** -/
theorem toNat_log2 (v : UInt64) : (DRAMConfig.log2 v).toNat = MemorySelector.log2 v := by
  have hlt := v.toNat_lt
  have hhalf : (v >>> 1).toNat < 2 ^ 64 := (v >>> 1).toNat_lt
  have hcount : countShifts 64 (v >>> 1) 0 = Nat.log 2 v.toNat := by
    rw [countShifts_eq 64 v 0 (by omega), Nat.zero_add]
  have hlog : Nat.log 2 v.toNat < 64 := by
    rcases Nat.eq_zero_or_pos v.toNat with h | h
    · rw [h, Nat.log_zero_right]
      decide
    · exact Nat.log_lt_of_lt_pow (by omega) hlt
  have hloop : log2Loop (v >>> 1) 0 = UInt32.ofNat (Nat.log 2 v.toNat) := by
    rw [← hcount]
    exact log2Loop_eq hhalf 0
  have hofNat : (UInt32.ofNat (Nat.log 2 v.toNat)).toNat = Nat.log 2 v.toNat :=
    UInt32.toNat_ofNat_of_lt' (hlog.trans (by decide))
  have hshift : ((1 : UInt32) <<< UInt32.ofNat (Nat.log 2 v.toNat)).toUInt64.toNat =
      2 ^ (Nat.log 2 v.toNat % 32) := by
    have hpow : 2 ^ (Nat.log 2 v.toNat % 32) < 2 ^ 32 :=
      Nat.pow_lt_pow_right (by decide) (Nat.mod_lt _ (by decide))
    rw [UInt32.toNat_toUInt64, UInt32.toNat_shiftLeft, hofNat, Nat.shiftLeft_eq, UInt32.toNat_one,
      Nat.one_mul, Nat.mod_eq_of_lt hpow]
  simp only [DRAMConfig.log2, MemorySelector.log2, hloop, hcount, UInt64.lt_iff_toNat_lt, hshift]
  split_ifs
  · rw [UInt32.toNat_add, hofNat, UInt32.toNat_one, Nat.mod_eq_of_lt (by omega)]
  · exact hofNat

/-- **The ceiling logarithm**: every copy is right exactly when its argument is no power of two from
`2 ^ 32` on. -/
theorem logsRight_iff (v : UInt64) : LogsRight v ↔ ¬ ∃ n, 32 ≤ n ∧ v.toNat = 2 ^ n := by
  have hselector : IsCeilingLog v.toNat (MemorySelector.log2 v) ↔
      ¬ ∃ n, 32 ≤ n ∧ v.toNat = 2 ^ n := by
    rw [isCeilingLog_iff, log2_eq]
    split_ifs with h32
    · refine iff_of_true rfl ?_
      rintro ⟨n, hn, heq⟩
      have hle : 2 ^ 32 ≤ 2 ^ n := Nat.pow_le_pow_right (by decide) hn
      omega
    · rw [clog_eq_log_succ_iff (by omega)]
      constructor
      · rintro hne ⟨n, -, heq⟩
        rw [heq, Nat.log_pow (by decide)] at hne
        exact hne rfl
      · intro hnone heq
        have hge : 32 ≤ Nat.log 2 v.toNat := Nat.le_log_of_pow_le (by decide) (by omega)
        exact hnone ⟨_, hge, heq⟩
  constructor
  · intro h
    exact hselector.mp h.selector
  · intro h
    have hright := hselector.mpr h
    refine ⟨?_, hright, ?_, ?_⟩
    · intro n hn
      have hlt := v.toNat_lt
      have hwide : 2 ^ 64 ≤ 2 ^ (n + 1) := Nat.pow_le_pow_right (by decide) (by omega)
      rw [countShifts_eq n v 0 (by omega), countShifts_eq 64 v 0 (by omega)]
    · rwa [toNat_log2]
    · exact (toNat_log2 v).symm ▸ hright

/-- At the first of these powers the number is one too large. -/
theorem not_logsRight_two_pow : ¬ ∀ v : UInt64, 1 ≤ v → LogsRight v := by
  intro h
  have hlog := (h 4294967296 (by decide)).selector
  rw [isCeilingLog_iff, log2_eq, if_neg (by decide)] at hlog
  rw [show (4294967296 : UInt64).toNat = 2 ^ 32 from rfl, Nat.clog_pow _ _ (by decide),
    Nat.log_pow (by decide)] at hlog
  exact absurd hlog (by decide)

end PIMSim
