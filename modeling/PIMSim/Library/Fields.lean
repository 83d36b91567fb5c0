import Mathlib.Algebra.Group.Nat.Defs
import Mathlib.Data.Nat.Bitwise
import Mathlib.Data.UInt

/-!
# Bit fields of 64-bit words

A field of a word is read by a shift and a mask, and written by a shift and a disjunction. As a number
a field is a group of the word's digits, and a word made of fields that do not overlap is the sum of
the fields at their places.

## Main definitions

* `field w lo mask`: the field of `w` that begins at bit `lo`
* `place v lo`: the word that holds `v` from bit `lo` on
* `pack w l vs`: a word with the values `vs` written into the parts `l`

## Main results

* `toNat_field`: a field as a group of digits
* `field_lt`: a field is below its bound
* `toNat_or_place`: a field written above the others is added at its place
* `toNat_pack`: a packed word is the sum of its parts at their places
-/

namespace Fields

/-- The field of a word that begins at bit `lo`. -/
def field (w lo mask : UInt64) : UInt64 := (w >>> lo) &&& mask

/-- The word that holds a value from bit `lo` on. -/
def place (v lo : UInt64) : UInt64 := v <<< lo

variable {w v lo mask : UInt64}

/-- **A field** is a group of the word's digits. -/
theorem toNat_field {n : ℕ} (hlo : lo.toNat < 64) (hmask : mask.toNat = 2 ^ n - 1) :
    (field w lo mask).toNat = w.toNat / 2 ^ lo.toNat % 2 ^ n := by
  unfold field
  rw [UInt64.toNat_and, UInt64.toNat_shiftRight, hmask, Nat.and_two_pow_sub_one_eq_mod,
    Nat.mod_eq_of_lt hlo, Nat.shiftRight_eq_div_pow]

/-- The value of a field. -/
theorem field_eq_iff {k n : ℕ} (hk : lo.toNat = k) (hlo : k < 64) (hmask : mask.toNat = 2 ^ n - 1) :
    field w lo mask = v ↔ w.toNat / 2 ^ k % 2 ^ n = v.toNat := by
  rw [← UInt64.toNat_inj, toNat_field (hk ▸ hlo) hmask, hk]

theorem field_lt {n : ℕ} (hlo : lo.toNat < 64) (hmask : mask.toNat = 2 ^ n - 1) :
    (field w lo mask).toNat < 2 ^ n := by
  rw [toNat_field hlo hmask]
  exact Nat.mod_lt _ (Nat.two_pow_pos n)

/-- **A field written above the others** is added at its place. -/
theorem toNat_or_place {k : ℕ} (hk : lo.toNat = k) (hlo : k < 64) (hw : w.toNat < 2 ^ k)
    (hv : v.toNat * 2 ^ k < 2 ^ 64) : (w ||| place v lo).toNat = w.toNat + v.toNat * 2 ^ k := by
  have hplace : (place v lo).toNat = v.toNat * 2 ^ k := by
    unfold place
    rw [UInt64.toNat_shiftLeft, hk, Nat.mod_eq_of_lt hlo, Nat.shiftLeft_eq]
    exact Nat.mod_eq_of_lt hv
  rw [UInt64.toNat_or, hplace, Nat.or_comm, ← Nat.shiftLeft_eq, Nat.add_comm]
  exact (Nat.shiftLeft_add_eq_or_of_lt hw v.toNat).symm

/-- A part of a word: where it begins, and the bits that it takes. -/
structure Part where
  lo : ℕ
  width : ℕ

/-- The word with the values written into the parts. -/
def pack (w : UInt64) : List Part → List UInt64 → UInt64
  | p :: l, v :: vs => pack (w ||| place v (UInt64.ofNat p.lo)) l vs
  | _, _ => w

/-- The parts lie above the first `k` bits, each above the parts before it. -/
def Fits : ℕ → List Part → Prop
  | _, [] => True
  | k, p :: l => k ≤ p.lo ∧ p.lo < 64 ∧ p.lo + p.width ≤ 64 ∧ Fits (p.lo + p.width) l

instance Fits.decidable : (k : ℕ) → (l : List Part) → Decidable (Fits k l)
  | _, [] => inferInstanceAs (Decidable True)
  | k, p :: l =>
    haveI := Fits.decidable (p.lo + p.width) l
    inferInstanceAs (Decidable (k ≤ p.lo ∧ p.lo < 64 ∧ p.lo + p.width ≤ 64 ∧ _))

/-- The sum of the values at their places. -/
def total : List Part → List UInt64 → ℕ
  | p :: l, v :: vs => v.toNat * 2 ^ p.lo + total l vs
  | _, _ => 0

/-- **A packed word** is the sum of its values at their places. -/
theorem toNat_pack {k : ℕ} {l : List Part} {vs : List UInt64} (hw : w.toNat < 2 ^ k) (h : Fits k l)
    (hvs : List.Forall₂ (fun p v => v.toNat < 2 ^ p.width) l vs) :
    (pack w l vs).toNat = w.toNat + total l vs := by
  induction hvs generalizing w k with
  | nil => rfl
  | @cons p v l vs hv _ ih =>
    obtain ⟨hlo, hplace, hwidth, hrest⟩ := h
    have hbelow : w.toNat < 2 ^ p.lo := hw.trans_le (Nat.pow_le_pow_right (by decide) hlo)
    have hshift : v.toNat * 2 ^ p.lo + 2 ^ p.lo ≤ 2 ^ (p.lo + p.width) := by
      rw [Nat.pow_add, Nat.mul_comm (2 ^ p.lo), ← Nat.succ_mul]
      exact Nat.mul_le_mul_right _ hv
    have hword : 2 ^ (p.lo + p.width) ≤ 2 ^ 64 := Nat.pow_le_pow_right (by decide) hwidth
    have hlit : (UInt64.ofNat p.lo).toNat = p.lo :=
      UInt64.toNat_ofNat_of_lt' (by unfold UInt64.size; omega)
    have hstep := toNat_or_place (v := v) hlit hplace hbelow (by omega)
    have hsum := ih (w := w ||| place v (UInt64.ofNat p.lo)) (by omega) hrest
    rw [hstep] at hsum
    exact hsum.trans (Nat.add_assoc _ _ _)

/-- A masked value. -/
theorem toNat_and_mask {n : ℕ} (hmask : mask.toNat = 2 ^ n - 1) :
    (v &&& mask).toNat = v.toNat % 2 ^ n := by
  rw [UInt64.toNat_and, hmask, Nat.and_two_pow_sub_one_eq_mod]

theorem toNat_and_lt {n : ℕ} (hmask : mask.toNat = 2 ^ n - 1) : (v &&& mask).toNat < 2 ^ n := by
  rw [toNat_and_mask hmask]
  exact Nat.mod_lt _ (Nat.two_pow_pos n)

/-- A field that is masked at its place, and shifted then. -/
theorem and_shiftRight {m : UInt64} (hm : m >>> lo = mask) : (w &&& m) >>> lo = field w lo mask := by
  unfold field
  rw [UInt64.shiftRight_and, hm]

end Fields
