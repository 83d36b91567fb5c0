import Mathlib.Data.Nat.GCD.Basic
import Mathlib.Tactic.Ring

/-!
# Multiples that wrap around

The multiples of a number `p` modulo `N` repeat after `N / gcd N p` of them. An offset behind such a
multiple can be read off the sum modulo `N` exactly when the sum did not wrap.

## Main definitions

* `Wrapping.period N p`: the number of different multiples of `p` modulo `N`

## Main results

* `Wrapping.sum_eq`: a multiple only matters modulo the period
* `Wrapping.mod_eq_iff`: the offset stays exactly when the sum of the offset and the multiple fits
-/

namespace Wrapping

/-- The number of different multiples of `p` modulo `N`. -/
def period (N p : ℕ) : ℕ := N / Nat.gcd N p

variable {N p : ℕ}

theorem period_pos (hN : 0 < N) : 0 < period N p :=
  Nat.div_pos (Nat.gcd_le_left p hN) (Nat.gcd_pos_of_pos_left p hN)

/-- A whole period is a multiple of `N`. -/
theorem period_mul (N p : ℕ) : period N p * p = N * (p / Nat.gcd N p) := by
  unfold period
  obtain ⟨a, ha⟩ := Nat.gcd_dvd_left N p
  obtain ⟨b, hb⟩ := Nat.gcd_dvd_right N p
  rcases Nat.eq_zero_or_pos (Nat.gcd N p) with hzero | hpos
  · rw [Nat.eq_zero_of_gcd_eq_zero_left hzero, Nat.eq_zero_of_gcd_eq_zero_right hzero]
    simp
  · have hN : N / Nat.gcd N p = a := Nat.div_eq_of_eq_mul_right hpos ha
    have hp : p / Nat.gcd N p = b := Nat.div_eq_of_eq_mul_right hpos hb
    rw [hN, hp]
    calc a * p = a * (Nat.gcd N p * b) := by rw [← hb]
      _ = Nat.gcd N p * a * b := by ring
      _ = N * b := by rw [← ha]

/-- **A multiple only matters modulo the period.** -/
theorem sum_eq (N p n off : ℕ) :
    (n * p + off) % N = (n % period N p * p + off) % N := by
  have hsplit : n * p + off =
      n % period N p * p + off + N * (p / Nat.gcd N p * (n / period N p)) := by
    calc n * p + off = (n % period N p + period N p * (n / period N p)) * p + off := by
          rw [Nat.mod_add_div]
      _ = n % period N p * p + off + period N p * p * (n / period N p) := by ring
      _ = _ := by rw [period_mul, Nat.mul_assoc]
  rw [hsplit, Nat.add_mul_mod_self_left]

/-- `N` is coprime to what `p` has beside the common divisor. -/
theorem dvd_of_dvd_mul (hp : 0 < p) {c : ℕ} (h : p ∣ N * c) : p / Nat.gcd N p ∣ c := by
  have hg : 0 < Nat.gcd N p := Nat.gcd_pos_of_pos_right N hp
  have hcoprime : Nat.Coprime (p / Nat.gcd N p) (N / Nat.gcd N p) :=
    (Nat.coprime_div_gcd_div_gcd hg).symm
  apply hcoprime.dvd_of_dvd_mul_left
  apply (Nat.mul_dvd_mul_iff_left hg).mp
  rw [← Nat.mul_assoc, Nat.mul_div_cancel' (Nat.gcd_dvd_left N p),
    Nat.mul_div_cancel' (Nat.gcd_dvd_right N p)]
  exact h

/-- **The offset stays** exactly when the sum of the offset and the multiple fits. -/
theorem mod_eq_iff (hN : 0 < N) {n off : ℕ} (hoff : off < p) :
    (n * p + off) % N % p = off ↔ n % period N p * p + off < N := by
  have hp : 0 < p := Nat.zero_lt_of_lt hoff
  rw [sum_eq]
  have hr : n % period N p < period N p := Nat.mod_lt n (period_pos hN)
  generalize n % period N p = r at hr ⊢
  constructor
  · intro h
    by_contra hge
    -- The sum wraps by fewer than a whole period of multiples of `N`.
    have hdiv := Nat.mod_add_div (r * p + off) N
    have hpos : 0 < (r * p + off) / N := Nat.div_pos (Nat.not_lt.mp hge) hN
    have hle : r * p + off < N * (p / Nat.gcd N p) := by
      rw [← period_mul]
      calc r * p + off < r * p + p := Nat.add_lt_add_left hoff _
        _ = (r + 1) * p := by ring
        _ ≤ period N p * p := Nat.mul_le_mul_right p hr
    have hlt : (r * p + off) / N < p / Nat.gcd N p := Nat.div_lt_of_lt_mul hle
    have hdvd : p ∣ N * ((r * p + off) / N) := by
      have hrest := Nat.mod_add_div ((r * p + off) % N) p
      rw [h] at hrest
      have hsum : p * ((r * p + off) % N / p) + N * ((r * p + off) / N) = p * r := by
        rw [Nat.mul_comm p r]
        omega
      exact (Nat.dvd_add_right (Nat.dvd_mul_right p _)).mp (hsum ▸ Nat.dvd_mul_right p r)
    exact absurd (Nat.le_of_dvd hpos (dvd_of_dvd_mul hp hdvd)) (Nat.not_le.mpr hlt)
  · intro h
    rw [Nat.mod_eq_of_lt h, Nat.mul_add_mod_of_lt hoff]

/-- The multiple, when the sum fits. -/
theorem div_eq {n off : ℕ} (hoff : off < p) (h : n % period N p * p + off < N) :
    (n * p + off) % N / p = n % period N p := by
  rw [sum_eq, Nat.mod_eq_of_lt h, Nat.mul_comm, Nat.mul_add_div (Nat.zero_lt_of_lt hoff),
    Nat.div_eq_of_lt hoff, Nat.add_zero]

end Wrapping
