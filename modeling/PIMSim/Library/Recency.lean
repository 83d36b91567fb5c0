import Mathlib.Logic.Function.Basic
import Mathlib.Data.Nat.Notation
import Mathlib.Order.Basic

/-!
# Recency of use

A clock that counts the calls, and for every key the time of its last use, which is zero for a key
that was never used.

## Main definitions

* `Recency κ`: the clock and the last uses
* `tick`, `touch k`: a call that uses no key, and one that uses `k`
* `Ordered`: no two keys were used last in one call
* `Least`: a key that was used before all others of a set

## Main results

* `Ordered.tick`, `Ordered.touch`: the calls keep the uses ordered
* `Ordered.lt_touch`: the key used now was used after all others
-/

/-- The number of calls, and the call that used a key last. -/
structure Recency (κ : Type) where
  time : ℕ := 0
  used : κ → ℕ := fun _ => 0

namespace Recency

variable {κ : Type}

/-- A call that uses no key. -/
def tick (r : Recency κ) : Recency κ := { r with time := r.time + 1 }

/-- A call that uses the key `k`. -/
def touch [DecidableEq κ] (r : Recency κ) (k : κ) : Recency κ where
  time := r.time + 1
  used := Function.update r.used k (r.time + 1)

/-- The uses lie before the present, and different keys were used last in different calls. -/
structure Ordered (r : Recency κ) : Prop where
  le_time : ∀ k, r.used k ≤ r.time
  inj : ∀ k l, 0 < r.used k → r.used k = r.used l → k = l

/-- The key `k` was used before all other keys of the set. -/
def Least (r : Recency κ) (ks : κ → Prop) (k : κ) : Prop :=
  ks k ∧ ∀ l, ks l → l ≠ k → r.used k < r.used l

theorem ordered_init : Ordered ({} : Recency κ) where
  le_time := fun _ => Nat.le_refl 0
  inj := fun _ _ h => absurd h (Nat.lt_irrefl 0)

theorem Ordered.tick {r : Recency κ} (h : Ordered r) : Ordered r.tick where
  le_time := fun k => Nat.le_succ_of_le (h.le_time k)
  inj := h.inj

variable [DecidableEq κ]

@[simp] theorem time_touch (r : Recency κ) (k : κ) : (r.touch k).time = r.time + 1 := rfl

@[simp] theorem used_touch_self (r : Recency κ) (k : κ) : (r.touch k).used k = r.time + 1 :=
  Function.update_self ..

theorem used_touch_of_ne (r : Recency κ) {k l : κ} (h : l ≠ k) : (r.touch k).used l = r.used l :=
  Function.update_of_ne h ..

/-- The key used now was used after all others. -/
theorem Ordered.lt_touch {r : Recency κ} (h : Ordered r) {k l : κ} (hl : l ≠ k) :
    (r.touch k).used l < (r.touch k).used k := by
  rw [used_touch_of_ne r hl, used_touch_self]
  exact Nat.lt_succ_of_le (h.le_time l)

theorem Ordered.touch {r : Recency κ} (h : Ordered r) (k : κ) : Ordered (r.touch k) where
  le_time := by
    intro l
    by_cases hl : l = k
    · simp [hl]
    · rw [used_touch_of_ne r hl]
      exact Nat.le_succ_of_le (h.le_time l)
  inj := by
    intro l m hpos heq
    by_cases hl : l = k
    · by_contra hne
      have hlt := h.lt_touch (k := k) (l := m) fun hm => hne (hl.trans hm.symm)
      rw [← heq, hl] at hlt
      exact Nat.lt_irrefl _ hlt
    · by_cases hm : m = k
      · have hlt := h.lt_touch hl
        rw [heq, hm] at hlt
        exact absurd hlt (Nat.lt_irrefl _)
      · rw [used_touch_of_ne r hl] at hpos heq
        rw [used_touch_of_ne r hm] at heq
        exact h.inj l m hpos heq

end Recency
