import Mathlib.Order.Interval.Set.Basic

/-!
# Intervals laid end to end

A list of closed intervals of natural numbers, each starting at most one past everything covered
before it, covers an initial segment.

## Main definitions

* `covered rs`: the numbers in one of the intervals
* `top m rs`: the greatest end of the intervals, or `m`
* `Adjoining m rs`: each interval starts at most one past `m` and the ends before it

## Main results

* `covered_eq_Iic`: adjoining intervals after `[0, m]` cover exactly the numbers up to their top
-/

namespace Intervals

/-- The numbers in one of the intervals. -/
def covered (rs : List (ℕ × ℕ)) : Set ℕ := {x | ∃ r ∈ rs, x ∈ Set.Icc r.1 r.2}

/-- The greatest end of the intervals, or `m`. -/
def top (m : ℕ) (rs : List (ℕ × ℕ)) : ℕ := rs.foldl (fun m r => max m r.2) m

/-- Each interval starts at most one past `m` and the ends before it. -/
def Adjoining : ℕ → List (ℕ × ℕ) → Prop
  | _, [] => True
  | m, r :: rs => r.1 ≤ m + 1 ∧ Adjoining (max m r.2) rs

@[simp] theorem top_nil (m : ℕ) : top m [] = m := rfl

@[simp] theorem top_cons (m : ℕ) (r : ℕ × ℕ) (rs : List (ℕ × ℕ)) :
    top m (r :: rs) = top (max m r.2) rs := rfl

@[simp] theorem top_append (m : ℕ) (rs qs : List (ℕ × ℕ)) :
    top m (rs ++ qs) = top (top m rs) qs := List.foldl_append

@[simp] theorem mem_covered_nil {x : ℕ} : x ∈ covered [] ↔ False := by simp [covered]

@[simp] theorem mem_covered_cons {x : ℕ} {r : ℕ × ℕ} {rs : List (ℕ × ℕ)} :
    x ∈ covered (r :: rs) ↔ r.1 ≤ x ∧ x ≤ r.2 ∨ x ∈ covered rs := by
  simp [covered]

theorem le_top (m : ℕ) (rs : List (ℕ × ℕ)) : m ≤ top m rs := by
  induction rs generalizing m with
  | nil => exact Nat.le_refl m
  | cons r rs ih => exact (Nat.le_max_left m r.2).trans (ih _)

theorem end_le_top (m : ℕ) {rs : List (ℕ × ℕ)} {r : ℕ × ℕ} (h : r ∈ rs) : r.2 ≤ top m rs := by
  induction rs generalizing m with
  | nil => cases h
  | cons q rs ih =>
    rcases List.mem_cons.mp h with rfl | h
    · exact (Nat.le_max_right m r.2).trans (le_top _ rs)
    · exact ih _ h

theorem le_or_mem_covered {m : ℕ} {rs : List (ℕ × ℕ)} (h : Adjoining m rs) {x : ℕ} :
    x ≤ m ∨ x ∈ covered rs ↔ x ≤ top m rs := by
  induction rs generalizing m with
  | nil => simp
  | cons r rs ih =>
    obtain ⟨hr, hrs⟩ := h
    rw [top_cons, ← ih hrs, mem_covered_cons, ← or_assoc]
    refine or_congr_left ?_
    constructor <;> intro hx <;> omega

/-- **Intervals laid end to end** after `[0, m]` cover exactly the numbers up to their top. -/
theorem covered_eq_Iic {m : ℕ} {rs : List (ℕ × ℕ)} (h : Adjoining m rs) :
    covered ((0, m) :: rs) = Set.Iic (top m rs) := by
  ext x
  rw [mem_covered_cons, Set.mem_Iic, ← le_or_mem_covered h]
  simp

end Intervals
