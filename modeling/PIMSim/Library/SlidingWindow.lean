import Mathlib.Data.List.Basic
import Mathlib.Tactic.Common

/-!
# Sliding windows by countdowns

A limiter that keeps one countdown for each recent event. The countdowns go down together, a new
event enters at the full length of the window, and a countdown that reaches zero is dropped. A
history is the list of marks of the past times, the latest first.

## Main definitions

* `left n past`: the countdowns after a history, the oldest first

## Main results

* `length_left`: the countdowns are as many as the marks of the last `n` times
* `filter_pred`: only the head can reach zero
* `window_cons`: a bound for the latest window carries over to all windows
-/

namespace SlidingWindow

/-- What is left of the countdowns from `n` that were started at the marked times. -/
def left (n : ℕ) : List Bool → List ℕ
  | [] => []
  | b :: past => ((left n past).map (· - 1)).filter (0 < ·) ++ if b then [n] else []

variable {n : ℕ} {past : List Bool}

/-- The countdowns are positive, and the older ones are smaller. -/
theorem left_sorted (hn : 0 < n) (past : List Bool) :
    (left n past).Pairwise (· < ·) ∧ ∀ x ∈ left n past, 0 < x ∧ x ≤ n := by
  induction past with
  | nil => simp [left]
  | cons b past ih =>
    obtain ⟨hsorted, hbounds⟩ := ih
    have hdown : ∀ x ∈ ((left n past).map (· - 1)).filter (0 < ·), 0 < x ∧ x < n := by
      intro x hx
      obtain ⟨hx, hpos⟩ := List.mem_filter.mp hx
      obtain ⟨y, hy, rfl⟩ := List.mem_map.mp hx
      have hy := (hbounds y hy).2
      have hpos := of_decide_eq_true hpos
      omega
    have hmap : ((left n past).map (· - 1)).Pairwise (· < ·) := by
      rw [List.pairwise_map]
      exact hsorted.imp_of_mem fun {x y} hx _ hxy => by
        have hx := (hbounds x hx).1
        omega
    rw [left]
    refine ⟨List.pairwise_append.mpr ⟨hmap.filter _, ?_, fun x hx y hy => ?_⟩, fun x hx => ?_⟩
    · cases b <;> simp
    · cases b with
      | false => cases hy
      | true =>
        rw [if_pos rfl, List.mem_singleton] at hy
        exact hy ▸ (hdown x hx).2
    · rcases List.mem_append.mp hx with hx | hx
      · exact ⟨(hdown x hx).1, Nat.le_of_lt (hdown x hx).2⟩
      · cases b with
        | false => cases hx
        | true =>
          rw [if_pos rfl, List.mem_singleton] at hx
          subst hx
          exact ⟨hn, Nat.le_refl x⟩

/-- The countdowns above `m` are the marks of the last `n - m` times. -/
theorem countP_left (past : List Bool) (m : ℕ) :
    (left n past).countP (m < ·) = (past.take (n - m)).count true := by
  induction past generalizing m with
  | nil => simp [left]
  | cons b past ih =>
    have hdown : (((left n past).map (· - 1)).filter (0 < ·)).countP (m < ·) =
        (left n past).countP (m + 1 < ·) := by
      rw [List.countP_filter, List.countP_map]
      apply List.countP_congr
      intro x _
      simp only [Function.comp_apply, Bool.and_eq_true, decide_eq_true_eq]
      omega
    rw [left, List.countP_append, hdown, ih]
    obtain hm | ⟨k, hk⟩ : n ≤ m ∨ ∃ k, n - m = k + 1 := by
      rcases Nat.lt_or_ge m n with h | h
      · exact .inr ⟨n - m - 1, by omega⟩
      · exact .inl h
    · rw [show n - m = 0 by omega, show n - (m + 1) = 0 by omega]
      cases b <;> simp [hm]
    · rw [hk, show n - (m + 1) = k by omega, List.take_succ_cons, List.count_cons]
      cases b <;> simp
      omega

/-- **The countdowns count the window**: they are as many as the marks of the last `n` times. -/
theorem length_left (hn : 0 < n) (past : List Bool) :
    (left n past).length = (past.take n).count true := by
  have hcount := countP_left (n := n) past 0
  rw [Nat.sub_zero] at hcount
  rw [← hcount, eq_comm, List.countP_eq_length]
  intro x hx
  exact decide_eq_true ((left_sorted hn past).2 x hx).1

/-- When increasing positive numbers go down by one, only the head can reach zero. -/
theorem filter_pred {xs : List ℕ} (hsorted : xs.Pairwise (· < ·)) (hpos : ∀ x ∈ xs, 0 < x) :
    (xs.map (· - 1)).filter (0 < ·) =
      if (xs.map (· - 1)).head? = some 0 then (xs.map (· - 1)).tail else xs.map (· - 1) := by
  cases xs with
  | nil => rfl
  | cons x xs =>
    obtain ⟨hx, hsorted⟩ := List.pairwise_cons.mp hsorted
    have hpos := hpos x List.mem_cons_self
    have htail : (xs.map (· - 1)).filter (0 < ·) = xs.map (· - 1) := by
      rw [List.filter_eq_self]
      intro y hy
      obtain ⟨z, hz, rfl⟩ := List.mem_map.mp hy
      have hz := hx z hz
      exact decide_eq_true (by omega)
    rw [List.map_cons, List.filter_cons, htail, List.head?_cons, List.tail_cons]
    by_cases hone : x - 1 = 0
    · rw [if_neg (by simp [hone]), if_pos (by rw [hone])]
    · rw [if_pos (by simp; omega), if_neg (by simpa using hone)]

/-- A bound for the windows of a history and for the latest window bounds all windows. -/
theorem window_cons {α : Type} {p : α → Bool} {x : α} {xs : List α} {k : ℕ}
    (h : ∀ i, ((xs.drop i).take n).countP p ≤ k) (hlatest : ((x :: xs).take n).countP p ≤ k)
    (i : ℕ) : (((x :: xs).drop i).take n).countP p ≤ k := by
  cases i with
  | zero => exact hlatest
  | succ i => exact h i

end SlidingWindow
