import Mathlib.Algebra.Order.Ring.Nat
import Mathlib.Tactic.Ring

/-!
# Staggered countdowns

A ring of `n` countdowns that all fall by one in every cycle. They are staggered: the one whose turn it
is expires first, and each of the others expires `gap` cycles after the one before it. When a countdown
expires it is loaded with a whole round, and the turn goes to the next one. A round may be longer than
`n` gaps; the first countdown of a round then waits for the `slack` as well.

Only one place of the ring is looked at in every cycle. As long as the gap is not zero, no other place
can have expired, so that no countdown falls below zero.

## Main definitions

* `nextTurn n turn`: the place after `turn`
* `Staggered n gap slack turn count`: the countdowns, seen from the place whose turn it is

## Main results

* `Staggered.start`: the countdowns before the first cycle
* `Staggered.reload`: the turn goes on when a countdown has expired
* `Staggered.tick`: a cycle in which none has expired
* `Staggered.eq_turn_of_zero`: only the place whose turn it is can have expired
-/

namespace Countdown

/-- The place after `turn` in a ring of `n` places. -/
def nextTurn (n turn : ℕ) : ℕ := if turn + 1 = n then 0 else turn + 1

/-- The countdowns of the places from the turn on follow each other by a gap. The places before the
turn have been loaded once more, so that they wait for the slack, too. -/
structure Staggered (n gap slack turn : ℕ) (count : ℕ → ℕ) : Prop where
  turn_lt : turn < n
  later : ∀ i, turn ≤ i → i < n → count i = count turn + gap * (i - turn)
  earlier : ∀ i < turn, count i = count turn + gap * (n + i - turn) + slack

variable {n gap slack turn : ℕ} {count : ℕ → ℕ}

theorem nextTurn_lt (h : turn < n) : nextTurn n turn < n := by
  unfold nextTurn
  split_ifs with hlast
  · exact Nat.zero_lt_of_lt h
  · omega

theorem Staggered.congr {count' : ℕ → ℕ} (h : Staggered n gap slack turn count)
    (heq : ∀ i < n, count' i = count i) : Staggered n gap slack turn count' := by
  constructor
  · exact h.turn_lt
  · intro i hle hlt
    rw [heq i hlt, heq turn h.turn_lt]
    exact h.later i hle hlt
  · intro i hi
    rw [heq i (hi.trans h.turn_lt), heq turn h.turn_lt]
    exact h.earlier i hi

theorem Staggered.start (hn : 0 < n) : Staggered n gap slack 0 fun i => gap * (i + 1) := by
  constructor
  · exact hn
  · intro i _ _
    simp only [Nat.sub_zero]
    ring
  · exact fun i hi => absurd hi (Nat.not_lt_zero i)

/-- A place whose turn it is not has a gap left. -/
theorem Staggered.gap_le (h : Staggered n gap slack turn count) {i : ℕ} (hi : i < n)
    (hne : i ≠ turn) : gap ≤ count i := by
  rcases Nat.lt_or_gt_of_ne hne with hlt | hgt
  · rw [h.earlier i hlt]
    have hstep : gap * 1 ≤ gap * (n + i - turn) := by
      apply Nat.mul_le_mul_left
      have := h.turn_lt
      omega
    omega
  · rw [h.later i hgt.le hi]
    have hstep : gap * 1 ≤ gap * (i - turn) := by
      apply Nat.mul_le_mul_left
      omega
    omega

/-- **Only the place whose turn it is** can have expired. -/
theorem Staggered.eq_turn_of_zero (h : Staggered n gap slack turn count) (hgap : 0 < gap) {i : ℕ}
    (hi : i < n) (hzero : count i = 0) : i = turn := by
  by_contra hne
  have hle := h.gap_le hi hne
  omega

theorem Staggered.pos (h : Staggered n gap slack turn count) (hgap : 0 < gap)
    (hturn : 0 < count turn) {i : ℕ} (hi : i < n) : 0 < count i := by
  by_cases hne : i = turn
  · exact hne ▸ hturn
  · exact hgap.trans_le (h.gap_le hi hne)

/-- **A cycle**: all countdowns fall by one. -/
theorem Staggered.tick (h : Staggered n gap slack turn count) (hturn : 0 < count turn) :
    Staggered n gap slack turn fun i => count i - 1 := by
  constructor
  · exact h.turn_lt
  · intro i hle hlt
    have hi := h.later i hle hlt
    omega
  · intro i hlt
    have hi := h.earlier i hlt
    omega

/-- **The turn goes on**: the place that has expired is loaded with a whole round. -/
theorem Staggered.reload (h : Staggered n gap slack turn count) (hzero : count turn = 0)
    {count' : ℕ → ℕ} (hload : count' turn = gap * n + slack)
    (hother : ∀ i < n, i ≠ turn → count' i = count i) :
    Staggered n gap slack (nextTurn n turn) count' := by
  have hlt := h.turn_lt
  by_cases hlast : turn + 1 = n
  · -- the last place: a new round begins, and all places wait for the slack
    have hall : ∀ i < n, count' i = gap * (i + 1) + slack := by
      intro i hi
      by_cases hne : i = turn
      · rw [hne, hload, hlast]
      · rw [hother i hi hne, h.earlier i (by omega), hzero]
        have hplace : n + i - turn = i + 1 := by omega
        rw [hplace, Nat.zero_add]
    rw [nextTurn, if_pos hlast]
    constructor
    · omega
    · intro i _ hi
      rw [hall i hi, hall 0 (by omega), Nat.sub_zero]
      ring
    · exact fun i hi => absurd hi (Nat.not_lt_zero i)
  · have hnext : count' (turn + 1) = gap := by
      rw [hother _ (by omega) (by omega), h.later _ (by omega) (by omega), hzero]
      simp
    rw [nextTurn, if_neg hlast]
    constructor
    · omega
    · intro i hle hi
      have hplace : i - turn = i - (turn + 1) + 1 := by omega
      rw [hnext, hother i hi (by omega), h.later i (by omega) hi, hzero, hplace]
      ring
    · intro i hi
      by_cases hne : i = turn
      · obtain ⟨m, rfl⟩ : ∃ m, n = m + 1 := ⟨n - 1, by omega⟩
        have hplace : m + 1 + i - (turn + 1) = m := by omega
        rw [hnext, hplace, hne, hload]
        ring
      · have hplace : n + i - turn = n + i - (turn + 1) + 1 := by omega
        rw [hnext, hother i (by omega) hne, h.earlier i (by omega), hzero, hplace]
        ring

/-- After the turn went on, the next countdown is running. -/
theorem Staggered.pos_reload (h : Staggered n gap slack turn count) (hgap : 0 < gap)
    {count' : ℕ → ℕ} (hload : count' turn = gap * n + slack)
    (hother : ∀ i < n, i ≠ turn → count' i = count i) : 0 < count' (nextTurn n turn) := by
  by_cases hne : nextTurn n turn = turn
  · rw [hne, hload]
    have hpos : 0 < gap * n := Nat.mul_pos hgap (Nat.zero_lt_of_lt h.turn_lt)
    omega
  · rw [hother _ (nextTurn_lt h.turn_lt) hne]
    exact hgap.trans_le (h.gap_le (nextTurn_lt h.turn_lt) hne)

end Countdown
