import Mathlib.Algebra.Order.Floor.Div
import Mathlib.Tactic.NormNum.GCD
import PIMSim.Library.Outcome

/-!
# Crossing a clock domain

`ClockDomainCrosser.update` is called at the ticks of one clock and runs its callback at the ticks of
another one. It keeps the times of both clocks in 64-bit counters: the time of the first clock goes
forward by `clock1`, and the callback runs until the time of the second clock has caught up. When the
two times meet, both start again from zero.

The times meet at the least common multiple of `clock1` and `clock2`, so that the counters hold them
exactly when that is below `2 ^ 64`.

## Main definitions

* `ClockDomainCrosser`, `ClockDomainCrosser.update`: the counters and a call
* `ClockDomainCrosser.Crosses`: the callback keeps pace with the calls

## Main results

* `ClockDomainCrosser.crosses_iff`: the callback keeps pace exactly when the clocks have a common
  multiple below `2 ^ 64`
-/

namespace PIMSim.DDR

open CSharp

/-- The counters, and how often the callback has run. -/
structure ClockDomainCrosser where
  clock1 : UInt64
  clock2 : UInt64
  counter1 : UInt64 := 0
  counter2 : UInt64 := 0
  calls : ℕ := 0
deriving DecidableEq, Repr

namespace ClockDomainCrosser

/-- A round of the loop. -/
def tick (c : ClockDomainCrosser) : ClockDomainCrosser :=
  { c with counter2 := c.counter2 + c.clock2, calls := c.calls + 1 }

/-- The loop that runs the callback, for at most `fuel` rounds. -/
def catchUp : ℕ → ClockDomainCrosser → Outcome ClockDomainCrosser
  | 0, c => if c.counter2 < c.counter1 then .error .nonTermination else .ok c
  | fuel + 1, c => if c.counter2 < c.counter1 then catchUp fuel c.tick else .ok c

/-- The counters start again when they meet. -/
def restart (c : ClockDomainCrosser) : ClockDomainCrosser :=
  if c.counter1 = c.counter2 then { c with counter1 := 0, counter2 := 0 } else c

/-- `update`, with a callback. -/
def update (fuel : ℕ) (c : ClockDomainCrosser) : Outcome ClockDomainCrosser :=
  if c.clock1 = c.clock2 then .ok { c with calls := c.calls + 1 }
  else do
    let c ← catchUp fuel { c with counter1 := c.counter1 + c.clock1 }
    return c.restart

/-- The first `n` calls. -/
def run (fuel : ℕ) (c : ClockDomainCrosser) : ℕ → Outcome ClockDomainCrosser
  | 0 => .ok c
  | n + 1 => do
    let c ← run fuel c n
    c.update fuel

/-- **The callback keeps pace**: every call returns, the callback has run as often as the second clock
ticks, and the counters stay below the common multiple of the clocks. -/
def Crosses (clock1 clock2 : UInt64) : Prop :=
  ∀ n, ∃ fuel c, run fuel { clock1, clock2 } n = .ok c ∧
    c.calls = (n * clock1.toNat) ⌈/⌉ clock2.toNat ∧
    c.counter1.toNat ≤ clock1.toNat.lcm clock2.toNat ∧
    c.counter2.toNat ≤ clock1.toNat.lcm clock2.toNat

variable {c c' : ClockDomainCrosser} {fuel k n q : ℕ} {clock1 clock2 : UInt64}

/-! ### The loop -/

/-- The counters after `k` rounds. -/
def ticks (c : ClockDomainCrosser) (k : ℕ) : ClockDomainCrosser :=
  { c with counter2 := c.counter2 + UInt64.ofNat k * c.clock2, calls := c.calls + k }

theorem ticks_zero : c.ticks 0 = c := by
  unfold ticks
  simp

theorem ticks_tick : c.tick.ticks k = c.ticks (k + 1) := by
  have hcounter : c.counter2 + c.clock2 + UInt64.ofNat k * c.clock2 =
      c.counter2 + UInt64.ofNat (k + 1) * c.clock2 := by
    rw [UInt64.ofNat_add, UInt64.add_mul, UInt64.add_assoc, UInt64.add_comm c.clock2]
    simp
  unfold ticks tick
  dsimp only
  rw [hcounter, Nat.add_right_comm, Nat.add_assoc]

theorem toNat_ticks : (c.ticks k).counter2.toNat = (c.counter2.toNat + k * c.clock2.toNat) % 2 ^ 64 := by
  unfold ticks
  simp [Nat.add_mod, Nat.mul_mod]

theorem toNat_ticks_of_lt (h : c.counter2.toNat + k * c.clock2.toNat < 2 ^ 64) :
    (c.ticks k).counter2.toNat = c.counter2.toNat + k * c.clock2.toNat := by
  rw [toNat_ticks, Nat.mod_eq_of_lt h]

theorem catchUp_of_lt (h : c.counter2 < c.counter1) : catchUp (fuel + 1) c = catchUp fuel c.tick :=
  if_pos h

theorem catchUp_of_le (h : c.counter1 ≤ c.counter2) : catchUp fuel c = .ok c := by
  have hnot : ¬ c.counter2 < c.counter1 := UInt64.not_lt.mpr h
  cases fuel with
  | zero => exact if_neg hnot
  | succ fuel => exact if_neg hnot

/-- The loop goes through `k` rounds while the second counter is behind. -/
theorem catchUp_ticks (h : ∀ j < k, c.counter2.toNat + j * c.clock2.toNat < c.counter1.toNat) :
    catchUp (fuel + k) c = catchUp fuel (c.ticks k) := by
  induction k generalizing c with
  | zero => rw [ticks_zero, Nat.add_zero]
  | succ k ih =>
    have hlt : c.counter2 < c.counter1 := by
      have := h 0 k.succ_pos
      rw [UInt64.lt_iff_toNat_lt]
      omega
    rw [← Nat.add_assoc, catchUp_of_lt hlt, ih, ticks_tick]
    intro j hj
    have hnext := h (j + 1) (by omega)
    rw [Nat.succ_mul] at hnext
    have hfit : c.tick.counter2.toNat = c.counter2.toNat + c.clock2.toNat := by
      have h1 := c.counter1.toNat_lt
      unfold tick
      rw [UInt64.toNat_add, Nat.mod_eq_of_lt (by omega)]
    have hclock : c.tick.clock2 = c.clock2 := rfl
    have hcounter : c.tick.counter1 = c.counter1 := rfl
    rw [hfit, hclock, hcounter]
    omega

/-- A loop that returns returns with more fuel too. -/
theorem catchUp_mono (h : catchUp fuel c = .ok c') : catchUp (fuel + k) c = .ok c' := by
  induction fuel generalizing c with
  | zero =>
    unfold catchUp at h
    split_ifs at h with hlt
    cases h
    exact catchUp_of_le (UInt64.not_lt.mp hlt)
  | succ fuel ih =>
    rw [Nat.succ_add_eq_add_succ, Nat.add_succ] at *
    unfold catchUp at h ⊢
    split_ifs at h ⊢ with hlt
    · exact ih h
    · exact h

/-- The rounds of the loop run the callback. -/
theorem calls_catchUp (h : catchUp fuel c = .ok c') : c.calls ≤ c'.calls := by
  induction fuel generalizing c with
  | zero =>
    unfold catchUp at h
    split_ifs at h
    cases h
    exact Nat.le_refl _
  | succ fuel ih =>
    unfold catchUp at h
    split_ifs at h
    · exact Nat.le_of_succ_le (ih h)
    · cases h
      exact Nat.le_refl _

/-! ### A call -/

/-- The time at which the two clocks meet. -/
def period (c : ClockDomainCrosser) : ℕ := c.clock1.toNat.lcm c.clock2.toNat

/-- The counters after `n` calls, in which both clocks started again `q` times. The time that the second
clock has reached is its first tick that is not before the time of the first clock. -/
structure Paces (q n : ℕ) (c : ClockDomainCrosser) : Prop where
  time1 : c.counter1.toNat + q * c.period = n * c.clock1.toNat
  time2 : c.counter2.toNat + q * c.period = c.calls * c.clock2.toNat
  calls : c.calls = (n * c.clock1.toNat) ⌈/⌉ c.clock2.toNat
  room : c.counter1.toNat + c.clock1.toNat ≤ c.period

theorem clock1_dvd_period : c.clock1.toNat ∣ c.period := Nat.dvd_lcm_left _ _

theorem clock2_dvd_period : c.clock2.toNat ∣ c.period := Nat.dvd_lcm_right _ _

theorem paces_start (clock1 clock2 : UInt64) (hpos : 0 < clock2.toNat) :
    Paces 0 0 { clock1, clock2 } := by
  refine ⟨by simp, by simp, by simp, ?_⟩
  rcases Nat.eq_zero_or_pos clock1.toNat with hzero | h
  · simp [hzero]
  · simpa [period] using Nat.le_of_dvd (Nat.lcm_pos h hpos) (Nat.dvd_lcm_left _ _)

/-- The ticks of the second clock before a time. -/
theorem lt_ceilDiv_iff {a b j : ℕ} (hb : 0 < b) : j < a ⌈/⌉ b ↔ j * b < a := by
  rw [← not_le, ceilDiv_le_iff_le_mul hb, not_le, Nat.mul_comm]

theorem le_ceilDiv_mul {a b : ℕ} (hb : 0 < b) : a ≤ a ⌈/⌉ b * b := by
  rw [Nat.mul_comm]
  exact (ceilDiv_le_iff_le_mul hb).mp (Nat.le_refl _)

/-- The first tick that is not before a time is not behind any tick that is not before it. -/
theorem ceilDiv_mul_le {a b t : ℕ} (hb : 0 < b) (hle : a ≤ t) (hdvd : b ∣ t) : a ⌈/⌉ b * b ≤ t := by
  obtain ⟨m, rfl⟩ := hdvd
  rw [Nat.mul_comm b]
  exact Nat.mul_le_mul_right b ((ceilDiv_le_iff_le_mul hb).mpr hle)

/-- The rounds of the next call: those before the new time of the first clock. -/
theorem Paces.rounds (h : Paces q n c) (hpos : 0 < c.clock2.toNat) :
    ∃ k, ((n + 1) * c.clock1.toNat) ⌈/⌉ c.clock2.toNat = c.calls + k ∧
      (∀ j < k, c.counter2.toNat + j * c.clock2.toNat < c.counter1.toNat + c.clock1.toNat) ∧
      c.counter1.toNat + c.clock1.toNat ≤ c.counter2.toNat + k * c.clock2.toNat := by
  have htime := h.time1
  have htime2 := h.time2
  have hnext : (n + 1) * c.clock1.toNat = c.counter1.toNat + c.clock1.toNat + q * c.period := by
    rw [Nat.succ_mul, ← htime]
    omega
  obtain ⟨k, hk⟩ : ∃ k, ((n + 1) * c.clock1.toNat) ⌈/⌉ c.clock2.toNat = c.calls + k := by
    refine Nat.exists_eq_add_of_le ?_
    rw [h.calls, ceilDiv_le_iff_le_mul hpos, Nat.mul_comm c.clock2.toNat]
    exact Nat.le_trans (Nat.mul_le_mul_right _ n.le_succ) (le_ceilDiv_mul hpos)
  refine ⟨k, hk, fun j hj => ?_, ?_⟩
  · have hlt : (c.calls + j) * c.clock2.toNat < (n + 1) * c.clock1.toNat :=
      (lt_ceilDiv_iff hpos).mp (by omega)
    rw [Nat.add_mul, hnext] at hlt
    omega
  · have hle := le_ceilDiv_mul (a := (n + 1) * c.clock1.toNat) hpos
    rw [hk, hnext, Nat.add_mul] at hle
    omega

/-- The first clock goes forward. -/
def advance (c : ClockDomainCrosser) : ClockDomainCrosser :=
  { c with counter1 := c.counter1 + c.clock1 }

/-- A call whose times fit the counters. -/
theorem Paces.advance (h : Paces q n c) (hpos : 0 < c.clock2.toNat) {k : ℕ}
    (hcalls : ((n + 1) * c.clock1.toNat) ⌈/⌉ c.clock2.toNat = c.calls + k)
    (hfit1 : c.counter1.toNat + c.clock1.toNat < 2 ^ 64)
    (hfit2 : c.counter2.toNat + k * c.clock2.toNat < 2 ^ 64) :
    Paces q (n + 1) (c.advance.ticks k).restart ∨
      c.counter1.toNat + c.clock1.toNat = c.period ∧
        Paces (q + 1) (n + 1) (c.advance.ticks k).restart := by
  have htime := h.time1
  have htime2 := h.time2
  have h1 : (c.advance.ticks k).counter1.toNat = c.counter1.toNat + c.clock1.toNat := by
    refine (UInt64.toNat_add ..).trans ?_
    exact Nat.mod_eq_of_lt hfit1
  have h2 : (c.advance.ticks k).counter2.toNat = c.counter2.toNat + k * c.clock2.toNat :=
    toNat_ticks_of_lt hfit2
  have hdvd1 : c.clock1.toNat ∣ c.counter1.toNat := by
    refine (Nat.dvd_add_left (Dvd.dvd.mul_left clock1_dvd_period q)).mp ?_
    rw [htime]
    exact Nat.dvd_mul_left _ _
  have hdvd2 : c.clock2.toNat ∣ c.counter2.toNat := by
    refine (Nat.dvd_add_left (Dvd.dvd.mul_left clock2_dvd_period q)).mp ?_
    rw [htime2]
    exact Nat.dvd_mul_left _ _
  have hle := h.room
  unfold restart
  split_ifs with hmeet
  · -- the clocks meet, at their first common multiple
    have hmeet' : c.counter1.toNat + c.clock1.toNat = c.counter2.toNat + k * c.clock2.toNat := by
      rw [← h1, ← h2, hmeet]
    have hperiod : c.counter1.toNat + c.clock1.toNat = c.period := by
      refine Nat.le_antisymm hle ?_
      rcases Nat.eq_zero_or_pos c.clock1.toNat with hzero | hclock
      · simp [period, hzero]
      · refine Nat.le_of_dvd (by omega) (Nat.lcm_dvd (Nat.dvd_add hdvd1 (Nat.dvd_refl _)) ?_)
        rw [hmeet']
        exact Nat.dvd_add hdvd2 (Nat.dvd_mul_left _ _)
    refine .inr ⟨hperiod, ⟨?_, ?_, hcalls.symm, ?_⟩⟩
    · change 0 + (q + 1) * c.period = (n + 1) * c.clock1.toNat
      rw [Nat.succ_mul, Nat.succ_mul]
      omega
    · change 0 + (q + 1) * c.period = (c.calls + k) * c.clock2.toNat
      rw [Nat.succ_mul, Nat.add_mul]
      omega
    · change 0 + c.clock1.toNat ≤ c.period
      omega
  · refine .inl ⟨?_, ?_, hcalls.symm, ?_⟩
    · rw [h1]
      change c.counter1.toNat + c.clock1.toNat + q * c.period = (n + 1) * c.clock1.toNat
      rw [Nat.succ_mul]
      omega
    · rw [h2]
      change c.counter2.toNat + k * c.clock2.toNat + q * c.period = (c.calls + k) * c.clock2.toNat
      rw [Nat.add_mul]
      omega
    · rw [h1]
      change c.counter1.toNat + c.clock1.toNat + c.clock1.toNat ≤ c.period
      have hdvd : c.clock1.toNat ∣ c.counter1.toNat + c.clock1.toNat :=
        Nat.dvd_add hdvd1 (Nat.dvd_refl _)
      have hne : c.counter1.toNat + c.clock1.toNat ≠ c.period := by
        intro heq
        -- the second clock ticks at the common multiple, and meets the first one there
        have hticks : (c.calls + k) * c.clock2.toNat = (n + 1) * c.clock1.toNat := by
          refine Nat.le_antisymm ?_ (hcalls ▸ le_ceilDiv_mul hpos)
          rw [← hcalls]
          refine ceilDiv_mul_le hpos (Nat.le_refl _) ?_
          have hmul : (n + 1) * c.clock1.toNat = (q + 1) * c.period := by
            rw [Nat.succ_mul, Nat.succ_mul]
            omega
          rw [hmul]
          exact Dvd.dvd.mul_left clock2_dvd_period _
        apply hmeet
        apply UInt64.toNat.inj
        rw [h1, h2]
        rw [Nat.add_mul, Nat.succ_mul] at hticks
        omega
      have hlt : c.counter1.toNat + c.clock1.toNat < c.period := Nat.lt_of_le_of_ne hle hne
      have hrest := Nat.le_of_dvd (by omega) (Nat.dvd_sub clock1_dvd_period hdvd)
      omega

theorem update_eq (hne : c.clock1 ≠ c.clock2) :
    c.update fuel = (catchUp fuel c.advance >>= fun c => pure c.restart) :=
  if_neg hne

theorem toNat_advance (h : c.counter1.toNat + c.clock1.toNat < 2 ^ 64) :
    c.advance.counter1.toNat = c.counter1.toNat + c.clock1.toNat :=
  (UInt64.toNat_add ..).trans (Nat.mod_eq_of_lt h)

/-- The loop returns when the times fit the counters. -/
theorem update_eq_ok (fuel : ℕ) {k : ℕ} (hne : c.clock1 ≠ c.clock2)
    (hbefore : ∀ j < k, c.counter2.toNat + j * c.clock2.toNat < c.counter1.toNat + c.clock1.toNat)
    (hafter : c.counter1.toNat + c.clock1.toNat ≤ c.counter2.toNat + k * c.clock2.toNat)
    (hfit1 : c.counter1.toNat + c.clock1.toNat < 2 ^ 64)
    (hfit2 : c.counter2.toNat + k * c.clock2.toNat < 2 ^ 64) (hfuel : k ≤ fuel) :
    c.update fuel = .ok (c.advance.ticks k).restart := by
  have hcatch : catchUp fuel c.advance = .ok (c.advance.ticks k) := by
    rw [← Nat.sub_add_cancel hfuel, catchUp_ticks fun j hj => toNat_advance hfit1 ▸ hbefore j hj]
    apply catchUp_of_le
    rw [UInt64.le_iff_toNat_le]
    have h2 : (c.advance.ticks k).counter2.toNat = c.counter2.toNat + k * c.clock2.toNat :=
      toNat_ticks_of_lt hfit2
    rw [h2]
    exact (toNat_advance hfit1).trans_le hafter
  rw [update_eq hne, hcatch]
  rfl

/-! ### The run -/

theorem clocks_restart : c.restart.clock1 = c.clock1 ∧ c.restart.clock2 = c.clock2 := by
  unfold restart
  split_ifs <;> exact ⟨rfl, rfl⟩

/-- A call with a common multiple that fits the counters. -/
theorem Paces.update (h : Paces q n c) (hpos : 0 < c.clock2.toNat) (hne : c.clock1 ≠ c.clock2)
    (hfit : c.period < 2 ^ 64) :
    ∃ q' c', c.update (2 ^ 64) = .ok c' ∧ c'.clock1 = c.clock1 ∧ c'.clock2 = c.clock2 ∧
      Paces q' (n + 1) c' := by
  obtain ⟨k, hcalls, hbefore, hafter⟩ := h.rounds hpos
  have hroom := h.room
  have htime := h.time1
  have htime2 := h.time2
  have hfit2 : c.counter2.toNat + k * c.clock2.toNat ≤ c.period := by
    have hle : (n + 1) * c.clock1.toNat ≤ (q + 1) * c.period := by
      rw [Nat.succ_mul, Nat.succ_mul]
      omega
    have hticks := ceilDiv_mul_le hpos hle (Dvd.dvd.mul_left clock2_dvd_period _)
    rw [hcalls, Nat.add_mul, Nat.succ_mul] at hticks
    omega
  have hfuel : k ≤ 2 ^ 64 := by
    have := Nat.le_mul_of_pos_right k hpos
    omega
  have hupdate := update_eq_ok (2 ^ 64) hne hbefore hafter (by omega) (by omega) hfuel
  rcases h.advance hpos hcalls (by omega) (by omega) with h' | ⟨-, h'⟩
  · exact ⟨_, _, hupdate, clocks_restart.1, clocks_restart.2, h'⟩
  · exact ⟨_, _, hupdate, clocks_restart.1, clocks_restart.2, h'⟩

theorem run_mono {m : ℕ} (h : run fuel c n = .ok c') : run (fuel + m) c n = .ok c' := by
  induction n generalizing c' with
  | zero => exact h
  | succ n ih =>
    obtain ⟨d, hd, h⟩ := Outcome.bind_eq_ok.mp h
    refine Outcome.bind_eq_ok.mpr ⟨d, ih hd, ?_⟩
    unfold ClockDomainCrosser.update at h ⊢
    split_ifs at h ⊢
    · exact h
    · obtain ⟨e, he, h⟩ := Outcome.bind_eq_ok.mp h
      exact Outcome.bind_eq_ok.mpr ⟨e, catchUp_mono he, h⟩

/-- Two clocks of one speed. -/
theorem run_same (c : ClockDomainCrosser) (h : c.clock1 = c.clock2) (n : ℕ) :
    run 0 c n = .ok { c with calls := c.calls + n } := by
  induction n with
  | zero => rfl
  | succ n ih =>
    rw [run, ih, Outcome.ok_bind]
    exact if_pos h

theorem crosses_of_fit (hpos : 0 < clock2.toNat) (hfit : clock1.toNat.lcm clock2.toNat < 2 ^ 64) :
    Crosses clock1 clock2 := by
  intro n
  by_cases hne : clock1 = clock2
  · subst hne
    refine ⟨0, _, run_same _ rfl n, ?_, Nat.zero_le _, Nat.zero_le _⟩
    change 0 + n = n * clock1.toNat ⌈/⌉ clock1.toNat
    rw [Nat.zero_add]
    apply Nat.le_antisymm
    · exact Nat.le_of_mul_le_mul_right (le_ceilDiv_mul hpos) hpos
    · rw [ceilDiv_le_iff_le_mul hpos, Nat.mul_comm]
  · obtain ⟨q, c, hrun, h1, h2, hpaces⟩ : ∃ q c, run (2 ^ 64) { clock1, clock2 } n = .ok c ∧
        c.clock1 = clock1 ∧ c.clock2 = clock2 ∧ Paces q n c := by
      induction n with
      | zero => exact ⟨0, _, rfl, rfl, rfl, paces_start clock1 clock2 hpos⟩
      | succ n ih =>
        obtain ⟨q, c, hrun, rfl, rfl, hpaces⟩ := ih
        obtain ⟨q', c', hupdate, h1, h2, hpaces'⟩ := hpaces.update hpos hne hfit
        exact ⟨q', c', Outcome.bind_eq_ok.mpr ⟨c, hrun, hupdate⟩, h1, h2, hpaces'⟩
    subst h1 h2
    have hroom := hpaces.room
    refine ⟨_, c, hrun, hpaces.calls, ?_, ?_⟩
    · exact Nat.le_trans (Nat.le_add_right _ _) hroom
    · -- the second clock is at most one tick ahead of the first
      have hle : n * c.clock1.toNat ≤ (q + 1) * c.period := by
        rw [← hpaces.time1, Nat.succ_mul]
        omega
      have hticks := ceilDiv_mul_le hpos hle (Dvd.dvd.mul_left clock2_dvd_period _)
      rw [← hpaces.calls, ← hpaces.time2, Nat.succ_mul] at hticks
      change _ ≤ c.period
      omega

/-- A loop with a round to go runs the callback. -/
theorem calls_lt_catchUp (hlt : c.counter2 < c.counter1) (h : catchUp fuel c = .ok c') :
    c.calls < c'.calls := by
  cases fuel with
  | zero =>
    unfold catchUp at h
    rw [if_pos hlt] at h
    cases h
  | succ fuel =>
    rw [catchUp_of_lt hlt] at h
    exact calls_catchUp h

theorem calls_restart : c.restart.calls = c.calls := by
  unfold restart
  split_ifs <;> rfl

/-- A call in which the first counter wraps runs no callback. -/
theorem Paces.wrap1 (h : Paces 0 n c) (hpos : 0 < c.clock2.toNat)
    (hbig : 2 ^ 64 ≤ c.counter1.toNat + c.clock1.toNat) :
    catchUp fuel c.advance = .ok c.advance := by
  have htime := h.time1
  have htime2 := h.time2
  rw [Nat.zero_mul, Nat.add_zero] at htime htime2
  have hclock := c.clock1.toNat_lt
  have hbehind : c.counter1.toNat ≤ c.counter2.toNat := by
    rw [htime, htime2, h.calls]
    exact le_ceilDiv_mul hpos
  have hfull : c.clock1.toNat ≤ c.counter1.toNat := by
    rw [htime]
    refine Nat.le_mul_of_pos_left _ (Nat.pos_of_ne_zero ?_)
    rintro rfl
    omega
  apply catchUp_of_le
  have hcounter := c.counter1.toNat_lt
  have hwrap : c.advance.counter1.toNat = c.counter1.toNat + c.clock1.toNat - 2 ^ 64 := by
    refine (UInt64.toNat_add ..).trans ?_
    omega
  rw [UInt64.le_iff_toNat_le, hwrap]
  change _ ≤ c.counter2.toNat
  omega

/-- A call in which the second counter wraps runs the callback too often. -/
theorem Paces.wrap2 {k : ℕ} (h : Paces 0 n c)
    (hbefore : ∀ j < k, c.counter2.toNat + j * c.clock2.toNat < c.counter1.toNat + c.clock1.toNat)
    (hfit : c.counter1.toNat + c.clock1.toNat < 2 ^ 64)
    (hbig : 2 ^ 64 ≤ c.counter2.toNat + k * c.clock2.toNat) (hc' : catchUp fuel c.advance = .ok c') :
    c.calls + k < c'.calls := by
  have htime2 := h.time2
  rw [Nat.zero_mul, Nat.add_zero] at htime2
  have hclock := c.clock2.toNat_lt
  have hcounter := c.counter2.toNat_lt
  obtain ⟨j, rfl⟩ : ∃ j, k = j + 1 := Nat.exists_eq_succ_of_ne_zero (by rintro rfl; omega)
  have hlast := hbefore j j.lt_succ_self
  rw [Nat.succ_mul] at hbig
  -- the tick before the last one is not the first, so that the last one is behind the first clock
  have htick : c.clock2.toNat ≤ c.counter2.toNat + j * c.clock2.toNat := by
    rw [htime2, ← Nat.add_assoc, ← Nat.add_mul] at hbig
    rw [htime2, ← Nat.add_mul]
    refine Nat.le_mul_of_pos_left _ (Nat.pos_of_ne_zero fun hzero => ?_)
    rw [hzero] at hbig
    omega
  have hrun : catchUp fuel (c.advance.ticks (j + 1)) = .ok c' := by
    rw [← catchUp_ticks fun i hi => toNat_advance hfit ▸ hbefore i hi]
    exact catchUp_mono hc'
  refine calls_lt_catchUp (c := c.advance.ticks (j + 1)) ?_ hrun
  have hwrap : (c.advance.ticks (j + 1)).counter2.toNat =
      c.counter2.toNat + j * c.clock2.toNat + c.clock2.toNat - 2 ^ 64 := by
    refine toNat_ticks.trans ?_
    change (c.counter2.toNat + (j + 1) * c.clock2.toNat) % 2 ^ 64 = _
    rw [Nat.succ_mul]
    omega
  have h1 : (c.advance.ticks (j + 1)).counter1.toNat = _ := toNat_advance hfit
  rw [UInt64.lt_iff_toNat_lt, hwrap, h1]
  omega

/-- A call whose times do not fit the counters loses the pace. -/
theorem Paces.fit_of_calls {k : ℕ} (h : Paces 0 n c) (hpos : 0 < c.clock2.toNat)
    (hbefore : ∀ j < k, c.counter2.toNat + j * c.clock2.toNat < c.counter1.toNat + c.clock1.toNat)
    (hafter : c.counter1.toNat + c.clock1.toNat ≤ c.counter2.toNat + k * c.clock2.toNat)
    (hne : c.clock1 ≠ c.clock2) (hc' : c.update fuel = .ok c') (hcalls : c'.calls = c.calls + k) :
    c.counter1.toNat + c.clock1.toNat < 2 ^ 64 ∧ c.counter2.toNat + k * c.clock2.toNat < 2 ^ 64 := by
  rw [update_eq hne] at hc'
  obtain ⟨d, hd, heq⟩ := Outcome.bind_eq_ok.mp hc'
  cases heq
  rw [calls_restart] at hcalls
  have hfit : c.counter1.toNat + c.clock1.toNat < 2 ^ 64 := by
    by_contra hbig
    rw [h.wrap1 hpos (Nat.le_of_not_lt hbig)] at hd
    cases hd
    have hnone : k = 0 := by
      change c.calls = c.calls + k at hcalls
      omega
    have hcounter := c.counter2.toNat_lt
    rw [hnone] at hafter
    omega
  refine ⟨hfit, ?_⟩
  by_contra hbig
  have hlt := h.wrap2 hbefore hfit (Nat.le_of_not_lt hbig) hd
  omega

theorem fit_of_crosses (hpos : 0 < clock2.toNat) (h : Crosses clock1 clock2) :
    clock1.toNat.lcm clock2.toNat < 2 ^ 64 := by
  by_contra hbig
  replace hbig : 2 ^ 64 ≤ clock1.toNat.lcm clock2.toNat := Nat.le_of_not_lt hbig
  have hne : clock1 ≠ clock2 := by
    rintro rfl
    rw [Nat.lcm_self] at hbig
    exact absurd clock1.toNat_lt (Nat.not_lt.mpr hbig)
  have hclock : 0 < clock1.toNat := by
    refine Nat.pos_of_ne_zero fun hzero => ?_
    rw [hzero, Nat.lcm_zero_left] at hbig
    omega
  have hall : ∀ n, ∃ fuel c, run fuel { clock1, clock2 } n = .ok c ∧
      c.clock1 = clock1 ∧ c.clock2 = clock2 ∧ Paces 0 n c := by
    intro n
    induction n with
    | zero => exact ⟨0, _, rfl, rfl, rfl, paces_start clock1 clock2 hpos⟩
    | succ n ih =>
      obtain ⟨fuel, c, hrun, rfl, rfl, hpaces⟩ := ih
      obtain ⟨fuel', c', hrun', hcalls', -, -⟩ := h (n + 1)
      obtain ⟨k, hcalls, hbefore, hafter⟩ := hpaces.rounds hpos
      have hnext : c.update (fuel + fuel') = .ok c' := by
        have hmono := run_mono (m := fuel) hrun'
        rw [Nat.add_comm, run, run_mono hrun] at hmono
        exact hmono
      obtain ⟨hfit1, hfit2⟩ :=
        hpaces.fit_of_calls hpos hbefore hafter hne hnext (hcalls'.trans hcalls)
      have hfuel : k ≤ 2 ^ 64 := by
        have := Nat.le_mul_of_pos_right k hpos
        omega
      have hupdate := update_eq_ok (fuel + 2 ^ 64) hne hbefore hafter hfit1 hfit2 (by omega)
      refine ⟨_, _, Outcome.bind_eq_ok.mpr ⟨c, run_mono hrun, hupdate⟩, clocks_restart.1,
        clocks_restart.2, ?_⟩
      rcases hpaces.advance hpos hcalls hfit1 hfit2 with h' | ⟨hmeet, -⟩
      · exact h'
      · -- the clocks cannot meet yet
        rw [hmeet] at hfit1
        exact absurd hfit1 (Nat.not_lt.mpr hbig)
  obtain ⟨fuel, c, -, rfl, rfl, hpaces⟩ := hall (2 ^ 64)
  have htime := hpaces.time1
  have hcounter := c.counter1.toNat_lt
  omega

/-- **The clock domain crossing** keeps pace exactly when the two clocks have a common multiple below
`2 ^ 64`. -/
theorem crosses_iff (clock1 clock2 : UInt64) (h : 0 < clock2) :
    Crosses clock1 clock2 ↔ clock1.toNat.lcm clock2.toNat < 2 ^ 64 := by
  have hpos : 0 < clock2.toNat := UInt64.lt_iff_toNat_lt.mp h
  exact ⟨fit_of_crosses hpos, crosses_of_fit hpos⟩

theorem crosses_iff_three_two : Crosses 3 2 := (crosses_iff 3 2 (by decide)).mpr (by decide)

/-- The first clock wraps in the second call. -/
theorem not_crosses_wrap : ¬ Crosses 9223372036854775808 9223372036854775807 := by
  intro h
  have hfit := fit_of_crosses (by decide) h
  simp only [UInt64.reduceToNat] at hfit
  norm_num at hfit

end ClockDomainCrosser

end PIMSim.DDR
