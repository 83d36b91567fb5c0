import Mathlib.Tactic.FieldSimp
import PIMSim.DDR.Routing
import PIMSim.Library.Staggered

/-!
# Refresh countdowns

Every rank has a countdown to its next refresh. The constructor staggers them, all of them fall by one
at the end of an update, and `update` looks at one of them only, that of the rank whose turn it is.

The quotient of `REFRESH_PERIOD` and `tCK` is an exact one here, so that a countdown is loaded with the
integer part of it, and the first countdowns are apart by the integer part of its share of one rank.
Ranks follow each other by that share, which is a ring of staggered countdowns.

## Main definitions

* `DRAMConfig.refreshQuotient`, `DRAMConfig.refreshShare`: the cycles of a round, and of one rank
* `passTurn`: what an update does with the countdowns
* `NeverWraps`: only the rank whose turn it is has expired, and no countdown falls below zero

## Main results

* `update_countdowns`: an update passes the turn, and nothing else touches the countdowns
* `refreshCountdown_never_wraps`: no countdown wraps in any run
-/

namespace PIMSim.DDR

open CSharp Transition Countdown

/-- The cycles between two refreshes of a rank. -/
def DRAMConfig.refreshQuotient (cfg : DRAMConfig) : ℚ := cfg.refreshPeriod.toNat / cfg.tCK

/-- The share of a rank in them. -/
def DRAMConfig.refreshShare (cfg : DRAMConfig) : ℚ := cfg.refreshQuotient / cfg.numRanks

/-- **No countdown wraps**: only the rank whose turn it is can have expired, and an update loads it
with a whole round before all countdowns fall by one. -/
structure NeverWraps (cfg : DRAMConfig) (s : MemorySystem) : Prop where
  turn : ∀ i : ℕ, s.controller.refreshCountdown[i]? = some 0 → i = s.controller.refreshRank
  update : ∀ s', s.update cfg = .ok s' → ∀ (i : ℕ) (n : UInt32),
    s.controller.refreshCountdown[i]? = some n →
      ∃ n', s'.controller.refreshCountdown[i]? = some n' ∧
        (n'.toNat : Int) + 1 = if n = 0 then ⌊cfg.refreshQuotient⌋ else n.toNat

/-- The countdowns and the rank whose turn it is. -/
def countdowns (s : MemorySystem) : List UInt32 × ℕ :=
  (s.controller.refreshCountdown, s.controller.refreshRank)

/-- What an update does with the countdowns and the turn. -/
def passTurn (cfg : DRAMConfig) (c : List UInt32 × ℕ) : List UInt32 × ℕ :=
  let c := if c.1[c.2]? = some 0 then (c.1.set c.2 cfg.refreshCycles, nextTurn cfg.numRanks c.2) else c
  (c.1.map fun n => n - 1, c.2)

variable {cfg : DRAMConfig} {s s' : MemorySystem}

/-! ### What touches the countdowns -/

theorem Quiet.countdowns_eq (h : Quiet s s') : countdowns s' = countdowns s :=
  Prod.ext h.countdown h.slot

theorem Moved.countdowns_eq (h : Moved s s') : countdowns s' = countdowns s := by
  cases h with
  | still hquiet => exact hquiet.countdowns_eq
  | arrived p _ hquiet => exact hquiet.countdowns_eq

theorem MovedData.countdowns_eq (h : MovedData s s') : countdowns s' = countdowns s := by
  cases h with
  | still hquiet => exact hquiet.countdowns_eq
  | arrived p _ hquiet => exact hquiet.countdowns_eq

theorem Scheduled.countdowns_eq (h : Scheduled cfg s s') : countdowns s' = countdowns s := by
  cases h with
  | still hquiet => exact hquiet.countdowns_eq
  | scheduled t place type cq₁ cq₂ _ _ _ _ _ _ hquiet => exact hquiet.countdowns_eq

theorem Returned.countdowns_eq (h : Returned s s') : countdowns s' = countdowns s := by
  cases h with
  | still hquiet => exact hquiet.countdowns_eq
  | returned t hquiet => exact hquiet.countdowns_eq

theorem popCommand_countdowns (h : s.popCommand cfg = .ok s') : countdowns s' = countdowns s := by
  obtain ⟨⟨found, cq⟩, -, h⟩ := Outcome.bind_eq_ok.mp h
  cases found with
  | none =>
    cases h
    rfl
  | some p =>
    dsimp only at h
    unfold MemorySystem.issue at h
    dsimp only at h
    split_ifs at h
    all_goals
      cases h
      rfl

/-- The check of the countdowns loads the one that has expired, and passes the turn. -/
theorem checkRefresh_countdowns (h : s.checkRefresh cfg = .ok s') :
    countdowns s' = if (countdowns s).1[(countdowns s).2]? = some 0 then
      ((countdowns s).1.set (countdowns s).2 cfg.refreshCycles, nextTurn cfg.numRanks (countdowns s).2)
    else countdowns s := by
  obtain ⟨n, hn, h⟩ := Outcome.bind_eq_ok.mp h
  have hcount : (countdowns s).1[(countdowns s).2]? = some n := listAt_natCast.mp hn
  rw [hcount]
  by_cases hdue : n = 0
  · rw [if_pos hdue] at h
    obtain ⟨s₁, hs₁, h⟩ := Outcome.bind_eq_ok.mp h
    obtain ⟨r, -, hs₁⟩ := Outcome.bind_eq_ok.mp hs₁
    cases hs₁
    cases h
    rw [if_pos (congrArg some hdue)]
    rfl
  · rw [if_neg hdue] at h
    rw [if_neg fun heq => hdue (Option.some.inj heq)]
    obtain ⟨down, -, h⟩ := Outcome.bind_eq_ok.mp h
    split_ifs at h
    · exact (awaitRefresh_quiet h).countdowns_eq
    · cases h
      rfl

/-- **An update** passes the turn. -/
theorem update_countdowns (h : s.update cfg = .ok s') :
    countdowns s' = passTurn cfg (countdowns s) := by
  obtain ⟨s₁, s₂, s₃, s₄, s₅, s₆, s₇, s₈, s₉, h₁, h₂, h₃, h₄, h₅, h₆, h₇, h₈, h₉, rfl⟩ :=
    update_steps h
  have hbefore : countdowns s₄ = countdowns s := by
    have hranks : Quiet s s₁ := foldlM_quiet (fun _ _ _ => updateRank_quiet) h₁
    calc countdowns s₄ = countdowns s₃ := (sendWriteData_quiet h₄).countdowns_eq
      _ = countdowns s₂ := (moveData_moved h₃).countdowns_eq
      _ = countdowns ((s₁.addPending cfg).updateBanks cfg) := (moveCommand_moved h₂).countdowns_eq
      _ = countdowns (s₁.addPending cfg) := (updateBanks_quiet _).countdowns_eq
      _ = countdowns s₁ := (addPending_quiet s₁).countdowns_eq
      _ = countdowns s := hranks.countdowns_eq
  have hafter : countdowns s₉ = countdowns s₅ := by
    have hpower : Quiet s₇ s₈ := foldlM_quiet (fun _ _ _ => managePower_quiet) h₈
    calc countdowns s₉ = countdowns s₈ := (returnData_returned h₉).countdowns_eq
      _ = countdowns s₇ := hpower.countdowns_eq
      _ = countdowns s₆ := (schedule_scheduled h₇).countdowns_eq
      _ = countdowns s₅ := popCommand_countdowns h₆
  have hcheck := checkRefresh_countdowns h₅
  rw [hbefore, ← hafter] at hcheck
  unfold passTurn
  rw [← hcheck]
  rfl

theorem step_countdowns {e : MemoryEvent} (h : s.step cfg e = .ok s') :
    countdowns s' = countdowns s ∨ countdowns s' = passTurn cfg (countdowns s) := by
  by_cases he : e = .update
  · subst he
    exact .inr (update_countdowns h)
  · exact .inl (step_quiet he h).countdowns_eq

/-! ### The ring of countdowns -/

/-- The cycles that rank `i` still waits. -/
def waits (c : List UInt32 × ℕ) (i : ℕ) : ℕ := (c.1.getD i 0).toNat

/-- The countdowns of all ranks are a ring. -/
structure InTurn (cfg : DRAMConfig) (gap slack : ℕ) (c : List UInt32 × ℕ) : Prop where
  length : c.1.length = cfg.numRanks
  ring : Staggered cfg.numRanks gap slack c.2 (waits c)

variable {gap slack : ℕ} {c : List UInt32 × ℕ}

theorem waits_of_getElem? {i : ℕ} {n : UInt32} (h : c.1[i]? = some n) : waits c i = n.toNat := by
  unfold waits
  rw [List.getD_eq_getElem?_getD, h, Option.getD_some]

theorem InTurn.exists_count (h : InTurn cfg gap slack c) {i : ℕ} (hi : i < cfg.numRanks) :
    ∃ n, c.1[i]? = some n ∧ waits c i = n.toNat := by
  have hget := List.getElem?_eq_getElem (h.length.symm ▸ hi)
  exact ⟨_, hget, waits_of_getElem? hget⟩

/-- Every countdown that has not expired falls by one. -/
theorem InTurn.tick (h : InTurn cfg gap slack c) (hgap : 0 < gap) (hturn : 0 < waits c c.2) :
    InTurn cfg gap slack (c.1.map fun n => n - 1, c.2) := by
  constructor
  · rw [List.length_map, h.length]
  · refine (h.ring.tick hturn).congr fun i hi => ?_
    obtain ⟨n, hn, hcount⟩ := h.exists_count hi
    have hget : (c.1.map fun n => n - 1)[i]? = some (n - 1) := by
      rw [List.getElem?_map, hn]
      rfl
    have hpos : 0 < n.toNat := hcount ▸ h.ring.pos hgap hturn hi
    have hle : (1 : UInt32) ≤ n := UInt32.le_iff_toNat_le.mpr hpos
    rw [waits_of_getElem? (c := (c.1.map fun n => n - 1, c.2)) hget, hcount,
      UInt32.toNat_sub_of_le _ _ hle]
    rfl

/-- The countdown that has expired is loaded. -/
theorem InTurn.reload (h : InTurn cfg gap slack c) (hgap : 0 < gap)
    (hload : cfg.refreshCycles.toNat = gap * cfg.numRanks + slack) (hdue : c.1[c.2]? = some 0) :
    InTurn cfg gap slack (c.1.set c.2 cfg.refreshCycles, nextTurn cfg.numRanks c.2) ∧
      0 < waits (c.1.set c.2 cfg.refreshCycles, nextTurn cfg.numRanks c.2)
        (nextTurn cfg.numRanks c.2) := by
  have hlt : c.2 < c.1.length := h.length.symm ▸ h.ring.turn_lt
  have hself : waits (c.1.set c.2 cfg.refreshCycles, nextTurn cfg.numRanks c.2) c.2 =
      gap * cfg.numRanks + slack := by
    rw [waits_of_getElem? (n := cfg.refreshCycles) (List.getElem?_set_self hlt), hload]
  have hother : ∀ i < cfg.numRanks, i ≠ c.2 →
      waits (c.1.set c.2 cfg.refreshCycles, nextTurn cfg.numRanks c.2) i = waits c i := by
    intro i hi hne
    obtain ⟨n, hn, hcount⟩ := h.exists_count hi
    rw [hcount]
    exact waits_of_getElem? ((List.getElem?_set_ne (Ne.symm hne)).trans hn)
  refine ⟨⟨?_, ?_⟩, ?_⟩
  · rw [List.length_set, h.length]
  · exact h.ring.reload (waits_of_getElem? hdue) hself hother
  · exact h.ring.pos_reload hgap hself hother

/-- **A turn** keeps the ring. -/
theorem InTurn.passTurn (h : InTurn cfg gap slack c) (hgap : 0 < gap)
    (hload : cfg.refreshCycles.toNat = gap * cfg.numRanks + slack) :
    InTurn cfg gap slack (passTurn cfg c) := by
  unfold DDR.passTurn
  split_ifs with hdue
  · obtain ⟨hring, hpos⟩ := h.reload hgap hload hdue
    exact hring.tick hgap hpos
  · refine h.tick hgap ?_
    obtain ⟨n, hn, hcount⟩ := h.exists_count h.ring.turn_lt
    rw [hcount]
    refine Nat.pos_of_ne_zero fun hzero => hdue ?_
    rw [hn, UInt32.toNat_inj.mp (hzero.trans UInt32.toNat_zero.symm)]

theorem InTurn.eq_turn (h : InTurn cfg gap slack c) (hgap : 0 < gap) {i : ℕ}
    (hzero : c.1[i]? = some 0) : i = c.2 := by
  have hlt : i < cfg.numRanks := h.length ▸ (List.getElem?_eq_some_iff.mp hzero).1
  exact h.ring.eq_turn_of_zero hgap hlt (waits_of_getElem? hzero)

/-- What a turn does with one countdown. -/
theorem InTurn.getElem?_passTurn (h : InTurn cfg gap slack c) (hgap : 0 < gap)
    (hload : cfg.refreshCycles.toNat = gap * cfg.numRanks + slack) {i : ℕ} {n : UInt32}
    (hn : c.1[i]? = some n) : ∃ n', (DDR.passTurn cfg c).1[i]? = some n' ∧
      n'.toNat + 1 = if n = 0 then cfg.refreshCycles.toNat else n.toNat := by
  have hlt : i < c.1.length := (List.getElem?_eq_some_iff.mp hn).1
  have hround : 0 < cfg.refreshCycles.toNat := by
    rw [hload]
    have hpos := Nat.mul_pos hgap (Nat.zero_lt_of_lt h.ring.turn_lt)
    omega
  have hfall : ∀ m : UInt32, 0 < m.toNat → (m - 1).toNat + 1 = m.toNat := by
    intro m hm
    have hle : (1 : UInt32) ≤ m := UInt32.le_iff_toNat_le.mpr hm
    rw [UInt32.toNat_sub_of_le _ _ hle]
    exact Nat.sub_add_cancel hm
  unfold DDR.passTurn
  by_cases hzero : n = 0
  · subst hzero
    rw [if_pos (h.eq_turn hgap hn ▸ hn), if_pos rfl, ← h.eq_turn hgap hn]
    refine ⟨cfg.refreshCycles - 1, ?_, hfall _ hround⟩
    rw [List.getElem?_map, List.getElem?_set_self hlt]
    rfl
  · rw [if_neg hzero]
    refine ⟨n - 1, ?_, hfall n (Nat.pos_of_ne_zero fun heq => hzero ?_)⟩
    · split_ifs with hdue
      · have hne : c.2 ≠ i := by
          rintro rfl
          exact hzero (Option.some.inj (hn.symm.trans hdue))
        rw [List.getElem?_map, List.getElem?_set_ne hne, hn]
        rfl
      · rw [List.getElem?_map, hn]
        rfl
    · exact UInt32.toNat_inj.mp (heq.trans UInt32.toNat_zero.symm)

/-! ### Whole runs -/

/-- A round is a gap for every rank, and the slack. -/
theorem exists_gap (hshare : 1 ≤ ⌊cfg.refreshShare⌋) : ∃ gap slack : ℕ, 0 < gap ∧ 0 < cfg.numRanks ∧
    ⌊cfg.refreshShare⌋ = gap ∧ ⌊cfg.refreshQuotient⌋ = gap * cfg.numRanks + slack := by
  have hranks : 0 < cfg.numRanks := by
    refine Nat.pos_of_ne_zero fun hzero => ?_
    unfold DRAMConfig.refreshShare at hshare
    rw [hzero, Nat.cast_zero, div_zero, Int.floor_zero] at hshare
    exact absurd hshare (by decide)
  have hround : ⌊cfg.refreshShare⌋ * cfg.numRanks ≤ ⌊cfg.refreshQuotient⌋ := by
    rw [Int.le_floor, Int.cast_mul, Int.cast_natCast]
    calc (⌊cfg.refreshShare⌋ : ℚ) * cfg.numRanks ≤ cfg.refreshShare * cfg.numRanks := by
          gcongr
          exact Int.floor_le _
      _ = cfg.refreshQuotient := div_mul_cancel₀ _ (Nat.cast_ne_zero.mpr hranks.ne')
  obtain ⟨gap, hgap⟩ := Int.eq_ofNat_of_zero_le (zero_le_one.trans hshare)
  obtain ⟨slack, hslack⟩ := Int.le.dest hround
  refine ⟨gap, slack, ?_, hranks, hgap, ?_⟩
  · omega
  · rw [← hslack, hgap]

theorem inTurn_init (hranks : 0 < cfg.numRanks)
    (hfirst : ∀ i < cfg.numRanks, (cfg.firstRefresh i).toNat = gap * (i + 1)) :
    InTurn cfg gap slack (countdowns (MemorySystem.init cfg)) := by
  constructor
  · simp [countdowns, MemorySystem.init]
  · refine (Staggered.start hranks).congr fun i hi => ?_
    rw [← hfirst i hi]
    refine waits_of_getElem? ?_
    simp [countdowns, MemorySystem.init, hi]

/-- **Refresh countdowns**: when the first countdowns and the later ones are the integer parts of the
exact quotient, and the share of a rank is at least one cycle, no countdown wraps in any run. -/
theorem refreshCountdown_never_wraps (cfg : DRAMConfig) (hshare : 1 ≤ ⌊cfg.refreshShare⌋)
    (hfirst : ∀ i < cfg.numRanks, ((cfg.firstRefresh i).toNat : Int) = ⌊cfg.refreshShare⌋ * (i + 1))
    (hreload : (cfg.refreshCycles.toNat : Int) = ⌊cfg.refreshQuotient⌋) (events : List MemoryEvent)
    (s : MemorySystem) (h : exec (MemorySystem.step cfg) (MemorySystem.init cfg) events = .ok s) :
    NeverWraps cfg s := by
  obtain ⟨gap, slack, hgap, hranks, hfloor, hround⟩ := exists_gap hshare
  have hload : cfg.refreshCycles.toNat = gap * cfg.numRanks + slack := by
    rw [hround] at hreload
    exact_mod_cast hreload
  have hstart : ∀ i < cfg.numRanks, (cfg.firstRefresh i).toNat = gap * (i + 1) := by
    intro i hi
    have hi' := hfirst i hi
    rw [hfloor] at hi'
    exact_mod_cast hi'
  have hring : InTurn cfg gap slack (countdowns s) := by
    refine exec_invariant (I := fun s => InTurn cfg gap slack (countdowns s)) ?_
      (inTurn_init hranks hstart) h
    intro s e s' hs hstep
    rcases step_countdowns hstep with heq | heq
    · rw [heq]
      exact hs
    · rw [heq]
      exact hs.passTurn hgap hload
  constructor
  · exact fun i hi => hring.eq_turn hgap hi
  · intro s' hs' i n hn
    obtain ⟨n', hn', hcount⟩ := hring.getElem?_passTurn hgap hload hn
    refine ⟨n', ?_, ?_⟩
    · rw [← hn', ← update_countdowns hs']
      rfl
    · rw [← hreload]
      split_ifs at hcount ⊢ <;> exact_mod_cast hcount

/-! ### Numbers that fit -/

theorem truncate_eq_floor {q : ℚ} (hq : 0 ≤ q) : truncate q = ⌊q⌋ := by
  rw [Rat.floor_def']
  exact Int.tdiv_eq_ediv_of_nonneg (Rat.num_nonneg.mpr hq)

/-- A quotient that fits an unsigned number of a period that fits a signed one is loaded exactly. -/
theorem refreshCycles_exact (hperiod : cfg.refreshPeriod.toNat < 2 ^ 31)
    (hpos : 0 ≤ cfg.refreshQuotient) (hlt : ⌊cfg.refreshQuotient⌋ < 2 ^ 32) :
    (cfg.refreshCycles.toNat : Int) = ⌊cfg.refreshQuotient⌋ := by
  have hint : toInt cfg.refreshPeriod.toNat = cfg.refreshPeriod.toNat :=
    Int.bmod_eq_of_le_mul_two (by omega) (by omega)
  have hloaded : cfg.refreshCycles = UInt32.ofInt ⌊cfg.refreshQuotient⌋ := by
    unfold DRAMConfig.refreshCycles
    rw [hint, Int.cast_natCast]
    exact congrArg UInt32.ofInt (truncate_eq_floor hpos)
  obtain ⟨n, hn⟩ := Int.eq_ofNat_of_zero_le (Int.floor_nonneg.mpr hpos)
  rw [hn] at hlt ⊢
  have hsmall : n < UInt32.size := by exact_mod_cast hlt
  have hmod : ((n : Int) % 2 ^ 32).toNat = n := by omega
  rw [hloaded, hn, UInt32.ofInt, hmod, UInt32.toNat_ofNat_of_lt' hsmall]

theorem firstRefresh_exact (hshare : 1 ≤ ⌊cfg.refreshShare⌋)
    (hlt : ⌊cfg.refreshQuotient⌋ < 2 ^ 32) {i : ℕ} (hi : i < cfg.numRanks) :
    ((cfg.firstRefresh i).toNat : Int) = ⌊cfg.refreshShare⌋ * (i + 1) := by
  obtain ⟨gap, slack, -, -, hgap, hround⟩ := exists_gap hshare
  have hfirst : cfg.firstRefresh i = UInt32.ofNat (gap * (i + 1)) := by
    change UInt32.ofNat (⌊cfg.refreshShare⌋.toNat * (i + 1)) = _
    rw [hgap]
    rfl
  have hle : gap * (i + 1) ≤ gap * cfg.numRanks := Nat.mul_le_mul_left gap hi
  have hsmall : gap * (i + 1) < UInt32.size := by
    rw [hround] at hlt
    have hlt' : gap * cfg.numRanks + slack < 2 ^ 32 := by exact_mod_cast hlt
    exact lt_of_le_of_lt (hle.trans (Nat.le_add_right _ _)) hlt'
  rw [hfirst, UInt32.toNat_ofNat_of_lt' hsmall, hgap]
  push_cast
  rfl

/-- Two ranks and nine cycles: a share of four and a half cycles. -/
def nineCycles : DRAMConfig := { twoRanks with refreshPeriod := 9 }

/-- Rank 0 is loaded in the fifth update, and rank 1 in the ninth. -/
theorem refreshCountdown_nineCycles :
    ∃ s, exec (MemorySystem.step nineCycles) (MemorySystem.init nineCycles)
        (List.replicate 9 .update) = .ok s ∧ NeverWraps nineCycles s := by
  have hrun : (exec (MemorySystem.step nineCycles) (MemorySystem.init nineCycles)
      (List.replicate 9 .update)).toBool = true := by
    decide +kernel
  have hquotient : nineCycles.refreshQuotient = 9 := by
    change ((9 : ℕ) : ℚ) / 1 = 9
    norm_num
  have hshare : 1 ≤ ⌊nineCycles.refreshShare⌋ := by
    rw [Int.le_floor, DRAMConfig.refreshShare, hquotient]
    change ((1 : ℤ) : ℚ) ≤ 9 / ((2 : ℕ) : ℚ)
    norm_num
  have hlt : ⌊nineCycles.refreshQuotient⌋ < 2 ^ 32 := by
    rw [hquotient]
    norm_num
  have hreload : (nineCycles.refreshCycles.toNat : Int) = ⌊nineCycles.refreshQuotient⌋ := by
    apply refreshCycles_exact
    · decide
    · rw [hquotient]
      norm_num
    · exact hlt
  cases hexec : exec (MemorySystem.step nineCycles) (MemorySystem.init nineCycles)
      (List.replicate 9 .update) with
  | error e =>
    rw [hexec] at hrun
    cases hrun
  | ok s =>
    exact ⟨s, rfl, refreshCountdown_never_wraps nineCycles hshare
      (fun i hi => firstRefresh_exact hshare hlt hi) hreload _ s hexec⟩

end PIMSim.DDR
