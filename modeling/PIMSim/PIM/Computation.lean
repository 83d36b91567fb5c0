import Mathlib.Data.Nat.Count
import PIMSim.PIM.Pipeline

/-!
# The computation stage

The computation stage takes the outputs of all stages it is linked to, when all of them are ready, and
is to have its own output ready when its latency has passed.

A stage has its own counter, and is run between arbitrary turns of its surroundings: the stages it is
linked to stand as they like before each step, and the next stage fetches the output or does not.

## Main definitions

* `PIMStageComputation.step`: a step of the stage
* `Turn`, `PIMStageComputation.after`: the stage after a number of steps
* `PIMStageComputation.Delivers`: every operation has its output when the latency has passed

## Main results

* `every_nth_iff_delayed`: a sequence whose every `n`-th event is let through is delayed by `n - 1`
  only when `n` is one or there is no event
* `PIMStageComputation.produces_eq`: a step produces output when it takes an operation and the number
  of operations taken is a multiple of the latency
* `PIMStageComputation.in_time_iff`: every operation has its output in time exactly when the latency
  is one or no operation is offered
* `Pipeline.stepComputation_eq`: the third stage of `Adder_Conventional` is such a stage
-/

namespace PIMSim

open CSharp

/-! ### Every n-th event -/

section EveryNth

variable {p : ℕ → Prop} [DecidablePred p] {n : ℕ}

/-- Events of which each is let through `n - 1` steps late, and events of which only every `n`-th is
let through, are the same only when `n` is one or there are none. -/
theorem every_nth_iff_delayed (hn : 1 ≤ n) :
    (∀ t, (p t ∧ n ∣ Nat.count p t + 1) ↔ n - 1 ≤ t ∧ p (t - (n - 1))) ↔ n = 1 ∨ ∀ t, ¬ p t := by
  constructor
  · intro h
    by_contra! hcon
    obtain ⟨hone, hsome⟩ := hcon
    -- the first event comes after none, and is let through when `n` events have come
    let t₀ := Nat.find hsome
    have hp₀ : p t₀ := Nat.find_spec hsome
    have hcount₀ : Nat.count p t₀ = 0 :=
      Nat.count_iff_forall_not.mpr fun t ht => Nat.find_min hsome ht
    have hfirst : p (t₀ + (n - 1)) ∧ n ∣ Nat.count p (t₀ + (n - 1)) + 1 :=
      (h (t₀ + (n - 1))).mpr ⟨by omega, by rwa [Nat.add_sub_cancel]⟩
    have hsplit : Nat.count p (t₀ + (n - 1)) = Nat.count (fun k => p (t₀ + k)) (n - 1) := by
      rw [Nat.count_add, hcount₀, Nat.zero_add]
    have hfull : Nat.count (fun k => p (t₀ + k)) (n - 1) = n - 1 := by
      have hle := Nat.count_le (p := fun k => p (t₀ + k)) (n := n - 1)
      have hdvd := Nat.le_of_dvd (Nat.succ_pos _) hfirst.2
      omega
    -- so all steps up to then had an event, and the second one is let through one step later
    have hp₁ : p (t₀ + 1) := by
      by_cases htwo : n = 2
      · simpa [htwo] using hfirst.1
      · exact Nat.count_iff_forall.mp hfull 1 (by omega)
    have hsecond := (h (t₀ + 1 + (n - 1))).mpr ⟨by omega, by rwa [Nat.add_sub_cancel]⟩
    have hcount : Nat.count p (t₀ + 1 + (n - 1)) = n := by
      have : t₀ + 1 + (n - 1) = t₀ + (n - 1) + 1 := by omega
      rw [this, Nat.count_succ, if_pos hfirst.1, hsplit, hfull]
      omega
    rw [hcount] at hsecond
    have hdvd : n ∣ 1 := (Nat.dvd_add_right (dvd_refl n)).mp hsecond.2
    exact hone (Nat.dvd_one.mp hdvd)
  · rintro (rfl | hnone) t
    · simp
    · simp [hnone]

end EveryNth

/-! ### The counter -/

namespace Counter

/-- The constructor. -/
def make (start max : Int) : Outcome Counter :=
  if start < 0 then .error .argument
  else if max < start then .error .argument
  else .ok ⟨start, max⟩

def reset (c : Counter) : Counter := { c with count := c.max }

def zero (c : Counter) : Bool := decide (c.count = 0) && decide (c.max ≠ 0)

end Counter

/-! ### The stage -/

structure PIMStageComputation where
  stage : PIMStage
  latency : Counter
deriving DecidableEq

namespace PIMStageComputation

/-- The constructor. -/
def make (id i : Int) : Outcome PIMStageComputation := do
  let latency ← Counter.make i i
  return { stage := { id }, latency }

/-- An operation is offered: the stage is linked to others, and all their outputs are ready. -/
def Offered (last : List PIMStage) : Prop := last ≠ [] ∧ ∀ st ∈ last, st.outputReady = true

instance : DecidablePred Offered := fun last =>
  inferInstanceAs (Decidable (last ≠ [] ∧ ∀ st ∈ last, st.outputReady = true))

/-- `set_input` -/
def setInput (c : PIMStageComputation) (last : List PIMStage) :
    PIMStageComputation × List PIMStage :=
  match last with
  | [] => (c, [])
  | last =>
    if last.all PIMStage.outputReady then
      ({ c with stage := { c.stage with inputReady := true } }, last.map PIMStage.getOutput)
    else ({ c with stage := { c.stage with inputReady := false } }, last)

/-- `read_input` -/
def readInput (c : PIMStageComputation) : Bool × PIMStageComputation :=
  if c.stage.inputReady then
    (true, { c with stage := { c.stage with inputReady := false, intermid := some 0 } })
  else (false, c)

/-- `Step`. The answer is whether output was produced. -/
def step (c : PIMStageComputation) (last : List PIMStage) :
    Outcome (Bool × PIMStageComputation × List PIMStage) := do
  let c := { c with stage := { c.stage with stall := false } }
  let (c, last) := c.setInput last
  let (ready, c) := c.readInput
  if ready then do
    let latency ← c.latency.waitOne
    if latency.zero then
      return (true, { stage := c.stage.writeOutput, latency := latency.reset }, last)
    else return (false, { stage := { c.stage with stall := true }, latency }, last)
  else return (false, c, last)

end PIMStageComputation

/-- What the surroundings of a stage do before its step: how the stages stand that it is linked to, and
whether the next stage fetches the output. -/
structure Turn where
  last : List PIMStage
  fetched : Bool

namespace PIMStageComputation

/-- The stage as its step finds it. -/
def fetch (c : PIMStageComputation) (turn : Turn) : PIMStageComputation :=
  if turn.fetched then { c with stage := c.stage.getOutput } else c

/-- The stage after `t` steps. -/
def after (id i : Int) (turns : ℕ → Turn) : ℕ → Outcome PIMStageComputation
  | 0 => make id i
  | t + 1 => do
    let c ← after id i turns t
    let (_, c, _) ← (c.fetch (turns t)).step (turns t).last
    return c

/-- Whether the step after `t` others produces output. -/
def produces (id i : Int) (turns : ℕ → Turn) (t : ℕ) : Outcome Bool := do
  let c ← after id i turns t
  let (produced, _, _) ← (c.fetch (turns t)).step (turns t).last
  return produced

/-- **The latency of the stage**: a step produces output exactly when the operation that was offered
`n` steps before its end. The step that takes an operation is the first of the `n`. -/
def Delivers (id : Int) (n : ℕ) (turns : ℕ → Turn) : Prop :=
  ∀ t, produces id n turns t =
    .ok (decide (n - 1 ≤ t ∧ Offered (turns (t - (n - 1))).last))

variable {c : PIMStageComputation} {last : List PIMStage} {n k : ℕ}

/-- A remainder grows by one, or starts again. -/
theorem mod_succ_cases (hn : 1 ≤ n) (k : ℕ) :
    (n ∣ k + 1 ∧ k % n + 1 = n ∧ (k + 1) % n = 0) ∨
      (¬ n ∣ k + 1 ∧ k % n + 1 < n ∧ (k + 1) % n = k % n + 1) := by
  have hlt := Nat.mod_lt k hn
  have hmod : (k + 1) % n = (k % n + 1) % n := (Nat.mod_add_mod k n 1).symm
  by_cases hfull : k % n + 1 = n
  · rw [hfull, Nat.mod_self] at hmod
    exact .inl ⟨Nat.dvd_of_mod_eq_zero hmod, hfull, hmod⟩
  · have hroom : k % n + 1 < n := by omega
    rw [Nat.mod_eq_of_lt hroom] at hmod
    refine .inr ⟨fun hdvd => ?_, hroom, hmod⟩
    rw [Nat.mod_eq_zero_of_dvd hdvd] at hmod
    omega

/-- Between two steps the stage holds no input, and its counter tells how many operations it has to
take until it produces output: `k` were taken so far. -/
def Waits (n k : ℕ) (c : PIMStageComputation) : Prop :=
  c.stage.inputReady = false ∧ c.latency = ⟨(n - k % n : ℕ), n⟩

theorem Waits.fetch (hc : Waits n k c) (turn : Turn) : Waits n k (c.fetch turn) := by
  unfold PIMStageComputation.fetch PIMStage.getOutput
  split_ifs
  · exact hc
  · exact hc
  · exact hc

theorem setInput_of_offered (h : Offered last) (c : PIMStageComputation) :
    c.setInput last =
      ({ c with stage := { c.stage with inputReady := true } }, last.map PIMStage.getOutput) := by
  cases last with
  | nil => exact absurd rfl h.1
  | cons st last => exact if_pos (List.all_eq_true.mpr h.2)

theorem setInput_of_not_offered (h : ¬ Offered last) (hc : c.stage.inputReady = false) :
    c.setInput last = (c, last) := by
  cases last with
  | nil => rfl
  | cons st last =>
    have hnot : ¬ ((st :: last).all PIMStage.outputReady = true) := fun hall =>
      h ⟨nofun, List.all_eq_true.mp hall⟩
    refine (if_neg hnot).trans ?_
    rw [← hc]

/-- **One step**: it takes an operation that is offered, and produces output with the last of `n`. -/
theorem step_waits (hn : 1 ≤ n) (hc : Waits n k c) (last : List PIMStage) :
    ∃ c' last', c.step last = .ok (decide (Offered last ∧ n ∣ k + 1), c', last') ∧
      Waits n (k + if Offered last then 1 else 0) c' := by
  obtain ⟨hready, hlatency⟩ := hc
  by_cases hoffered : Offered last
  · have hlt := Nat.mod_lt k hn
    have hwait : c.latency.waitOne = .ok ⟨(n - k % n : ℕ) - 1, n⟩ := by
      rw [hlatency]
      unfold Counter.waitOne
      rw [if_neg (by dsimp only; omega), if_neg (by dsimp only; omega)]
      rfl
    simp only [step, setInput_of_offered hoffered, readInput, if_true, hwait, Outcome.ok_bind]
    obtain ⟨hdvd, hmod, hnext⟩ | ⟨hdvd, hmod, hnext⟩ := mod_succ_cases hn k
    · have hzero : Counter.zero ⟨(n - k % n : ℕ) - 1, n⟩ = true := by
        simp only [Counter.zero, Bool.and_eq_true, decide_eq_true_eq]
        omega
      simp only [hzero, if_true, hoffered, hdvd, and_self, decide_true]
      refine ⟨_, _, rfl, ?_, ?_⟩
      · simp [PIMStage.writeOutput]
      · simp [Counter.reset, hnext]
    · have hzero : Counter.zero ⟨(n - k % n : ℕ) - 1, n⟩ = false := by
        simp only [Counter.zero, Bool.and_eq_false_iff, decide_eq_false_iff_not]
        omega
      simp only [hzero, Bool.false_eq_true, if_false, hoffered, hdvd, and_false, decide_false,
        if_true]
      refine ⟨_, _, rfl, rfl, ?_⟩
      simp only [hnext, Counter.mk.injEq, and_true]
      omega
  · obtain ⟨c₁, hc₁⟩ : ∃ c₁ : PIMStageComputation,
        c₁ = { c with stage := { c.stage with stall := false } } := ⟨_, rfl⟩
    have hready₁ : c₁.stage.inputReady = false := by rw [hc₁]; exact hready
    refine ⟨c₁, last, ?_, hready₁, by rw [hc₁]; simpa [hoffered] using hlatency⟩
    simp only [step, ← hc₁, setInput_of_not_offered hoffered hready₁, readInput, hready₁,
      Bool.false_eq_true, if_false, hoffered, false_and, decide_false]
    rfl

/-- The operations that were offered in the first `t` steps. -/
def taken (turns : ℕ → Turn) (t : ℕ) : ℕ := Nat.count (fun k => Offered (turns k).last) t

theorem after_waits (hn : 1 ≤ n) (id : Int) (turns : ℕ → Turn) (t : ℕ) :
    ∃ c, after id n turns t = .ok c ∧ Waits n (taken turns t) c := by
  induction t with
  | zero =>
    refine ⟨{ stage := { id }, latency := ⟨n, n⟩ }, ?_, rfl, ?_⟩
    · have hn₀ : ¬ (n : Int) < 0 := by omega
      simp only [after, make, Counter.make, hn₀, if_false, lt_irrefl, Outcome.ok_bind]
      rfl
    · simp [taken]
  | succ t ih =>
    obtain ⟨c, hc, hwaits⟩ := ih
    obtain ⟨c', last', hstep, hwaits'⟩ := step_waits hn (hwaits.fetch (turns t)) (turns t).last
    refine ⟨c', ?_, ?_⟩
    · simp only [after, hc, hstep, Outcome.ok_bind]
      rfl
    · unfold taken
      rw [Nat.count_succ]
      exact hwaits'

/-- **What a step produces**: it has output when it takes an operation, and the number of operations
taken is a multiple of the latency. -/
theorem produces_eq (hn : 1 ≤ n) (id : Int) (turns : ℕ → Turn) (t : ℕ) :
    produces id n turns t =
      .ok (decide (Offered (turns t).last ∧ n ∣ taken turns t + 1)) := by
  obtain ⟨c, hc, hwaits⟩ := after_waits hn id turns t
  obtain ⟨c', last', hstep, -⟩ := step_waits hn (hwaits.fetch (turns t)) (turns t).last
  simp only [produces, hc, hstep, Outcome.ok_bind]
  rfl

/-- **The latency of the computation stage**: every operation that is offered has its output in time
exactly when the latency is one, or none is offered. -/
theorem in_time_iff (id : Int) (n : ℕ) (hn : 1 ≤ n) (turns : ℕ → Turn) :
    Delivers id n turns ↔ n = 1 ∨ ∀ t, ¬ Offered (turns t).last := by
  rw [← every_nth_iff_delayed (p := fun t => Offered (turns t).last) hn]
  refine forall_congr' fun t => ?_
  rw [produces_eq hn id turns t, Except.ok.injEq, decide_eq_decide]
  exact Iff.rfl

/-- One linked stage, whose output is ready. -/
def ready : List PIMStage := [{ id := 0, output := some 64, outputReady := true }]

theorem in_time_iff_one :
    Delivers 2 1 fun _ => { last := ready, fetched := true } :=
  (in_time_iff 2 1 (by decide) _).mpr (.inl rfl)

/-- An operation that is offered once has no output two steps later. -/
theorem not_delivers_two :
    ¬ Delivers 2 2 fun t => { last := if t = 0 then ready else [{ id := 0 }], fetched := true } := by
  intro h
  have hlate : produces 2 2 (fun t =>
      { last := if t = 0 then ready else [{ id := 0 }], fetched := true }) 1 = .ok false := by
    decide
  have htrue := hlate.symm.trans (h 1)
  revert htrue
  decide

end PIMStageComputation

namespace Pipeline

variable {s : Pipeline}

/-- The stage of the unit and its counter. -/
def computationOf (u : AdderConventional) : PIMStageComputation :=
  { stage := u.computation, latency := u.latency }

/-- **The third stage of the unit** steps as a computation stage linked to both loads. -/
theorem stepComputation_eq (s : Pipeline) :
    s.stepComputation = do
      let (_, c, last) ← (computationOf s.unit).step [s.unit.load0, s.unit.load1]
      return { s with unit := { s.unit with
        computation := c.stage
        latency := c.latency
        load0 := last.headD s.unit.load0
        load1 := last.tail.headD s.unit.load1 } } := by
  unfold stepComputation feedComputation PIMStageComputation.step PIMStageComputation.setInput
    PIMStageComputation.readInput computationOf
  by_cases hready : (s.unit.load0.outputReady && s.unit.load1.outputReady) = true
  · have hall : [s.unit.load0, s.unit.load1].all PIMStage.outputReady = true := by
      simpa using hready
    simp only [hready, hall, if_true]
    cases s.unit.latency.waitOne with
    | error e => rfl
    | ok latency =>
      simp only [Outcome.ok_bind]
      by_cases hzero : latency.count = 0 ∧ latency.max ≠ 0
      · have : latency.zero = true := by simp [Counter.zero, hzero]
        simp [hzero, this, Counter.reset]
      · have : latency.zero = false := by
          simp only [Counter.zero, Bool.and_eq_false_iff, decide_eq_false_iff_not]
          tauto
        simp [hzero, this]
  · have hall : [s.unit.load0, s.unit.load1].all PIMStage.outputReady = false := by
      simpa using hready
    simp [hready, hall]

end Pipeline

end PIMSim
