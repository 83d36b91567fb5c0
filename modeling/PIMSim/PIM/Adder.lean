import PIMSim.PIM.Computation
import PIMSim.PIM.Outstanding

/-!
# The adder of the bypass method

`Adder` has the stages of `Adder_Conventional`. Its loads and its store send no requests: each lets a
number of cycles pass. The constructor gives the latency of the store in the place of its number, and
no address is ever given to the store.

The partitioner has a sequence of functions for the unit, and the hosts do anything between two steps.

## Main definitions

* `Adder.make`: the constructor
* `Adder.step`: a step of the unit, or of the hosts
* `Adder.Dead`: a function is taken, and no step changes the unit any more
* `Adder.Completes`: what holds of a unit that completes every function

## Main results

* `Adder.unfinished_step`: a unit that has taken a function keeps it, and its steps change it only
  downwards
* `Adder.completes_iff`: the unit completes every function of the sequence exactly when there is none
-/

namespace PIMSim

open CSharp Transition

variable {Obj : Type}

/-- What a unit does for its function. -/
inductive AdderWork
  | load (i : ℕ) (addr : UInt64)
  | add
  | store (addr : UInt64)
deriving DecidableEq

/-- The latencies that the constructor reads. -/
structure AdderLatencies where
  load : Int := 1
  store : Int := 1
  op : Int := 1

/-- The unit with its surroundings, the functions that the partitioner still has for it, the function
it took last, and what it has done for that. -/
structure Adder where
  pipe : Pipeline
  functions : List FunctionInput
  taken : Option FunctionInput := none
  work : List AdderWork := []

inductive AdderEvent
  | step (due : Bool)
  | host (host : Host)

namespace Adder

/-- The constructor. The third argument of the store's constructor, its latency, is left out. -/
def make (l : AdderLatencies) : Outcome AdderConventional := do
  let latency ← Counter.make l.op l.op
  return {
    load0 := { id := 0, latency := l.load }
    load1 := { id := 1, latency := l.load }
    computation := { id := 2 }
    store := { id := l.store }
    latency }

/-- A new unit, and the functions it is to be fed. -/
def init (l : AdderLatencies) (coherence : Coherence) (functions : List FunctionInput) :
    Outcome Adder := do
  let unit ← make l
  return { pipe := { Pipeline.init 0 coherence with unit }, functions }

/-- The output that a stage did not have before. -/
def produced (before after : PIMStage) (work : UInt64 → AdderWork) : List AdderWork :=
  if !before.outputReady && after.outputReady then after.output.toList.map work else []

/-- What the stages have done between two states of the unit. -/
def performed (u u' : AdderConventional) : List AdderWork :=
  produced u.load0 u'.load0 (.load 0) ++ produced u.load1 u'.load1 (.load 1) ++
    produced u.computation u'.computation (fun _ => .add) ++ produced u.store u'.store .store

/-- A part of a step. -/
def part (f : Pipeline → Outcome Pipeline) (s : Adder) : Outcome Adder := do
  let pipe ← f s.pipe
  return { s with pipe, work := s.work ++ performed s.pipe.unit pipe.unit }

/-- A unit without a function asks for one. The partitioner has one that is due, or has not. -/
def start (s : Adder) (due : Bool) : Outcome Adder :=
  match s.pipe.unit.curr, s.functions, due with
  | none, f :: functions, true => do
    let first ← listAt f.input 0
    let second ← listAt f.input 1
    let unit := { s.pipe.unit with
      curr := some f
      load0 := s.pipe.unit.load0.setInput first
      load1 := s.pipe.unit.load1.setInput second }
    return { pipe := { s.pipe with unit }, functions, taken := some f }
  | _, _, _ => return s

/-- The stages step, the last one first. -/
def stages (cfg : Config) (info : List (Region Obj)) (s : Adder) : Outcome Adder := do
  let s ← s.part fun p => p.stepStore cfg info .bypass
  let s ← s.part fun p => p.finish info
  let s ← s.part fun p => p.stepComputation
  let s ← s.part fun p => p.stepLoad1 cfg info .bypass
  s.part fun p => p.stepLoad0 cfg info .bypass

/-- `Step`, and anything that the hosts do. -/
def step (cfg : Config) (info : List (Region Obj)) (s : Adder) : AdderEvent → Outcome Adder
  | .step due => do
    let s ← s.start due
    s.stages cfg info
  | .host host => return { s with pipe := { s.pipe with
      coherence := { s.pipe.coherence with host := host } } }

/-- The unit has done for its function what it is to do, each once, in order, with the addresses of
the function, and its latencies are as they were. The loads have no order. -/
def Served (l : AdderLatencies) (f : FunctionInput) (s : Adder) : Prop :=
  (∃ a b c, f.input[0]? = some a ∧ f.input[1]? = some b ∧ f.output[0]? = some c ∧
    (s.work = [.load 0 a, .load 1 b, .add, .store c] ∨
      s.work = [.load 1 b, .load 0 a, .add, .store c])) ∧
  s.pipe.unit.load0.latency = l.load ∧ s.pipe.unit.load1.latency = l.load ∧
    s.pipe.unit.store.latency = l.store ∧ s.pipe.unit.latency = ⟨l.op, l.op⟩

/-- A function is taken, and no step changes the unit any more. -/
def Dead (cfg : Config) (info : List (Region Obj)) (s : Adder) : Prop :=
  s.pipe.unit.curr ≠ none ∧
    ∀ es s', exec (step cfg info) s es = .ok s' → s'.pipe.unit = s.pipe.unit

/-- **A unit that completes every function**: when it is idle it has served the function it took, every
step returns, and it does not stand still with a function. -/
structure Completes (cfg : Config) (info : List (Region Obj)) (l : AdderLatencies) (s : Adder) :
    Prop where
  served : s.pipe.unit.curr = none → ∀ f ∈ s.taken, Served l f s
  returns : ∀ due, ∃ s', step cfg info s (.step due) = .ok s'
  alive : ¬ Dead cfg info s

/-! ### A unit with an unfinished function -/

variable {cfg : Config} {info : List (Region Obj)} {s s' : Adder} {p p' : Pipeline}
  {u u' : AdderConventional} {st st' : PIMStage}

/-- The steps that a latency lets pass: it is counted down to zero in 32 bits. -/
def remaining (latency : Int) : ℕ := ((latency - 1) % 2 ^ 32).toNat + 1

/-- How far a load is from having handed its output on. -/
def loadMeasure (st : PIMStage) : ℕ :=
  if st.inputReady then 2 * remaining st.latency + 20 + (if st.stall then 0 else 1)
  else (if st.outputReady then 10 else 0) + (if st.stall then 1 else 0)

/-- How far a unit is from standing still. -/
def measure (u : AdderConventional) : ℕ :=
  loadMeasure u.load0 + loadMeasure u.load1 +
    ((if u.computation.outputReady then 5 else 0) + (if u.computation.stall then 1 else 0)) +
    ((if u.store.inputReady then 2 else 0) + (if u.store.stall then 1 else 0))

/-- The unit stays, or comes closer to standing still. -/
def Sinks (u u' : AdderConventional) : Prop := u' = u ∨ measure u' < measure u

theorem Sinks.refl (u : AdderConventional) : Sinks u u := .inl rfl

theorem Sinks.trans {u'' : AdderConventional} (h : Sinks u u') (h' : Sinks u' u'') :
    Sinks u u'' := by
  rcases h with rfl | h
  · exact h'
  · rcases h' with rfl | h'
    · exact .inr h
    · exact .inr (h'.trans h)

/-- A load has an operand: it is counting down, or its output is ready. -/
def busy (st : PIMStage) : Bool := st.inputReady || st.outputReady

/-- The operations that can still reach the store. -/
def pending (u : AdderConventional) : ℕ :=
  (if u.computation.outputReady then 1 else 0) + (if busy u.load0 && busy u.load1 then 1 else 0)

/-- A load that waits for nothing, and hands its output on before it takes an input. -/
structure Loading (st : PIMStage) : Prop where
  status : st.status = .noOp
  input : st.inputReady = true → st.input.isSome ∧ st.outputReady = false

/-- **A unit with an unfinished function**: the store has had at most one operation, whose latency it
counts down from zero. -/
structure Unfinished (u : AdderConventional) : Prop where
  curr : u.curr ≠ none
  load0 : Loading u.load0
  load1 : Loading u.load1
  computation : u.computation.inputReady = false
  status : u.store.status = .noOp
  output : u.store.outputReady = false
  latency : (u.store.latency = 0 ∧ pending u ≤ 1) ∨ (u.store.latency = -1 ∧ pending u = 0)

/-- A latency that is not over has one step less to go. -/
theorem remaining_bmod {latency : Int} (h : Int.bmod (latency - 1) (2 ^ 32) ≠ 0) :
    remaining (Int.bmod (latency - 1) (2 ^ 32)) + 1 = remaining latency := by
  unfold remaining
  rw [Int.bmod_def] at h ⊢
  push_cast at h ⊢
  split_ifs at h ⊢ <;> omega

/-- What a load or a store of the bypass method does with its input: it has none, it backs off, it lets
a cycle of its latency pass, or its latency is over. -/
theorem readInput_bypass {type : RequestType} {ready : Bool} (hstatus : st.status = .noOp)
    (h : Pipeline.readInput cfg info .bypass type p st = .ok (ready, p', st')) :
    p'.unit = p.unit ∧
      ((ready = false ∧ st' = st ∧ (st.inputReady = false ∨ st.input = none)) ∨
        (ready = false ∧ st' = { st with stall := true } ∧ st.inputReady = true) ∨
        (ready = false ∧ Int.bmod (st.latency - 1) (2 ^ 32) ≠ 0 ∧ st.inputReady = true ∧
          st' = { st with
            latency := Int.bmod (st.latency - 1) (2 ^ 32)
            stall := st.stall || decide (type = .store) }) ∨
        (ready = true ∧ Int.bmod (st.latency - 1) (2 ^ 32) = 0 ∧ st.inputReady = true ∧
          ∃ addr, st' = { st with
            latency := 0, intermid := some addr, inputReady := false, input := none })) := by
  obtain ⟨id, input, output, intermid, inputReady, outputReady, stall, status, latency⟩ := st
  dsimp only at hstatus
  subst hstatus
  cases input with
  | none =>
    cases h
    exact ⟨rfl, .inl ⟨rfl, rfl, .inr rfl⟩⟩
  | some addr =>
    cases inputReady with
    | false =>
      cases h
      exact ⟨rfl, .inl ⟨rfl, rfl, .inl rfl⟩⟩
    | true =>
      obtain ⟨⟨goesOn, p₁⟩, hsecure, h⟩ := Outcome.bind_eq_ok.mp h
      obtain ⟨rfl, hsecured⟩ | ⟨rfl, hsecured⟩ := Pipeline.secure_cases hsecure
      · have hunit : p₁.unit = p.unit := hsecured.elim (·.unit) (·.unit)
        by_cases hlatency : Int.bmod (latency - 1) (2 ^ 32) = 0
        · simp only [if_true, Pipeline.issue, if_pos hlatency] at h
          cases h
          exact ⟨hunit, .inr (.inr (.inr ⟨rfl, hlatency, rfl, addr, by rw [hlatency]⟩))⟩
        · simp only [if_true, Pipeline.issue, if_neg hlatency] at h
          cases h
          exact ⟨hunit, .inr (.inr (.inl ⟨rfl, hlatency, rfl, rfl⟩))⟩
      · cases h
        exact ⟨hsecured.unit, .inr (.inl ⟨rfl, rfl, rfl⟩)⟩

theorem set_stall {b : Bool} (h : st.stall = b) : { st with stall := b } = st := by
  rw [← h]

theorem set_stall_ready {b r : Bool} (h : st.stall = b) (h' : st.inputReady = r) :
    { st with stall := b, inputReady := r } = st := by
  rw [← h, ← h']

/-- A step of a load. -/
theorem loadStep_sinks (hst : Loading st)
    (h : p.loadStep cfg info .bypass st = .ok (p', st')) :
    p'.unit = p.unit ∧ Loading st' ∧ busy st' = busy st ∧
      (st' = st ∨ loadMeasure st' < loadMeasure st) := by
  obtain ⟨⟨ready, p₁, st₁⟩, hread, heq⟩ := Outcome.bind_eq_ok.mp h
  cases heq
  replace hst : Loading { st with stall := false } := ⟨hst.status, hst.input⟩
  obtain ⟨hunit, hcases⟩ := readInput_bypass hst.status hread
  refine ⟨hunit, ?_⟩
  rcases hcases with ⟨rfl, rfl, hempty⟩ | ⟨rfl, rfl, hready⟩ | ⟨rfl, hleft, hready, rfl⟩ |
    ⟨rfl, hover, hready, addr, rfl⟩
  · -- nothing to do, so that only the stall flag may fall
    have hnot : st.inputReady = false := by
      rcases hempty with hempty | hempty
      · exact hempty
      · refine Bool.eq_false_iff.mpr fun hready => ?_
        have hsome := (hst.input hready).1
        rw [show st.input = none from hempty] at hsome
        cases hsome
    refine ⟨⟨hst.status, hst.input⟩, rfl, ?_⟩
    cases hstall : st.stall with
    | false => exact .inl (set_stall hstall)
    | true =>
      right
      simp [loadMeasure, hnot, hstall]
  · -- the hosts have not flushed the address
    refine ⟨⟨hst.status, hst.input⟩, rfl, ?_⟩
    cases hstall : st.stall with
    | false =>
      right
      have hready : st.inputReady = true := hready
      simp [loadMeasure, hready, hstall]
    | true => exact .inl (set_stall hstall)
  · refine ⟨⟨hst.status, hst.input⟩, rfl, .inr ?_⟩
    have hready : st.inputReady = true := hready
    have hless := remaining_bmod hleft
    dsimp only at hless
    simp only [loadMeasure, hready, if_true, Bool.false_or, reduceCtorEq, decide_false,
      Bool.false_eq_true, if_false]
    split_ifs <;> omega
  · have hready : st.inputReady = true := hready
    refine ⟨⟨hst.status, nofun⟩, ?_, .inr ?_⟩
    · simp [busy, PIMStage.writeOutput, hready]
    · simp only [loadMeasure, PIMStage.writeOutput, hready, if_true, Bool.false_eq_true, if_false]
      split_ifs <;> omega

theorem stepLoad1_sinks (hu : Unfinished p.unit)
    (h : p.stepLoad1 cfg info .bypass = .ok p') :
    Unfinished p'.unit ∧ Sinks p.unit p'.unit := by
  obtain ⟨⟨p₁, st'⟩, hload, heq⟩ := Outcome.bind_eq_ok.mp h
  cases heq
  obtain ⟨hunit, hload1, hbusy, hst⟩ := loadStep_sinks hu.load1 hload
  rw [hunit]
  refine ⟨{ hu with load1 := hload1, latency := ?_ }, ?_⟩
  · simpa only [pending, hbusy] using hu.latency
  · rcases hst with rfl | hlt
    · exact .inl rfl
    · right
      simp only [measure]
      omega

theorem stepLoad0_sinks (hu : Unfinished p.unit)
    (h : p.stepLoad0 cfg info .bypass = .ok p') :
    Unfinished p'.unit ∧ Sinks p.unit p'.unit := by
  obtain ⟨⟨p₁, st'⟩, hload, heq⟩ := Outcome.bind_eq_ok.mp h
  cases heq
  obtain ⟨hunit, hload0, hbusy, hst⟩ := loadStep_sinks hu.load0 hload
  rw [hunit]
  refine ⟨{ hu with load0 := hload0, latency := ?_ }, ?_⟩
  · simpa only [pending, hbusy] using hu.latency
  · rcases hst with rfl | hlt
    · exact .inl rfl
    · right
      simp only [measure]
      omega

/-- A load whose output is taken. -/
theorem Loading.getOutput (hst : Loading st) (hout : st.outputReady = true) :
    Loading st.getOutput ∧ busy st.getOutput = false ∧
      loadMeasure st.getOutput + 10 = loadMeasure st := by
  have hnot : st.inputReady = false := by
    refine Bool.eq_false_iff.mpr fun hready => ?_
    have := (hst.input hready).2
    rw [hout] at this
    cases this
  have hget : st.getOutput = { st with outputReady := false, output := none } := if_pos hout
  rw [hget]
  refine ⟨⟨hst.status, fun hready => ?_⟩, ?_, ?_⟩
  · rw [show st.inputReady = true from hready] at hnot
    cases hnot
  · simp [busy, hnot]
  · simp only [loadMeasure, hnot, hout, Bool.false_eq_true, if_false, if_true]
    omega

/-- The operation that the computation takes is the last one that can reach the store. -/
theorem Unfinished.fed {computation : PIMStage} {latency : Counter} (hu : Unfinished u)
    (hready : u.load0.outputReady = true ∧ u.load1.outputReady = true)
    (hcomputation : computation.inputReady = false) :
    Unfinished { u with
      load0 := u.load0.getOutput, load1 := u.load1.getOutput, computation, latency } ∧
    Sinks u { u with
      load0 := u.load0.getOutput, load1 := u.load1.getOutput, computation, latency } := by
  obtain ⟨hload0, hbusy0, hless0⟩ := hu.load0.getOutput hready.1
  obtain ⟨hload1, hbusy1, hless1⟩ := hu.load1.getOutput hready.2
  have hpending : pending u = (if u.computation.outputReady then 1 else 0) + 1 := by
    simp [pending, busy, hready.1, hready.2]
  refine ⟨{ hu with load0 := hload0, load1 := hload1, computation := hcomputation, latency := ?_ },
    .inr ?_⟩
  · rcases hu.latency with ⟨hzero, hle⟩ | ⟨-, hnone⟩
    · refine .inl ⟨hzero, ?_⟩
      simp only [pending, hbusy0, Bool.false_and, Bool.false_eq_true, if_false, Nat.add_zero]
      split_ifs <;> omega
    · omega
  · simp only [measure]
    split_ifs <;> omega

theorem stepComputation_sinks (hu : Unfinished p.unit) (h : p.stepComputation = .ok p') :
    Unfinished p'.unit ∧ Sinks p.unit p'.unit := by
  unfold Pipeline.stepComputation Pipeline.feedComputation at h
  by_cases hready : p.unit.load0.outputReady = true ∧ p.unit.load1.outputReady = true
  · simp only [hready.1, hready.2, Bool.and_self, if_true] at h
    obtain ⟨latency, -, h⟩ := Outcome.bind_eq_ok.mp h
    split_ifs at h
    · cases h
      exact hu.fed hready rfl
    · cases h
      exact hu.fed hready rfl
  · have hnot : (p.unit.load0.outputReady && p.unit.load1.outputReady) = false := by
      rw [← Bool.not_eq_true, Bool.and_eq_true]
      exact hready
    simp only [hnot, Bool.false_eq_true, if_false] at h
    cases h
    refine ⟨{ hu with computation := rfl }, ?_⟩
    cases hstall : p.unit.computation.stall with
    | false =>
      left
      dsimp only
      rw [set_stall_ready hstall hu.computation]
    | true =>
      right
      simp only [measure, hstall, if_true, Bool.false_eq_true, if_false]
      omega

/-- An operation comes to the store, which backs off or starts to count down from zero. -/
theorem Unfinished.stored {store : PIMStage} (hu : Unfinished u)
    (hcomputed : u.computation.outputReady = true) (hstatus : store.status = .noOp)
    (hout : store.outputReady = false)
    (hlatency : store.latency = u.store.latency ∨
      store.latency = Int.bmod (u.store.latency - 1) (2 ^ 32)) :
    Unfinished { u with computation := u.computation.getOutput, store } ∧
      Sinks u { u with computation := u.computation.getOutput, store } := by
  have hget : u.computation.getOutput = { u.computation with outputReady := false, output := none } :=
    if_pos hcomputed
  rw [hget]
  obtain ⟨hzero, hpending⟩ : u.store.latency = 0 ∧ pending u ≤ 1 := by
    rcases hu.latency with h | ⟨-, h⟩
    · exact h
    · simp [pending, hcomputed] at h
  have hbusy : (busy u.load0 && busy u.load1) = false := by
    simpa [pending, hcomputed] using hpending
  refine ⟨{ hu with computation := hu.computation, status := hstatus, output := hout, latency := ?_ },
    .inr ?_⟩
  · have hnone : pending { u with
        computation := { u.computation with outputReady := false, output := none }, store } = 0 := by
      simp [pending, hbusy]
    rw [hzero] at hlatency
    rcases hlatency with h | h
    · exact .inl ⟨h, by omega⟩
    · exact .inr ⟨h, hnone⟩
  · simp only [measure, hcomputed, if_true, Bool.false_eq_true, if_false]
    split_ifs <;> omega

theorem stepStore_sinks (hu : Unfinished p.unit) (h : p.stepStore cfg info .bypass = .ok p') :
    Unfinished p'.unit ∧ Sinks p.unit p'.unit := by
  obtain ⟨⟨ready, p₁, st⟩, hread, heq⟩ := Outcome.bind_eq_ok.mp h
  by_cases hcomputed : p.unit.computation.outputReady = true
  · have hfeed : Pipeline.feedStore p.unit = { p.unit with
        computation := p.unit.computation.getOutput
        store := { p.unit.store with
          stall := false, input := some p.unit.storeAddr, inputReady := true } } := if_pos hcomputed
    rw [hfeed] at hread
    obtain ⟨hunit, hcases⟩ := readInput_bypass (by exact hu.status) hread
    rcases hcases with ⟨rfl, rfl, hempty⟩ | ⟨rfl, rfl, -⟩ | ⟨rfl, -, -, rfl⟩ | ⟨rfl, hover, -⟩
    · rcases hempty with hempty | hempty
      · cases hempty
      · cases hempty
    · cases heq
      rw [hunit]
      exact hu.stored hcomputed hu.status hu.output (.inl rfl)
    · cases heq
      rw [hunit]
      exact hu.stored hcomputed hu.status hu.output (.inr rfl)
    · -- the latency of the first operation is counted down from zero
      have hzero : p.unit.store.latency = 0 := by
        rcases hu.latency with ⟨hzero, -⟩ | ⟨-, h⟩
        · exact hzero
        · simp [pending, hcomputed] at h
      dsimp only at hover
      rw [hzero] at hover
      exact absurd hover (by decide)
  · have hfeed : Pipeline.feedStore p.unit = { p.unit with
        store := { p.unit.store with stall := false, inputReady := false } } := if_neg hcomputed
    rw [hfeed] at hread
    obtain ⟨hunit, hcases⟩ := readInput_bypass (by exact hu.status) hread
    rcases hcases with ⟨rfl, rfl, -⟩ | ⟨-, -, hready⟩ | ⟨-, -, hready, -⟩ | ⟨-, -, hready, -⟩
    · cases heq
      rw [hunit]
      refine ⟨{ hu with status := hu.status, output := hu.output, latency := hu.latency }, ?_⟩
      by_cases hsame : p.unit.store.stall = false ∧ p.unit.store.inputReady = false
      · left
        dsimp only
        rw [set_stall_ready hsame.1 hsame.2]
      · right
        rw [not_and_or, Bool.not_eq_false, Bool.not_eq_false] at hsame
        simp only [measure, Bool.false_eq_true, if_false]
        rcases hsame with hsame | hsame
        · rw [if_pos hsame]
          omega
        · rw [if_pos hsame]
          omega
    · cases hready
    · cases hready
    · cases hready

theorem finish_sinks (hu : Unfinished p.unit) (h : p.finish info = .ok p') : p' = p := by
  rcases Pipeline.finish_cases h with ⟨rfl, -⟩ | ⟨f, p₁, hout, -⟩
  · rfl
  · rw [hu.output] at hout
    cases hout

theorem part_eq_ok {f : Pipeline → Outcome Pipeline} (h : s.part f = .ok s') :
    f s.pipe = .ok s'.pipe ∧ s'.functions = s.functions ∧ s'.taken = s.taken := by
  obtain ⟨pipe, hpipe, heq⟩ := Outcome.bind_eq_ok.mp h
  cases heq
  exact ⟨hpipe, rfl, rfl⟩

theorem stages_sinks (hu : Unfinished s.pipe.unit) (h : s.stages cfg info = .ok s') :
    Unfinished s'.pipe.unit ∧ Sinks s.pipe.unit s'.pipe.unit := by
  obtain ⟨s₁, h₁, h⟩ := Outcome.bind_eq_ok.mp h
  obtain ⟨s₂, h₂, h⟩ := Outcome.bind_eq_ok.mp h
  obtain ⟨s₃, h₃, h⟩ := Outcome.bind_eq_ok.mp h
  obtain ⟨s₄, h₄, h₅⟩ := Outcome.bind_eq_ok.mp h
  obtain ⟨hu₁, hsinks₁⟩ := stepStore_sinks hu (part_eq_ok h₁).1
  have hfinish : s₂.pipe = s₁.pipe := finish_sinks hu₁ (part_eq_ok h₂).1
  rw [← hfinish] at hu₁ hsinks₁
  obtain ⟨hu₃, hsinks₃⟩ := stepComputation_sinks hu₁ (part_eq_ok h₃).1
  obtain ⟨hu₄, hsinks₄⟩ := stepLoad1_sinks hu₃ (part_eq_ok h₄).1
  obtain ⟨hu₅, hsinks₅⟩ := stepLoad0_sinks hu₄ (part_eq_ok h₅).1
  exact ⟨hu₅, ((hsinks₁.trans hsinks₃).trans hsinks₄).trans hsinks₅⟩

/-- **A unit with an unfinished function** keeps it, and sinks. -/
theorem unfinished_step {e : AdderEvent} (hu : Unfinished s.pipe.unit)
    (h : step cfg info s e = .ok s') :
    Unfinished s'.pipe.unit ∧ Sinks s.pipe.unit s'.pipe.unit := by
  cases e with
  | host host =>
    cases h
    exact ⟨hu, Sinks.refl _⟩
  | step due =>
    obtain ⟨s₁, hstart, h⟩ := Outcome.bind_eq_ok.mp h
    have hsame : s₁ = s := by
      unfold start at hstart
      split at hstart
      · exact absurd ‹_› hu.curr
      · cases hstart
        rfl
    rw [hsame] at h
    exact stages_sinks hu h

/-- A unit with an unfinished function comes to rest. -/
theorem unfinished_rests (cfg : Config) (info : List (Region Obj)) (hu : Unfinished s.pipe.unit) :
    ∃ es t, exec (step cfg info) s es = .ok t ∧ Unfinished t.pipe.unit ∧
      ∀ fs u, exec (step cfg info) t fs = .ok u → u.pipe.unit = t.pipe.unit :=
  exec_rests (I := fun s => Unfinished s.pipe.unit) (fun s => s.pipe.unit)
    (fun _ _ _ hu h => unfinished_step hu h) hu

/-! ### A unit without a function -/

/-- Nothing is on its way in the unit. -/
structure Resting (u : AdderConventional) : Prop where
  curr : u.curr = none
  load0 : u.load0.status = .noOp ∧ u.load0.inputReady = false ∧ u.load0.outputReady = false
  load1 : u.load1.status = .noOp ∧ u.load1.inputReady = false ∧ u.load1.outputReady = false
  computation : u.computation.inputReady = false ∧ u.computation.outputReady = false
  store : u.store.status = .noOp ∧ u.store.inputReady = false ∧ u.store.outputReady = false

theorem readInput_resting (cfg : Config) (info : List (Region Obj)) (type : RequestType)
    (p : Pipeline) (st : PIMStage) (hst : st.status = .noOp ∧ st.inputReady = false) :
    Pipeline.readInput cfg info .bypass type p st = .ok (false, p, st) := by
  unfold Pipeline.readInput
  rw [hst.1]
  cases st.input with
  | none => rfl
  | some addr => exact if_neg (by simp [hst.2])

theorem loadStep_resting (p : Pipeline) (hst : st.status = .noOp ∧ st.inputReady = false) :
    p.loadStep cfg info .bypass st = .ok (p, { st with stall := false }) := by
  unfold Pipeline.loadStep
  rw [readInput_resting cfg info .load p { st with stall := false } hst]
  rfl

theorem stepStore_resting (cfg : Config) (info : List (Region Obj)) (hu : Resting p.unit) :
    ∃ p', p.stepStore cfg info .bypass = .ok p' ∧ Resting p'.unit := by
  have hfeed : Pipeline.feedStore p.unit = { p.unit with
      store := { p.unit.store with stall := false, inputReady := false } } :=
    if_neg (by simp [hu.computation.2])
  have hread := readInput_resting cfg info .store { p with unit := Pipeline.feedStore p.unit }
    { p.unit.store with stall := false, inputReady := false } ⟨hu.store.1, rfl⟩
  refine ⟨{ p with unit := { p.unit with
    store := { p.unit.store with stall := false, inputReady := false } } }, ?_,
    { hu with store := ⟨hu.store.1, rfl, hu.store.2.2⟩ }⟩
  unfold Pipeline.stepStore
  rw [hfeed] at hread ⊢
  dsimp only at hread ⊢
  rw [hread]
  rfl

theorem finish_resting (info : List (Region Obj)) (hu : Resting p.unit) : p.finish info = .ok p :=
  if_neg (by simp [hu.store.2.2])

theorem stepComputation_resting (hu : Resting p.unit) :
    ∃ p', p.stepComputation = .ok p' ∧ Resting p'.unit := by
  have hfeed : Pipeline.feedComputation p.unit = { p.unit with
      computation := { p.unit.computation with stall := false, inputReady := false } } :=
    if_neg (by simp [hu.load0.2.2])
  refine ⟨{ p with unit := { p.unit with
    computation := { p.unit.computation with stall := false, inputReady := false } } }, ?_,
    { hu with computation := ⟨rfl, hu.computation.2⟩ }⟩
  unfold Pipeline.stepComputation
  rw [hfeed]
  exact if_neg (by simp)

theorem stepLoad1_resting (cfg : Config) (info : List (Region Obj)) (hu : Resting p.unit) :
    ∃ p', p.stepLoad1 cfg info .bypass = .ok p' ∧ Resting p'.unit := by
  refine ⟨{ p with unit := { p.unit with load1 := { p.unit.load1 with stall := false } } }, ?_,
    { hu with load1 := hu.load1 }⟩
  unfold Pipeline.stepLoad1
  rw [loadStep_resting p ⟨hu.load1.1, hu.load1.2.1⟩]
  rfl

theorem stepLoad0_resting (cfg : Config) (info : List (Region Obj)) (hu : Resting p.unit) :
    ∃ p', p.stepLoad0 cfg info .bypass = .ok p' ∧ Resting p'.unit := by
  refine ⟨{ p with unit := { p.unit with load0 := { p.unit.load0 with stall := false } } }, ?_,
    { hu with load0 := hu.load0 }⟩
  unfold Pipeline.stepLoad0
  rw [loadStep_resting p ⟨hu.load0.1, hu.load0.2.1⟩]
  rfl

/-- A part that returns on the pipeline returns on the unit, and takes no function. -/
theorem part_returns {f : Pipeline → Outcome Pipeline}
    (h : ∃ p', f s.pipe = .ok p' ∧ Resting p'.unit) :
    ∃ s', s.part f = .ok s' ∧ Resting s'.pipe.unit ∧ s'.functions = s.functions ∧
      s'.taken = s.taken := by
  obtain ⟨p', hp', hrest⟩ := h
  unfold part
  rw [hp']
  exact ⟨_, rfl, hrest, rfl, rfl⟩

theorem stages_resting (cfg : Config) (info : List (Region Obj)) (hu : Resting s.pipe.unit) :
    ∃ s', s.stages cfg info = .ok s' ∧ Resting s'.pipe.unit ∧ s'.functions = s.functions ∧
      s'.taken = s.taken := by
  obtain ⟨s₁, h₁, hu₁, hf₁, ht₁⟩ := part_returns (stepStore_resting cfg info hu)
  obtain ⟨s₂, h₂, hu₂, hf₂, ht₂⟩ := part_returns ⟨s₁.pipe, finish_resting info hu₁, hu₁⟩
  obtain ⟨s₃, h₃, hu₃, hf₃, ht₃⟩ := part_returns (stepComputation_resting hu₂)
  obtain ⟨s₄, h₄, hu₄, hf₄, ht₄⟩ := part_returns (stepLoad1_resting cfg info hu₃)
  obtain ⟨s₅, h₅, hu₅, hf₅, ht₅⟩ := part_returns (stepLoad0_resting cfg info hu₄)
  refine ⟨s₅, ?_, hu₅, ?_, ?_⟩
  · unfold stages
    simp only [h₁, h₂, h₃, h₄, h₅, Outcome.ok_bind]
  · rw [hf₅, hf₄, hf₃, hf₂, hf₁]
  · rw [ht₅, ht₄, ht₃, ht₂, ht₁]

/-- A unit that is fed nothing. -/
structure Unfed (s : Adder) : Prop where
  unit : Resting s.pipe.unit
  functions : s.functions = []
  taken : s.taken = none

theorem unfed_step_due (cfg : Config) (info : List (Region Obj)) (hs : Unfed s) (due : Bool) :
    ∃ s', step cfg info s (.step due) = .ok s' ∧ Unfed s' := by
  have hstart : s.start due = .ok s := by
    unfold start
    rw [hs.unit.curr, hs.functions]
    rfl
  obtain ⟨s', hs', hu, hf, ht⟩ := stages_resting cfg info hs.unit
  refine ⟨s', ?_, hu, hf.trans hs.functions, ht.trans hs.taken⟩
  simp only [step, hstart, Outcome.ok_bind, hs']

theorem unfed_step {e : AdderEvent} (hs : Unfed s) (h : step cfg info s e = .ok s') :
    Unfed s' := by
  cases e with
  | host host =>
    cases h
    exact ⟨hs.unit, hs.functions, hs.taken⟩
  | step due =>
    obtain ⟨t, ht, hunfed⟩ := unfed_step_due cfg info hs due
    cases ht.symm.trans h
    exact hunfed

variable {l : AdderLatencies} {coherence : Coherence} {functions : List FunctionInput} {s₀ : Adder}

theorem init_eq_ok (h : init l coherence functions = .ok s₀) :
    Resting s₀.pipe.unit ∧ s₀.pipe.unit.store.latency = 0 ∧ s₀.functions = functions ∧
      s₀.taken = none := by
  obtain ⟨unit, hmake, heq⟩ := Outcome.bind_eq_ok.mp h
  obtain ⟨latency, -, hunit⟩ := Outcome.bind_eq_ok.mp hmake
  cases hunit
  cases heq
  exact ⟨⟨rfl, ⟨rfl, rfl, rfl⟩, ⟨rfl, rfl, rfl⟩, ⟨rfl, rfl⟩, ⟨rfl, rfl, rfl⟩⟩, rfl, rfl, rfl⟩

/-- The unit takes a function that is due. -/
theorem start_unfinished {f : FunctionInput} {functions : List FunctionInput}
    (hu : Resting s.pipe.unit) (hlatency : s.pipe.unit.store.latency = 0)
    (hfunctions : s.functions = f :: functions) (h : s.start true = .ok s') :
    Unfinished s'.pipe.unit := by
  unfold start at h
  rw [hu.curr, hfunctions] at h
  obtain ⟨first, -, h⟩ := Outcome.bind_eq_ok.mp h
  obtain ⟨second, -, h⟩ := Outcome.bind_eq_ok.mp h
  cases h
  refine ⟨nofun, ⟨hu.load0.1, fun _ => ⟨rfl, hu.load0.2.2⟩⟩, ⟨hu.load1.1, fun _ => ⟨rfl, hu.load1.2.2⟩⟩,
    hu.computation.1, hu.store.1, hu.store.2.2, .inl ⟨hlatency, ?_⟩⟩
  simp [pending, busy, PIMStage.setInput, hu.computation.2]

/-- **The bypass adder** completes every function that it is fed exactly when it is fed none. -/
theorem completes_iff (cfg : Config) (info : List (Region Obj)) (l : AdderLatencies)
    (coherence : Coherence) (functions : List FunctionInput) (s₀ : Adder)
    (h : init l coherence functions = .ok s₀) :
    (∀ es s, exec (step cfg info) s₀ es = .ok s → Completes cfg info l s) ↔ functions = [] := by
  obtain ⟨hu, hlatency, hfunctions, htaken⟩ := init_eq_ok h
  constructor
  · intro hall
    by_contra hne
    obtain ⟨f, rest, hf⟩ := List.exists_cons_of_ne_nil hne
    obtain ⟨s₁, hs₁⟩ := (hall [] s₀ rfl).returns true
    obtain ⟨t, hstart, hstages⟩ := Outcome.bind_eq_ok.mp hs₁
    have hunfinished :=
      (stages_sinks (start_unfinished hu hlatency (hfunctions.trans hf) hstart) hstages).1
    -- from here on the unit sinks, until it stands still
    obtain ⟨es, s, hes, hs, hrest⟩ := unfinished_rests cfg info hunfinished
    exact (hall (.step true :: es) s (exec_cons_eq_ok.mpr ⟨s₁, hs₁, hes⟩)).alive ⟨hs.curr, hrest⟩
  · rintro rfl es s hs
    have hunfed : Unfed s := exec_invariant (fun _ _ _ hs h => unfed_step hs h)
      ⟨hu, hfunctions, htaken⟩ hs
    refine ⟨fun _ f hf => ?_, fun due => ?_, fun hdead => hdead.1 hunfed.unit.curr⟩
    · rw [hunfed.taken] at hf
      cases hf
    · obtain ⟨s', hs', -⟩ := unfed_step_due cfg info hunfed due
      exact ⟨s', hs'⟩

theorem completes_iff_none : ∃ s₀, init {} noHost [] = .ok s₀ ∧
    ∀ es s, exec (step {} oneObject) s₀ es = .ok s → Completes {} oneObject {} s := by
  obtain ⟨s₀, h⟩ : ∃ s₀, init {} noHost [] = .ok s₀ := ⟨_, rfl⟩
  exact ⟨s₀, h, (completes_iff {} oneObject {} noHost [] s₀ h).mpr rfl⟩

/-- A unit with an unfinished function that cannot come closer to standing still stands still. -/
theorem dead_of_measure (hu : Unfinished s.pipe.unit) (h : measure s.pipe.unit = 0) :
    Dead cfg info s := by
  refine ⟨hu.curr, fun es s' hs' => ?_⟩
  have hkept : Unfinished s'.pipe.unit ∧ s'.pipe.unit = s.pipe.unit := by
    refine exec_invariant (I := fun t => Unfinished t.pipe.unit ∧ t.pipe.unit = s.pipe.unit)
      (fun t e t' ht hstep => ?_) ⟨hu, rfl⟩ hs'
    obtain ⟨hu', heq | hlt⟩ := unfinished_step ht.1 hstep
    · exact ⟨hu', heq.trans ht.2⟩
    · rw [ht.2, h] at hlt
      exact absurd hlt (Nat.not_lt_zero _)
  exact hkept.2

/-- With all latencies one, the unit stands still four steps after it was given its first function. -/
theorem not_completes_one : ∃ s₀ s,
    init {} noHost [{ input := [0, 64], output := [128] }] = .ok s₀ ∧
      exec (step {} oneObject) s₀ (List.replicate 4 (.step true)) = .ok s ∧
      Dead {} oneObject s ∧ ¬ Completes {} oneObject {} s := by
  obtain ⟨s₀, h₀, h⟩ := Outcome.exists_of_map_eq_ok
    (x := init {} noHost [{ input := [0, 64], output := [128] }])
    (f := fun s => (exec (step {} oneObject) s (List.replicate 4 (.step true))).map
      fun s => s.pipe.unit)
    (b := .ok {
      load0 := { id := 0 }
      load1 := { id := 1 }
      computation := { id := 2 }
      store := { id := 1, input := some 0, latency := -1 }
      curr := some { input := [0, 64], output := [128] } })
    (by decide +kernel)
  obtain ⟨s, hs, hunit⟩ := Outcome.exists_of_map_eq_ok h
  have hdead : Dead {} oneObject s := by
    apply dead_of_measure
    · rw [hunit]
      exact ⟨nofun, ⟨rfl, nofun⟩, ⟨rfl, nofun⟩, rfl, rfl, rfl, .inr ⟨rfl, rfl⟩⟩
    · rw [hunit]
      decide
  exact ⟨s₀, s, h₀, hs, hdead, fun hcompletes => hcompletes.alive hdead⟩

end Adder

end PIMSim
