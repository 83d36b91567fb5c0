import PIMSim.General
import PIMSim.Library.Run

/-!
# The arithmetic logic unit

The instructions that are fed to the unit wait in a queue and move through four stages, from the last
one backwards in every step, so that each stage takes the output of the one before it.

The stall flags are left out: no stage of this unit raises its flag.

## Main definitions

* `Stage`, `StageComputing`: the stages
* `ALU`, `ALU.step`: the unit with what was added to it and what left it, and its calls
* `ALU.Flows`: what holds between the calls
* `ALU.rank`: a bound on the steps until the unit is empty

## Main results

* `alu_in_order`: what is added leaves the last stage once, in order, within `rank` steps, unless the
  clock wraps around
-/

namespace PIMSim

open CSharp Transition

/-- An instruction with its operation, that only the unit reads. -/
structure CalcInstruction extends Instruction where
  operation : String := ""
deriving DecidableEq

/-! ### The stages -/

/-- `Stage`: the ready flags tell if an input or an output is there. -/
structure Stage where
  input : Option CalcInstruction := none
  inputReady : Bool := false
  output : Option CalcInstruction := none
  outputReady : Bool := false
  intermid : Option CalcInstruction := none

namespace Stage

def writeOutput (s : Stage) : Stage :=
  match s.intermid with
  | some i => { s with output := some i, outputReady := true, intermid := none }
  | none => { s with outputReady := false }

/-- `get_output`, of a stage whose output is ready. -/
def getOutput (s : Stage) : Stage := { s with outputReady := false, output := none }

/-- `read_input`, with its answer. -/
def readInput (s : Stage) : Stage × Bool :=
  if s.inputReady = true ∧ s.input ≠ none then
    ({ s with intermid := s.input, inputReady := false, input := none }, true)
  else (s, false)

/-- `set_input`: the output of the stage before is fetched, if it is ready. -/
def setInput (last s : Stage) : Stage × Stage :=
  if last.outputReady then
    (last.getOutput, { s with input := last.output, inputReady := true })
  else (last, s)

/-- `Stage_LoadData.Step` and `Stage_Writeback.Step`, with the stage before. -/
def pass (last s : Stage) : Stage × Stage :=
  let (last, s) := setInput last s
  (last, s.readInput.1.writeOutput)

end Stage

/-- `Stage_Decode.Step` -/
def Stage.decode (s : Stage) : Stage := s.readInput.1.writeOutput

/-- `Cal_table`: the adders and multipliers that an operation takes. -/
def calTable : List (String × Int × Int) := [("subi", 1, 0), ("add", 1, 0)]

/-- `Cal_table.GetItem`, for the operations that are in the table once. -/
def calItem (op : String) : Option (Int × Int) :=
  (calTable.find? fun item => item.1 = op).map Prod.snd

structure StageComputing extends Stage where
  addAbility : Int
  multiAbility : Int
  add : Int := 0
  multi : Int := 0

namespace StageComputing

/-- The adders and multipliers of one step are used. When they are enough, the instruction is done. -/
def compute (s : StageComputing) : StageComputing :=
  let add := s.add ≤ s.addAbility
  let multi := s.multi ≤ s.multiAbility
  if add ∧ multi then { s with toStage := s.writeOutput, add := 0, multi := 0 }
  else { s with
    add := if add then s.add else s.add - s.addAbility
    multi := if multi then s.multi else s.multi - s.multiAbility }

/-- `Stage_Computing.Step`, with the stage before. -/
def step (last : Stage) (s : StageComputing) : Stage × StageComputing :=
  if s.add ≠ 0 ∨ s.multi ≠ 0 then (last, s.compute)
  else
    let (last, stage) := Stage.setInput last s.toStage
    let (stage, read) := stage.readInput
    let s := { s with toStage := stage }
    match read, stage.intermid with
    | true, some i =>
      if i.type = .nop then (last, { s with toStage := stage.writeOutput })
      else
        let (add, multi) := (calItem i.operation).getD (1, 0)
        (last, { s with add, multi }.compute)
    | _, _ => (last, s)

end StageComputing

/-! ### The unit -/

/-- The unit. `added` and `written` are its history: what was fed to it, and what the write-back stage
put out. -/
structure ALU where
  ins : List (UInt64 × CalcInstruction) := []
  decode : Stage := {}
  loadData : Stage := {}
  computing : StageComputing
  writeback : Stage := {}
  cycle : UInt64 := 0
  added : List CalcInstruction := []
  written : List CalcInstruction := []

namespace ALU

/-- The constructor. -/
def init (adderCount multiCount : Int) : ALU where
  computing := { addAbility := adderCount, multiAbility := multiCount }

def addIns (a : ALU) (i : CalcInstruction) : ALU :=
  { a with ins := a.ins ++ [(a.cycle, i)], added := a.added ++ [i] }

/-- The loop that feeds the pipeline. An instruction that is not due makes it start over, with
nothing changed. -/
def feed (a : ALU) : Outcome ALU :=
  match a.ins with
  | [] => return a
  | (key, i) :: ins =>
    if key ≤ a.cycle then
      if a.decode.inputReady then return a
      else return { a with
        ins
        decode := { a.decode with input := some i, inputReady := true } }
    else .error .nonTermination

/-- The stages step, the last one first. -/
def stepStages (a : ALU) : ALU :=
  let (computing, writeback) := Stage.pass a.computing.toStage a.writeback
  let (loadData, computing) := StageComputing.step a.loadData { a.computing with toStage := computing }
  let (decode, loadData) := Stage.pass a.decode loadData
  { a with
    decode := decode.decode
    loadData
    computing
    writeback
    written := a.written ++ if writeback.outputReady then writeback.output.toList else [] }

/-- `Step` -/
def stepUnit (a : ALU) : Outcome ALU := do
  let a ← { a with cycle := a.cycle + 1 }.feed
  return a.stepStages

end ALU

/-- The calls of the unit. -/
inductive ALUEvent
  | addIns (i : CalcInstruction)
  | step
deriving DecidableEq

def ALU.step (a : ALU) : ALUEvent → Outcome ALU
  | .addIns i => return a.addIns i
  | .step => a.stepUnit

/-! ### What a stage holds -/

namespace Stage

variable {last s : Stage}

/-- The output that is ready. -/
def held (s : Stage) : List CalcInstruction := if s.outputReady then s.output.toList else []

/-- A stage between two steps: nothing is on its way through it, and an output that is ready is
there. -/
structure Idle (s : Stage) : Prop where
  input : s.inputReady = false
  intermid : s.intermid = none
  output : s.outputReady = true → s.output ≠ none

theorem idle_init : Idle {} := ⟨rfl, rfl, fun h => by cases h⟩

theorem held_eq_nil (h : s.outputReady = false) : s.held = [] := by
  unfold held
  rw [h]
  rfl

/-- An output that is ready is there. -/
def Filled (s : Stage) : Prop := s.outputReady = true → s.output ≠ none

theorem Filled.held_of_ready (h : Filled s) (hready : s.outputReady = true) :
    ∃ i, s.output = some i ∧ s.held = [i] := by
  obtain ⟨i, hi⟩ := Option.ne_none_iff_exists'.mp (h hready)
  refine ⟨i, hi, ?_⟩
  unfold held
  rw [if_pos hready, hi]
  rfl

/-- The stage after its output was fetched, if it was ready. -/
def taken (s : Stage) : Stage := if s.outputReady then s.getOutput else s

@[simp] theorem taken_held (s : Stage) : s.taken.held = [] := by
  unfold taken
  split_ifs with hready
  · rfl
  · exact held_eq_nil (Bool.eq_false_iff.mpr hready)

@[simp] theorem taken_input (s : Stage) : s.taken.input = s.input := by
  unfold taken
  split_ifs <;> rfl

@[simp] theorem taken_inputReady (s : Stage) : s.taken.inputReady = s.inputReady := by
  unfold taken
  split_ifs <;> rfl

theorem Idle.taken (h : Idle s) : Idle s.taken := by
  unfold Stage.taken
  split_ifs
  · exact ⟨h.input, h.intermid, fun hready => by cases hready⟩
  · exact h

/-- A stage with an input puts it out. -/
theorem readInput_writeOutput {i : CalcInstruction} (hinput : s.input = some i)
    (hready : s.inputReady = true) :
    Idle s.readInput.1.writeOutput ∧ s.readInput.1.writeOutput.held = [i] := by
  have hread : s.readInput = ({ s with intermid := s.input, inputReady := false, input := none },
      true) := by
    unfold readInput
    rw [if_pos ⟨hready, by rw [hinput]; exact Option.some_ne_none i⟩]
  rw [hread, hinput]
  exact ⟨⟨rfl, rfl, fun _ => Option.some_ne_none i⟩, rfl⟩

/-- A stage without an input has nothing to put out. -/
theorem Idle.readInput_writeOutput (h : Idle s) :
    Idle s.readInput.1.writeOutput ∧ s.readInput.1.writeOutput.held = [] := by
  have hread : s.readInput = (s, false) := by
    unfold readInput
    rw [if_neg]
    rintro ⟨hready, -⟩
    rw [h.input] at hready
    cases hready
  have hwrite : s.writeOutput = { s with outputReady := false } := by
    unfold writeOutput
    rw [h.intermid]
  rw [hread, hwrite]
  exact ⟨⟨h.input, h.intermid, fun hready => by cases hready⟩, rfl⟩

/-- **A stage passes on** what the stage before holds. -/
theorem pass_spec (hlast : Filled last) (hs : Idle s) : (pass last s).1 = last.taken ∧
    Idle (pass last s).2 ∧ (pass last s).2.held = last.held := by
  by_cases hready : last.outputReady = true
  · obtain ⟨i, hi, hheld⟩ := hlast.held_of_ready hready
    have hpass : pass last s = (last.getOutput,
        { s with input := last.output, inputReady := true }.readInput.1.writeOutput) := by
      unfold pass setInput
      rw [if_pos hready]
    have htaken : last.taken = last.getOutput := if_pos hready
    obtain ⟨hidle, hout⟩ := Stage.readInput_writeOutput
      (s := { s with input := last.output, inputReady := true }) hi rfl
    rw [hpass, hheld, htaken]
    exact ⟨rfl, hidle, hout⟩
  · have hpass : pass last s = (last, s.readInput.1.writeOutput) := by
      unfold pass setInput
      rw [if_neg hready]
    have htaken : last.taken = last := if_neg hready
    obtain ⟨hidle, hout⟩ := hs.readInput_writeOutput
    rw [hpass, htaken, held_eq_nil (Bool.eq_false_iff.mpr hready)]
    exact ⟨rfl, hidle, hout⟩

end Stage

namespace StageComputing

/-- The computing stage between two steps, with at least one adder and one multiplier. -/
structure Idle (s : StageComputing) : Prop where
  stage : s.toStage.Idle
  add : s.add = 0
  multi : s.multi = 0
  addAbility : 1 ≤ s.addAbility
  multiAbility : 1 ≤ s.multiAbility

/-- Every operation takes at most one adder, and no multiplier. -/
theorem calItem_le (op : String) : ((calItem op).getD (1, 0)).1 ≤ 1 ∧
    ((calItem op).getD (1, 0)).2 ≤ 1 := by
  cases hitem : calItem op with
  | none => exact ⟨by decide, by decide⟩
  | some item =>
    have hmem : item ∈ calTable.map Prod.snd := by
      obtain ⟨entry, hentry, rfl⟩ := Option.map_eq_some_iff.mp hitem
      exact List.mem_map_of_mem (List.mem_of_find?_eq_some hentry)
    have hall : ∀ item ∈ calTable.map Prod.snd, item.1 ≤ 1 ∧ item.2 ≤ 1 := by decide
    exact hall item hmem

/-- **The computing stage** passes on what the stage before holds, in one step. -/
theorem step_spec {last : Stage} {s : StageComputing} (hlast : last.Filled) (hs : Idle s)
    (hheld : s.held = []) : (step last s).1 = last.taken ∧ Idle (step last s).2 ∧
      (step last s).2.held = last.held := by
  have hcounters : ¬(s.add ≠ 0 ∨ s.multi ≠ 0) := by
    rw [hs.add, hs.multi]
    simp
  unfold step
  rw [if_neg hcounters]
  by_cases hready : last.outputReady = true
  · obtain ⟨i, hi, hlastHeld⟩ := hlast.held_of_ready hready
    have hset : Stage.setInput last s.toStage = (last.getOutput,
        { s.toStage with input := some i, inputReady := true }) := by
      unfold Stage.setInput
      rw [if_pos hready, hi]
    have hread : ({ s.toStage with input := some i, inputReady := true } : Stage).readInput =
        ({ s.toStage with intermid := some i, inputReady := false, input := none }, true) := by
      unfold Stage.readInput
      rw [if_pos ⟨rfl, Option.some_ne_none i⟩]
    have htaken : last.taken = last.getOutput := if_pos hready
    rw [hset]
    dsimp only
    rw [hread]
    dsimp only
    rw [hlastHeld, htaken]
    have hidle : ({ s.toStage with
        intermid := some i, inputReady := false, input := none } : Stage).writeOutput.Idle :=
      ⟨rfl, rfl, fun _ => Option.some_ne_none i⟩
    split_ifs with hnop
    · exact ⟨rfl, ⟨hidle, hs.add, hs.multi, hs.addAbility, hs.multiAbility⟩, rfl⟩
    · -- The adders and multipliers are enough.
      obtain ⟨hadd, hmulti⟩ := calItem_le i.operation
      have henough : ((calItem i.operation).getD (1, 0)).1 ≤ s.addAbility ∧
          ((calItem i.operation).getD (1, 0)).2 ≤ s.multiAbility :=
        ⟨hadd.trans hs.addAbility, hmulti.trans hs.multiAbility⟩
      unfold compute
      dsimp only
      rw [if_pos henough]
      exact ⟨rfl, ⟨hidle, rfl, rfl, hs.addAbility, hs.multiAbility⟩, rfl⟩
  · have hset : Stage.setInput last s.toStage = (last, s.toStage) := by
      unfold Stage.setInput
      rw [if_neg hready]
    have hread : s.toStage.readInput = (s.toStage, false) := by
      unfold Stage.readInput
      rw [if_neg]
      rintro ⟨hinput, -⟩
      rw [hs.stage.input] at hinput
      cases hinput
    rw [hset]
    dsimp only
    rw [hread]
    dsimp only
    have htaken : last.taken = last := if_neg hready
    rw [htaken, Stage.held_eq_nil (Bool.eq_false_iff.mpr hready)]
    exact ⟨rfl, hs, hheld⟩

end StageComputing

/-! ### The flow of the instructions -/

namespace ALU

variable {a a' : ALU} {n : ℕ}

/-- What was added and did not leave: the oldest first. -/
def inside (a : ALU) : List CalcInstruction :=
  a.computing.held ++ a.loadData.held ++ a.decode.held ++ a.ins.map Prod.snd

/-- **The unit between the calls**, after `n` steps: what was added is what left and what is inside,
in this order, and everything in the queue is due. -/
structure Flows (n : ℕ) (a : ALU) : Prop where
  decode : a.decode.Idle
  loadData : a.loadData.Idle
  computing : a.computing.Idle
  writeback : a.writeback.Idle
  clock : a.cycle.toNat = n
  due : ∀ x ∈ a.ins, x.1 ≤ a.cycle
  order : a.written ++ a.inside = a.added

theorem flows_init {adderCount multiCount : Int} (hadder : 1 ≤ adderCount)
    (hmulti : 1 ≤ multiCount) : Flows 0 (init adderCount multiCount) where
  decode := Stage.idle_init
  loadData := Stage.idle_init
  computing := ⟨Stage.idle_init, rfl, rfl, hadder, hmulti⟩
  writeback := Stage.idle_init
  clock := rfl
  due := fun x hx => by cases hx
  order := rfl

theorem Flows.addIns (h : Flows n a) (i : CalcInstruction) : Flows n (a.addIns i) := by
  refine { h with due := fun x hx => ?_, order := ?_ }
  · rcases List.mem_append.mp hx with hx | hx
    · exact h.due x hx
    · cases List.mem_singleton.mp hx
      exact UInt64.le_refl _
  · show a.written ++ (_ ++ (a.ins ++ [(a.cycle, i)]).map Prod.snd) = a.added ++ [i]
    rw [← h.order, List.map_append, inside]
    simp only [List.append_assoc]
    rfl

/-- **The steps of the stages**: each takes what the one before holds, the last one puts out what it
takes, and the first one takes its input. -/
theorem stepStages_spec (hdecode : a.decode.Filled) (hload : a.loadData.Idle)
    (hcomputing : a.computing.Idle) (hwriteback : a.writeback.Idle) :
    a.stepStages.decode = a.decode.taken.decode ∧ a.stepStages.loadData.Idle ∧
      a.stepStages.computing.Idle ∧ a.stepStages.writeback.Idle ∧
      a.stepStages.loadData.held = a.decode.held ∧
      a.stepStages.computing.held = a.loadData.held ∧
      a.stepStages.written = a.written ++ a.computing.held := by
  obtain ⟨hcomputing₁, hwriteback', hout⟩ := Stage.pass_spec hcomputing.stage.output hwriteback
  have hidle : StageComputing.Idle { a.computing with toStage := a.computing.toStage.taken } :=
    ⟨hcomputing.stage.taken, hcomputing.add, hcomputing.multi, hcomputing.addAbility,
      hcomputing.multiAbility⟩
  obtain ⟨hload₁, hcomputing', hheld⟩ :=
    StageComputing.step_spec hload.output hidle (Stage.taken_held _)
  obtain ⟨hdecode₁, hload', hheld'⟩ := Stage.pass_spec hdecode hload.taken
  rw [← hcomputing₁] at hcomputing' hheld hload₁
  rw [← hload₁] at hload' hheld' hdecode₁
  refine ⟨?_, hload', hcomputing', hwriteback', hheld', hheld, ?_⟩
  · rw [← hdecode₁]
    rfl
  · rw [← hout]
    rfl

/-- What one step moves. -/
structure Moves (a a' : ALU) : Prop where
  ins : a'.ins = a.ins.tail
  decode : a'.decode.held = (a.ins.take 1).map Prod.snd
  loadData : a'.loadData.held = a.decode.held
  computing : a'.computing.held = a.loadData.held
  written : a'.written = a.written ++ a.computing.held
  added : a'.added = a.added

/-- **A step** does not loop for ever, unless the clock wraps around, and keeps the order. -/
theorem Flows.step (h : Flows n a) (hn : n + 1 < 2 ^ 64) :
    ∃ a', a.stepUnit = .ok a' ∧ Flows (n + 1) a' ∧ Moves a a' := by
  have hclock : (a.cycle + 1).toNat = n + 1 := by
    rw [UInt64.toNat_add, h.clock]
    exact Nat.mod_eq_of_lt hn
  have hlater : ∀ k : UInt64, k ≤ a.cycle → k ≤ a.cycle + 1 := by
    intro k hk
    rw [UInt64.le_iff_toNat_le] at hk ⊢
    have hcycle := h.clock
    omega
  unfold stepUnit feed
  have horder := h.order
  unfold inside at horder
  -- The stages move alike in both cases; they differ in what the first one has taken before.
  cases hins : a.ins with
  | nil =>
    obtain ⟨hdecode, hload, hcomputing, hwriteback, hload', hcomputing', hwritten⟩ :=
      stepStages_spec (a := { a with cycle := a.cycle + 1, ins := [] }) h.decode.output h.loadData
        h.computing h.writeback
    obtain ⟨hidle, hheld⟩ := h.decode.taken.readInput_writeOutput
    rw [← Stage.decode] at hidle hheld
    refine ⟨_, rfl, ⟨hdecode ▸ hidle, hload, hcomputing, hwriteback, hclock, fun x hx => ?_, ?_⟩,
      ⟨?_, ?_, hload', hcomputing', hwritten, rfl⟩⟩
    · cases hx
    · unfold inside
      rw [hdecode, hheld, hload', hcomputing', hwritten]
      show (a.written ++ a.computing.held) ++
        (a.loadData.held ++ a.decode.held ++ [] ++ [].map Prod.snd) = a.added
      rw [← horder, hins]
      simp only [List.append_assoc, List.nil_append, List.map_nil]
    · rw [hins]
      rfl
    · rw [hdecode, hheld, hins]
      rfl
  | cons x ins =>
    obtain ⟨key, i⟩ := x
    have hkey : key ≤ a.cycle + 1 := hlater key (h.due (key, i) (hins ▸ List.mem_cons_self))
    dsimp only
    -- Without the wrap the key is due, and the loop of the source ends here.
    rw [if_pos hkey, if_neg (by rw [h.decode.input]; exact Bool.false_ne_true)]
    obtain ⟨hdecode, hload, hcomputing, hwriteback, hload', hcomputing', hwritten⟩ :=
      stepStages_spec (a := { a with
        cycle := a.cycle + 1
        ins := ins
        decode := { a.decode with input := some i, inputReady := true } }) h.decode.output
        h.loadData h.computing h.writeback
    obtain ⟨hidle, hheld⟩ := Stage.readInput_writeOutput (i := i)
      (s := Stage.taken { a.decode with input := some i, inputReady := true })
      (Stage.taken_input _) (Stage.taken_inputReady _)
    rw [← Stage.decode] at hidle hheld
    refine ⟨_, rfl, ⟨hdecode ▸ hidle, hload, hcomputing, hwriteback, hclock, fun x hx => ?_, ?_⟩,
      ⟨?_, ?_, hload', hcomputing', hwritten, rfl⟩⟩
    · exact hlater x.1 (h.due x (hins ▸ List.mem_cons_of_mem _ hx))
    · unfold inside
      rw [hdecode, hheld, hload', hcomputing', hwritten]
      show (a.written ++ a.computing.held) ++
        (a.loadData.held ++ a.decode.held ++ [i] ++ ins.map Prod.snd) = a.added
      rw [← horder, hins, List.map_cons]
      simp only [List.append_assoc, List.cons_append, List.nil_append]
    · rw [hins]
      rfl
    · rw [hdecode, hheld, hins]
      rfl

/-- The number of steps after which everything inside has left. -/
def rank (a : ALU) : ℕ :=
  if a.ins ≠ [] then a.ins.length + 3
  else if a.decode.held ≠ [] then 3
  else if a.loadData.held ≠ [] then 2
  else if a.computing.held ≠ [] then 1
  else 0

theorem inside_of_rank (h : a.rank = 0) : a.inside = [] := by
  unfold rank at h
  split_ifs at h with hins hdecode hload hcomputing
  rw [not_not] at hins hdecode hload hcomputing
  unfold inside
  rw [hins, hdecode, hload, hcomputing]
  rfl

/-- **Every step** brings the instructions inside nearer to the end. -/
theorem Moves.rank_le (h : Moves a a') : a'.rank ≤ a.rank - 1 := by
  unfold rank
  rw [h.ins, h.decode, h.loadData, h.computing]
  cases hins : a.ins with
  | cons x ins =>
    cases ins with
    | cons y ins => simp
    | nil => simp
  | nil =>
    simp only [List.tail_nil, List.take_nil, List.map_nil, ne_eq, not_true, if_false]
    split_ifs <;> omega

/-- **Everything inside leaves**, in the order it was added. -/
theorem Flows.drains {k : ℕ} (h : Flows n a) (hk : a.rank ≤ k) (hn : n + k < 2 ^ 64) :
    ∃ a', exec ALU.step a (List.replicate k .step) = .ok a' ∧ a'.written = a.added := by
  induction k generalizing n a with
  | zero =>
    refine ⟨a, rfl, ?_⟩
    have horder := h.order
    rw [inside_of_rank (Nat.le_zero.mp hk), List.append_nil] at horder
    exact horder
  | succ k ih =>
    obtain ⟨a₁, hstep, hflows, hmoves⟩ := h.step (by omega)
    obtain ⟨a', hexec, hwritten⟩ :=
      ih hflows (hmoves.rank_le.trans (by omega)) (by omega)
    refine ⟨a', exec_cons_eq_ok.mpr ⟨a₁, hstep, hexec⟩, ?_⟩
    rw [hwritten, hmoves.added]

end ALU

/-- What the calls feed to the unit. -/
def ALUEvent.added : ALUEvent → List CalcInstruction
  | .addIns i => [i]
  | .step => []

def ALUEvent.isStep : ALUEvent → Bool
  | .addIns _ => false
  | .step => true

/-- A run keeps the flow. -/
theorem exec_flows (events : List ALUEvent) {a : ALU} {n : ℕ} (h : a.Flows n)
    (hn : n + (events.filter ALUEvent.isStep).length < 2 ^ 64) :
    ∃ a', exec ALU.step a events = .ok a' ∧
      a'.Flows (n + (events.filter ALUEvent.isStep).length) ∧
      a'.added = a.added ++ events.flatMap ALUEvent.added := by
  induction events generalizing a n with
  | nil => exact ⟨a, rfl, h, (List.append_nil _).symm⟩
  | cons e events ih =>
    cases e with
    | addIns i =>
      obtain ⟨a', hexec, hflows, hadded⟩ := ih (h.addIns i) hn
      refine ⟨a', hexec, hflows, ?_⟩
      rw [hadded]
      show a.added ++ [i] ++ _ = _
      rw [List.append_assoc]
      rfl
    | step =>
      have hlength : ((ALUEvent.step :: events).filter ALUEvent.isStep).length =
          (events.filter ALUEvent.isStep).length + 1 := rfl
      rw [hlength] at hn ⊢
      obtain ⟨a₁, hstep, hflows, hmoves⟩ := h.step (by omega)
      obtain ⟨a', hexec, hflows', hadded⟩ := ih hflows (by omega)
      refine ⟨a', exec_cons_eq_ok.mpr ⟨a₁, hstep, hexec⟩, ?_, ?_⟩
      · rw [Nat.add_right_comm] at hflows'
        exact hflows'
      · rw [hadded, hmoves.added]
        rfl

/-- **The unit conserves its instructions**: with at least one adder and one multiplier, no run in
which the clock does not wrap around loops for ever; what was added is what the write-back stage put
out and what is inside, in the order it was added, and everything inside leaves within `rank`
further steps. -/
theorem alu_in_order (adderCount multiCount : Int) (hadder : 1 ≤ adderCount)
    (hmulti : 1 ≤ multiCount) (events : List ALUEvent)
    (hclock : (events.filter ALUEvent.isStep).length < 2 ^ 64) :
    ∃ a, exec ALU.step (ALU.init adderCount multiCount) events = .ok a ∧
      a.written ++ a.inside = events.flatMap ALUEvent.added ∧
      ∀ k, a.rank ≤ k → (events.filter ALUEvent.isStep).length + k < 2 ^ 64 →
        ∃ a', exec ALU.step a (List.replicate k .step) = .ok a' ∧
          a'.written = events.flatMap ALUEvent.added := by
  have hinit := ALU.flows_init hadder hmulti
  obtain ⟨a, hexec, hflows, hadded⟩ := exec_flows events hinit (by omega)
  rw [Nat.zero_add] at hflows
  have hall : a.added = events.flatMap ALUEvent.added := hadded
  refine ⟨a, hexec, hall ▸ hflows.order, fun k hk hn => ?_⟩
  rw [← hall]
  exact hflows.drains hk hn

/-- Two instructions, one of them of an operation that is not in the table. -/
theorem alu_in_order_two :
    ∃ a, exec ALU.step (ALU.init 2 1)
        [.addIns { operation := "add" }, .addIns { type := .calculation, operation := "mul" },
          .step] = .ok a ∧ a.rank = 4 ∧
      ∃ a', exec ALU.step a (List.replicate 4 .step) = .ok a' ∧
        a'.written = [{ operation := "add" }, { type := .calculation, operation := "mul" }] := by
  have hrun : (exec ALU.step (ALU.init 2 1)
      [.addIns { operation := "add" }, .addIns { type := .calculation, operation := "mul" },
        .step]).toOption.map ALU.rank = some 4 := by decide
  obtain ⟨a, hexec, -, hdrains⟩ := alu_in_order 2 1 (by decide) (by decide)
    [.addIns { operation := "add" }, .addIns { type := .calculation, operation := "mul" }, .step]
    (by decide)
  rw [hexec] at hrun
  have hrank : a.rank = 4 := Option.some.inj hrun
  exact ⟨a, hexec, hrank, hdrains 4 hrank.le (by decide)⟩

/-- The feeding loop of an instruction that was added just before the clock wraps around does not
end. -/
theorem not_terminates_wrap : ¬∀ events, ∃ a, exec ALU.step (ALU.init 2 1) events = .ok a := by
  intro hall
  obtain ⟨n, hn⟩ : ∃ n : ℕ, n = 2 ^ 64 - 1 := ⟨_, rfl⟩
  obtain ⟨a', hexec⟩ := hall (List.replicate n .step ++ [.addIns {}, .step])
  obtain ⟨a, hsteps, hrest⟩ := exec_append_eq_ok.mp hexec
  have hlength : ((List.replicate n ALUEvent.step).filter ALUEvent.isStep).length = n := by
    rw [List.filter_replicate_of_pos rfl, List.length_replicate]
  have hinit : (ALU.init 2 1).Flows 0 := ALU.flows_init (by decide) (by decide)
  obtain ⟨a₁, hsteps', hflows, hadded⟩ :=
    exec_flows (List.replicate n .step) hinit (by rw [hlength]; omega)
  obtain rfl : a = a₁ := Except.ok.inj (hsteps.symm.trans hsteps')
  rw [hlength, Nat.zero_add] at hflows
  -- Nothing is inside, and the clock is about to wrap around.
  have hnone : a.added = [] := by
    rw [hadded, List.flatMap_replicate]
    show [] ++ (List.replicate n []).flatten = []
    rw [List.flatten_replicate_nil]
    rfl
  have hins : a.ins = [] := by
    have horder := hflows.order
    rw [hnone, List.append_eq_nil_iff, ALU.inside, List.append_eq_nil_iff] at horder
    exact List.map_eq_nil_iff.mp horder.2.2
  have hcycle : a.cycle = 18446744073709551615 := by
    apply UInt64.toNat_inj.mp
    rw [hflows.clock, hn]
    rfl
  obtain ⟨a₂, hadd, hrest⟩ := exec_cons_eq_ok.mp hrest
  cases hadd
  obtain ⟨a₃, hstep, -⟩ := exec_cons_eq_ok.mp hrest
  have hfault : (a.addIns {}).stepUnit = .error .nonTermination := by
    unfold ALU.stepUnit ALU.feed ALU.addIns
    rw [hins, hcycle]
    rfl
  cases hstep.symm.trans hfault

end PIMSim
