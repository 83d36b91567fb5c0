import PIMSim.TraceReader.FileReader
import PIMSim.Library.Text

/-!
# The text of a detailed trace

What the lines of a detailed trace say: an instruction with its operation and operands, the labels of
blocks, and the head and the fields of a function. A line is cut behind the semicolon of its comment
before it is parsed.

## Main definitions

* `InsText`, `FunctionText`, `BlockText`: an instruction, a function and a block, with all their data
* `TraceText.parseIns`: the instruction of a line; no instruction stands for a null reference
* `TraceText.topLine`, `TraceText.blockLine`, `TraceText.functionLine`: what the loops of the reader
  make of a line
* `TraceText.getReq`: the next input

## Main results

* `TraceText.getReq_forget`: without names, operations, operands and data the reader is the one of the
  simulation
-/

namespace PIMSim

open CSharp

/-- Whether all instructions of a list of operations are for the memory side, or the labelled ones. -/
inductive PIMInputType
  | specified
  | all
deriving DecidableEq

/-- How memory-side instructions are recognised: `PIM_Fliter` and `PIM_Ins_List`. -/
structure PIMLabels where
  fliter : PIMInputType := .specified
  insList : List Line := []

/-- Whether an operation is for the memory side. -/
def PIMLabels.pim (labels : PIMLabels) (operation : Line) : Bool :=
  match labels.fliter with
  | .all => decide (operation ∈ labels.insList)
  | .specified => operation.startsWith Line.pimLabel

/-- The text of an operation or an operand that is not given. -/
def InsText.null : Line := ['n', 'u', 'l', 'l']

/-- An instruction of a trace. -/
structure InsText where
  cycle : UInt64 := 0
  pid : Int := 0
  pim : Bool := false
  kind : InsKind := .calculation
  address : UInt64 := 0
  data : UInt64 := 0
  isMem : Bool := false
  operation : Line := InsText.null
  operand1 : Line := InsText.null
  operand2 : Line := InsText.null
  operand3 : Line := InsText.null

structure FunctionText where
  cycle : UInt64 := 0
  name : Line := []
  input : List UInt64 := []
  output : List UInt64 := []
  latency : UInt64 := 0

structure BlockText where
  cycle : UInt64 := 0
  name : Line := []
  ins : List (Option InsText) := []

/-- `add_ins`: the first instruction gives the block its cycle. -/
def BlockText.addIns (b : BlockText) (ins_ : Option InsText) : Outcome BlockText :=
  match b.ins, ins_ with
  | [], none => .error .nullReference
  | [], some i => .ok { b with cycle := i.cycle, ins := [some i] }
  | _, _ => .ok { b with ins := b.ins ++ [ins_] }

/-- What the reader makes of a trace. -/
inductive TextInput
  | eof
  | instruction (i : InsText)
  | function (f : FunctionText)
  | block (b : BlockText)

/-- The constructor of an instruction from its text. There are three operands to set. -/
def InsText.ofText (ins : Line) : Outcome InsText :=
  if ' ' ∈ ins then
    let operation := remove [' '] (trim (ins.take (ins.idxOf ' ' + 1)))
    let inst := trim (ins.drop (ins.idxOf ' '))
    match inst.splitOn ',' with
    | [operand1] => .ok { operation, operand1 }
    | [operand1, operand2] => .ok { operation, operand1, operand2 }
    | [operand1, operand2, operand3] => .ok { operation, operand1, operand2, operand3 }
    | _ => .error .nullReference
  else .error .argumentOutOfRange

namespace TraceText

/-- One of the words that tell data and address. -/
def readWord (ins : InsText) (p : Line) : Outcome InsText := do
  if p.contains ['A', '='] then
    let address ← parseHexUInt64 (remove ['A', '=', '0', 'x'] p)
    return { ins with address, isMem := true }
  else if p.contains ['D', '='] then
    let data ← parseHexUInt64 (remove ['D', '=', '0', 'x'] p)
    return { ins with data, isMem := true }
  else
    .error (.exit 2 "Error in parsing trace line.")

/-- The address and the data, on the parts of a line behind the first two. -/
def readAccess (ins : InsText) : List Line → Outcome InsText
  | splitIns2 :: splitIns3 :: _ =>
    let kind := if splitIns2 = ['R'] then InsKind.read else .write
    (splitIns3.splitOn ' ').foldlM readWord { ins with kind, isMem := false }
  | _ => return { ins with kind := .calculation }

/-- The body of `parse_ins`, on the parts of a line. -/
def parseParts (labels : PIMLabels) (pid : Int) : List Line → Outcome InsText
  | splitIns0 :: splitIns1 :: rest => do
    let ins ← InsText.ofText splitIns1
    let cycle ← parseUInt64 splitIns0
    readAccess { ins with cycle, pid, pim := labels.pim ins.operation } rest
  | _ => .error .indexOutOfRange

/-- A caught exception leaves a null reference; the end of the program is not caught. -/
def orNull {α : Type} : Outcome α → Outcome (Option α)
  | .ok a => .ok (some a)
  | .error (.exit code message) => .error (.exit code message)
  | .error _ => .ok none

/-- `parse_ins`. -/
def parseIns (labels : PIMLabels) (pid : Int) (line : Line) : Outcome (Option InsText) :=
  orNull (parseParts labels pid (line.splitOn '|'))

/-- The head of a function. -/
def functionHead (line : Line) : Outcome FunctionText := do
  if '|' ∉ line then
    .error .argumentOutOfRange
  let cycle ← parseUInt64 (line.take (line.idxOf '|'))
  let name ← arrayAt (line.splitOn '_') 1
  return { cycle, name }

/-- A field of a function. -/
def functionField (f : FunctionText) (line : Line) : Outcome FunctionText := do
  let tp := line.splitOn '='
  let tp0 ← arrayAt tp 0
  if tp0 = ['i', 'n', 'p', 'u', 't'] then
    let x ← parseHexUInt64 (remove ['0', 'x'] (← arrayAt tp 1))
    return { f with input := f.input ++ [x] }
  else if tp0 = ['o', 'u', 't', 'p', 'u', 't'] then
    let x ← parseHexUInt64 (remove ['0', 'x'] (← arrayAt tp 1))
    return { f with output := f.output ++ [x] }
  else if tp0 = ['l', 'a', 't', 'e', 'n', 'c', 'y'] then
    let latency ← parseUInt64 (remove ['0', 'x'] (← arrayAt tp 1))
    return { f with latency }
  else
    .error (.exit 1)

/-! ### Lines -/

/-- What a request makes of a line: nothing, an instruction, the start of a block or the head of a
function. -/
inductive TopLine
  | comment
  | ins (r : Outcome (Option InsText))
  | block (name : Line)
  | function (r : Outcome FunctionText)

/-- What the loop of a block makes of a line. -/
inductive BlockLine
  | comment
  | finish
  | member (r : Outcome (Option InsText))

/-- What the loop of a function makes of a line. -/
inductive FunctionLine
  | comment
  | finish
  | field (r : Outcome FunctionText)

def topLine (labels : PIMLabels) (pid : Int) (line : Line) : TopLine :=
  if line.comment then .comment
  else
    let line := line.cut
    if !line.contains Line.pimLabel && !line.contains Line.startLabel &&
        !line.contains Line.endLabel then .ins (parseIns labels pid line)
    else if line.contains Line.pimLabel && line.contains ('_' :: Line.startLabel) then
      .block (remove ('_' :: Line.startLabel) (remove Line.pimLabel line))
    else if line.contains Line.functionLabel && line.contains ('_' :: Line.startLabel) then
      .function (functionHead line)
    else .ins (parseIns labels pid line)

/-- The end of a block is looked for in the whole line. -/
def blockLine (labels : PIMLabels) (pid : Int) (line : Line) : BlockLine :=
  if line.comment then .comment
  else if line.contains Line.pimLabel && line.contains Line.endLabel then .finish
  else .member (parseIns labels pid line.cut)

def functionLine (f : FunctionText) (line : Line) : FunctionLine :=
  let line := line.squeeze
  if line.comment then .comment
  else if line.contains Line.functionLabel && line.contains ('_' :: Line.endLabel) then .finish
  else .field (functionField f line.cut)

/-! ### Requests -/

/-- The loop inside a block, which holds `size` instructions. -/
def readBlock (labels : PIMLabels) (maxBlock pid : Int) : BlockText → ℕ → List Line →
    Outcome (Option TextInput × List Line)
  | _, _, [] => .ok (some .eof, [])
  | b, size, line :: rest =>
    match blockLine labels pid line with
    | .comment => readBlock labels maxBlock pid b size rest
    | .finish => .ok (some (.block b), rest)
    | .member r => do
      let b ← b.addIns (← r)
      if maxBlock < size + 1 then
        .error (.exit 1)
      readBlock labels maxBlock pid b (size + 1) rest

/-- The loop inside a function. It looks for blanks in the line behind the last one. -/
def readFunction : FunctionText → List Line → Outcome (Option TextInput × List Line)
  | _, [] => .error .nullReference
  | f, line :: rest =>
    match functionLine f line with
    | .comment => readFunction f rest
    | .finish => .ok (some (.function f), rest)
    | .field r => do
      let f ← r
      readFunction f rest

/-- `get_req`: the next input and the lines behind it. No input stands for a null reference. -/
def getReq (labels : PIMLabels) (maxBlock pid : Int) : List Line →
    Outcome (Option TextInput × List Line)
  | [] => .ok (some .eof, [])
  | line :: rest =>
    match topLine labels pid line with
    | .comment => getReq labels maxBlock pid rest
    | .ins r => do
      let ins ← r
      return (ins.map .instruction, rest)
    | .block name => readBlock labels maxBlock pid { name } 0 rest
    | .function r => do
      let f ← r
      readFunction f rest

end TraceText

/-! ### What is parsed -/

/-- **An instruction has an operation and up to three operands**: a blank behind the operation, and at
most two commas behind it. -/
theorem InsText.ofText_returns {ins : Line} :
    (∃ i, InsText.ofText ins = .ok i) ↔ ' ' ∈ ins ∧ (ins.drop (ins.idxOf ' ')).count ',' ≤ 2 := by
  have hlen := length_splitOn ',' (trim (ins.drop (ins.idxOf ' ')))
  rw [count_trim (by decide)] at hlen
  unfold InsText.ofText
  by_cases hblank : ' ' ∈ ins
  · rw [if_pos hblank, and_iff_right hblank]
    dsimp only
    match hsplit : (trim (ins.drop (ins.idxOf ' '))).splitOn ',' with
    | [] => exact absurd hsplit (List.splitOn_ne_nil _ _)
    | [_] | [_, _] | [_, _, _] =>
      rw [hsplit] at hlen
      refine iff_of_true ⟨_, rfl⟩ ?_
      simp only [List.length_cons, List.length_nil] at hlen
      omega
    | _ :: _ :: _ :: _ :: _ =>
      rw [hsplit] at hlen
      refine iff_of_false (fun ⟨_, h⟩ => nomatch h) ?_
      simp only [List.length_cons] at hlen
      omega
  · rw [if_neg hblank]
    exact iff_of_false (fun ⟨_, h⟩ => nomatch h) fun h => hblank h.1

theorem InsText.ofText_error {ins : Line} {e : Fault} (h : InsText.ofText ins = .error e) :
    e = .argumentOutOfRange ∨ e = .nullReference := by
  unfold InsText.ofText at h
  dsimp only at h
  split_ifs at h
  · split at h <;> cases h
    exact .inr rfl
  · cases h
    exact .inl rfl

namespace TraceText

theorem orNull_eq_some {α : Type} {x : Outcome α} {a : α} : orNull x = .ok (some a) ↔ x = .ok a := by
  cases x with
  | ok b => simp [orNull]
  | error e => cases e <;> simp [orNull]

/-- A line whose operation or cycle cannot be read is a null reference. -/
theorem parseParts_fails {labels : PIMLabels} {pid : Int} {a b : Line} (rest : List Line)
    (h : (∀ i, InsText.ofText b ≠ .ok i) ∨ ∀ c, parseUInt64 a ≠ .ok c) :
    orNull (parseParts labels pid (a :: b :: rest)) = .ok none := by
  rw [parseParts]
  cases hb : InsText.ofText b with
  | error e => rcases InsText.ofText_error hb with rfl | rfl <;> rfl
  | ok ins =>
    cases ha : parseUInt64 a with
    | error e => rcases parseUInt64_error ha with rfl | rfl <;> rfl
    | ok cycle =>
      rcases h with h | h
      · exact absurd hb (h ins)
      · exact absurd ha (h cycle)

end TraceText

/-! ### The reader of the simulation -/

/-- What the simulation keeps of an instruction. -/
def InsText.forget (i : InsText) : TraceIns where
  ins := {
    cycle := i.cycle, type := i.kind.type, address := i.address, pid := i.pid, isMem := i.isMem }
  pim := i.pim

def FunctionText.forget (f : FunctionText) : FunctionInput :=
  { cycle := f.cycle, input := f.input, output := f.output, latency := f.latency }

def BlockText.forget (b : BlockText) : InstructionBlock :=
  { cycle := b.cycle, ins := b.ins.map fun i => i.map InsText.forget }

def TextInput.forget : TextInput → TraceInput
  | .eof => eofInput
  | .instruction i => .instruction i.forget
  | .function f => .function f.forget
  | .block b => .block b.forget

namespace TraceText

/-- The meaning of the lines, as the simulation takes it. -/
def format (labels : PIMLabels) : LineFormat where
  insLine line := do
    let ins ← parseIns labels 0 line
    return ins.map fun i =>
      { cycle := i.cycle, kind := i.kind, address := i.address, isMem := i.isMem, pim := i.pim }
  functionHead line := do
    let f ← functionHead line
    return f.forget
  functionField f line := do
    let f ← functionField
      { cycle := f.cycle, input := f.input, output := f.output, latency := f.latency } line
    return f.forget

variable {labels : PIMLabels} {maxBlock pid : Int}

theorem readWord_pid (i : InsText) (p : Line) :
    readWord { i with pid } p = (readWord i p).map fun i => { i with pid } := by
  unfold readWord
  split_ifs
  · cases parseHexUInt64 (remove ['A', '=', '0', 'x'] p) <;> rfl
  · cases parseHexUInt64 (remove ['D', '=', '0', 'x'] p) <;> rfl
  · rfl

theorem foldlM_readWord_pid (i : InsText) (words : List Line) :
    words.foldlM readWord { i with pid } = (words.foldlM readWord i).map fun i => { i with pid } := by
  induction words generalizing i with
  | nil => rfl
  | cons p words ih =>
    rw [List.foldlM_cons, List.foldlM_cons, readWord_pid]
    cases readWord i p with
    | error e => rfl
    | ok i' => exact ih i'

theorem readAccess_pid (i : InsText) (rest : List Line) :
    readAccess { i with pid } rest = (readAccess i rest).map fun i => { i with pid } := by
  unfold readAccess
  split
  · rw [← foldlM_readWord_pid]
  · rfl

/-- The processor is only written into the instruction. -/
theorem parseParts_pid (parts : List Line) :
    parseParts labels pid parts = (parseParts labels 0 parts).map fun i => { i with pid } := by
  unfold parseParts
  split
  · next splitIns0 splitIns1 rest =>
    cases InsText.ofText splitIns1 with
    | error e => rfl
    | ok ins =>
      cases parseUInt64 splitIns0 with
      | error e => rfl
      | ok cycle =>
        simp only [Outcome.ok_bind]
        rw [← readAccess_pid]
  · rfl

theorem parseIns_forget (line : Line) :
    DetailedTxtReader.parseIns (format labels) line pid =
      (parseIns labels pid line).map fun i => i.map InsText.forget := by
  unfold parseIns
  rw [parseParts_pid]
  unfold DetailedTxtReader.parseIns format parseIns
  dsimp only
  cases parseParts labels 0 (line.splitOn '|') with
  | ok i => rfl
  | error e => cases e <;> rfl

theorem functionField_forget (f : FunctionText) (line : Line) :
    (format labels).functionField f.forget line = (functionField f line).map FunctionText.forget := by
  have hname : ∀ (g : FunctionText) (name : Line),
      functionField { g with name } line = (functionField g line).map fun g => { g with name } := by
    intro g name
    unfold functionField
    dsimp only
    cases arrayAt (line.splitOn '=') 0 with
    | error e => rfl
    | ok tp0 =>
      simp only [Outcome.ok_bind]
      cases arrayAt (line.splitOn '=') 1 with
      | error e => split_ifs <;> rfl
      | ok tp1 =>
        simp only [Outcome.ok_bind]
        split_ifs
        · cases parseHexUInt64 (remove ['0', 'x'] tp1) <;> rfl
        · cases parseHexUInt64 (remove ['0', 'x'] tp1) <;> rfl
        · cases parseUInt64 (remove ['0', 'x'] tp1) <;> rfl
        · rfl
  have h := hname f []
  unfold format
  dsimp only [FunctionText.forget] at h ⊢
  rw [h]
  cases functionField f line <;> rfl

theorem addIns_forget (b : BlockText) (ins_ : Option InsText) :
    b.forget.addIns (ins_.map InsText.forget) = (b.addIns ins_).map BlockText.forget := by
  unfold InstructionBlock.addIns BlockText.addIns BlockText.forget
  cases b.ins with
  | nil => cases ins_ <;> rfl
  | cons i ins => cases ins_ <;> simp [Except.map]

/-- The input of a request as the simulation takes it, and the lines that are left. -/
def forgetRead (read : Option TextInput × List Line) : Option TraceInput × List Line :=
  (read.1.map TextInput.forget, read.2)

theorem readBlock_forget (b : BlockText) (size : ℕ) (lines : List Line) :
    DetailedTxtReader.readBlock (format labels) maxBlock pid b.forget size lines =
      (readBlock labels maxBlock pid b size lines).map forgetRead := by
  induction lines generalizing b size with
  | nil => rfl
  | cons line rest ih =>
    unfold DetailedTxtReader.readBlock readBlock blockLine
    by_cases hcomment : line.comment = true
    · rw [if_pos hcomment, if_pos hcomment]
      exact ih b size
    rw [if_neg hcomment, if_neg hcomment]
    by_cases hend : (line.contains Line.pimLabel && line.contains Line.endLabel) = true
    · rw [if_pos hend, if_pos hend]
      rfl
    rw [if_neg hend, if_neg hend, parseIns_forget]
    dsimp only
    cases parseIns labels pid line.cut with
    | error e => rfl
    | ok ins =>
      simp only [Except.map, Outcome.ok_bind]
      rw [addIns_forget]
      cases b.addIns ins with
      | error e => rfl
      | ok b' =>
        simp only [Except.map, Outcome.ok_bind]
        split_ifs
        · rfl
        · exact ih b' (size + 1)

theorem readFunction_forget (f : FunctionText) (lines : List Line) :
    DetailedTxtReader.readFunction (format labels) f.forget lines =
      (readFunction f lines).map forgetRead := by
  induction lines generalizing f with
  | nil => rfl
  | cons line rest ih =>
    unfold DetailedTxtReader.readFunction readFunction functionLine
    dsimp only
    split_ifs
    · exact ih f
    · rfl
    · rw [functionField_forget]
      dsimp only
      cases functionField f line.squeeze.cut with
      | error e => rfl
      | ok f' => exact ih f'

/-- **The reader of the simulation** is this one, without the data the simulation does not use. -/
theorem getReq_forget (lines : List Line) :
    DetailedTxtReader.getReq (format labels) maxBlock pid lines =
      (getReq labels maxBlock pid lines).map forgetRead := by
  have hins : ∀ (line : Line) (rest : List Line),
      (do
        let ins ← DetailedTxtReader.parseIns (format labels) line pid
        return (ins.map TraceInput.instruction, rest) : Outcome _) =
      (do
        let ins ← parseIns labels pid line
        return (ins.map TextInput.instruction, rest) : Outcome _).map forgetRead := by
    intro line rest
    rw [parseIns_forget]
    cases parseIns labels pid line with
    | error e => rfl
    | ok ins => cases ins <;> rfl
  induction lines with
  | nil => rfl
  | cons line rest ih =>
    unfold DetailedTxtReader.getReq getReq topLine
    dsimp only
    split_ifs
    · exact ih
    · exact hins line.cut rest
    · exact readBlock_forget { name := _ } 0 rest
    · dsimp only [format]
      cases functionHead line.cut with
      | error e => rfl
      | ok f => exact readFunction_forget f rest
    · exact hins line.cut rest

end TraceText

end PIMSim
