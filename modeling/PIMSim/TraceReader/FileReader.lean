import PIMSim.General

/-!
# Trace readers

A reader makes the next input of a processor out of the lines that are left of its trace. What the
text of an instruction or a function means is a parameter; the readers skip comments, collect
blocks and functions, and answer the end of a trace with an instruction of its own.

## Main definitions

* `TraceInput`: what a reader makes of a trace
* `LineFormat`: the meaning of the lines of a detailed trace
* `PCTrace.ofLine`: the line of a PC trace
* `DetailedTxtReader.getReq`, `PCTxtReader.getReq`: the two readers
* `TraceFetcher`: the traces of all processors
* `Reads`: a number of inputs read one after the other

## Main results

* `DetailedTxtReader.sound`, `PCTxtReader.sound`: an input is of the processor it was read for, or
  it is the end of an empty trace
* `Reads.ended`: behind the end of a trace nothing is left
-/

namespace PIMSim

open CSharp

/-- An instruction of a trace, with the flag that it is for the memory side. -/
structure TraceIns where
  ins : Instruction
  pim : Bool := false
deriving DecidableEq

/-- A function of a trace. -/
structure FunctionInput where
  cycle : UInt64 := 0
  input : List UInt64 := []
  output : List UInt64 := []
  latency : UInt64 := 0
deriving DecidableEq

/-- A block of instructions. A failed parse leaves a null reference. -/
structure InstructionBlock where
  cycle : UInt64 := 0
  ins : List (Option TraceIns) := []
deriving DecidableEq

/-- `add_ins`: the first instruction gives the block its cycle. -/
def InstructionBlock.addIns (b : InstructionBlock) (ins_ : Option TraceIns) :
    Outcome InstructionBlock :=
  match b.ins, ins_ with
  | [], none => .error .nullReference
  | [], some t => .ok { cycle := t.ins.cycle, ins := [some t] }
  | _, _ => .ok { b with ins := b.ins ++ [ins_] }

/-- What a reader makes of a trace. -/
inductive TraceInput
  | instruction (t : TraceIns)
  | pcTrace (t : PCTrace)
  | function (f : FunctionInput)
  | block (b : InstructionBlock)
deriving DecidableEq

/-- The cycle an input carries. That of a line of a PC trace is never set. -/
def TraceInput.cycle : TraceInput → UInt64
  | .instruction t => t.ins.cycle
  | .pcTrace _ => 0
  | .function f => f.cycle
  | .block b => b.cycle

/-- The instruction that stands for the end of a trace. Its processor is the default one. -/
def eofInput : TraceInput := .instruction { ins := { type := .eof } }

abbrev Line := List Char

namespace Line

def startsWith (line p : Line) : Bool := p.isPrefixOf line

def contains (line p : Line) : Bool := decide (p <:+: line)

/-- A comment line. -/
def comment (line : Line) : Bool := line.startsWith ['#'] || line.startsWith [';']

/-- The line up to its first semicolon, which stays. -/
def cut (line : Line) : Line :=
  if line.contains [';'] then line.take (line.idxOf ';' + 1) else line

/-- The line without tabs and blanks. -/
def squeeze (line : Line) : Line := line.filter fun c => c ≠ Char.ofNat 9 && c ≠ ' '

def pimLabel : Line := ['P', 'I', 'M', '_']

def startLabel : Line := ['S', 'T', 'A', 'R', 'T']

def endLabel : Line := ['E', 'N', 'D']

def functionLabel : Line := ['F', 'U', 'N', 'C', 'T', 'I', 'O', 'N', '_']

end Line

/-- The types of a parsed line. -/
inductive InsKind
  | read
  | write
  | calculation

def InsKind.type : InsKind → InstructionType
  | .read => .read
  | .write => .write
  | .calculation => .calculation

/-- What the text of an instruction says. -/
structure InsLine where
  cycle : UInt64
  kind : InsKind
  address : UInt64 := 0
  isMem : Bool := false
  pim : Bool := false

/-- The meaning of the lines of a detailed trace: of an instruction, which may fail to parse, and of
the head and the fields of a function. -/
structure LineFormat where
  insLine : Line → Outcome (Option InsLine)
  functionHead : Line → Outcome FunctionInput
  functionField : FunctionInput → Line → Outcome FunctionInput

/-- `get_req`: the next input and the lines behind it. No input stands for a null reference. -/
abbrev Reader := Int → List Line → Outcome (Option TraceInput × List Line)

namespace DetailedTxtReader

/-- `parse_ins` -/
def parseIns (fmt : LineFormat) (line : Line) (pid : Int) : Outcome (Option TraceIns) := do
  let l ← fmt.insLine line
  return l.map fun l => {
    ins := {
      cycle := l.cycle, type := l.kind.type, address := l.address, pid := pid, isMem := l.isMem }
    pim := l.pim }

/-- The loop inside a block, which holds `size` instructions. -/
def readBlock (fmt : LineFormat) (maxBlock pid : Int) : InstructionBlock → ℕ → List Line →
    Outcome (Option TraceInput × List Line)
  | _, _, [] => .ok (some eofInput, [])
  | b, size, line :: rest =>
    if line.comment then readBlock fmt maxBlock pid b size rest
    else if line.contains Line.pimLabel && line.contains Line.endLabel then
      .ok (some (.block b), rest)
    else do
      let ins ← parseIns fmt line.cut pid
      let b ← b.addIns ins
      if maxBlock < size + 1 then
        .error (.exit 1)
      readBlock fmt maxBlock pid b (size + 1) rest

/-- The loop inside a function. It looks for blanks in the line behind the last one. -/
def readFunction (fmt : LineFormat) : FunctionInput → List Line →
    Outcome (Option TraceInput × List Line)
  | _, [] => .error .nullReference
  | f, line :: rest =>
    if line.squeeze.comment then readFunction fmt f rest
    else if line.squeeze.contains Line.functionLabel &&
        line.squeeze.contains ('_' :: Line.endLabel) then
      .ok (some (.function f), rest)
    else do
      let f ← fmt.functionField f line.squeeze.cut
      readFunction fmt f rest

def getReq (fmt : LineFormat) (maxBlock : Int) (pid : Int) : List Line →
    Outcome (Option TraceInput × List Line)
  | [] => .ok (some eofInput, [])
  | line :: rest =>
    if line.comment then getReq fmt maxBlock pid rest
    else
      let line := line.cut
      if !line.contains Line.pimLabel && !line.contains Line.startLabel &&
          !line.contains Line.endLabel then do
        let ins ← parseIns fmt line pid
        return (ins.map .instruction, rest)
      else if line.contains Line.pimLabel && line.contains ('_' :: Line.startLabel) then
        readBlock fmt maxBlock pid {} 0 rest
      else if line.contains Line.functionLabel && line.contains ('_' :: Line.startLabel) then do
        let f ← fmt.functionHead line
        readFunction fmt f rest
      -- a label alone, or in another spelling, makes the line no start of a block
      else do
        let ins ← parseIns fmt line pid
        return (ins.map .instruction, rest)

end DetailedTxtReader

/-- The value of a base-sixteen digit. -/
def hexDigit (c : Char) : Option ℕ :=
  if '0' ≤ c ∧ c ≤ '9' then some (c.toNat - '0'.toNat)
  else if 'a' ≤ c ∧ c ≤ 'f' then some (c.toNat - 'a'.toNat + 10)
  else if 'A' ≤ c ∧ c ≤ 'F' then some (c.toNat - 'A'.toNat + 10)
  else none

/-- The digits in front, their value, and the text behind them. -/
def grabHex : ℕ → Line → ℕ × Line
  | v, [] => (v, [])
  | v, c :: cs =>
    match hexDigit c with
    | some d => grabHex (v * 16 + d) cs
    | none => (v, c :: cs)

/-- `Convert.ToUInt64(s, 16)` -/
def hexToUInt64 (s : Line) : Outcome UInt64 :=
  match s with
  | [] => .error .argumentOutOfRange
  | '-' :: _ => .error .argument
  | c :: cs =>
    let s := if c = '+' then cs else c :: cs
    let s := if s.take 2 = ['0', 'x'] ∨ s.take 2 = ['0', 'X'] then s.drop 2 else s
    let (v, rest) := grabHex 0 s
    if rest.length = s.length then .error .format
    else if 2 ^ 64 ≤ v then .error .overflow
    else if rest ≠ [] then .error .format
    else .ok (UInt64.ofNat v)

/-- The constructor of `PCTrace`. -/
def PCTrace.ofLine (line : Line) (id : Int) : Outcome PCTrace := do
  let split := line.splitOn ' '
  let pc ← arrayAt split 0
  let pc ← hexToUInt64 pc
  let combination ← arrayAt split 1
  let combination ← hexToUInt64 combination
  return { pc, combination, id }

/-- The reader of a PC trace. -/
def PCTxtReader.getReq (pid : Int) : List Line → Outcome (Option TraceInput × List Line)
  | [] => .ok (some eofInput, [])
  | line :: rest =>
    if line.comment then PCTxtReader.getReq pid rest
    else do
      let t ← PCTrace.ofLine line.cut pid
      return (some (.pcTrace t), rest)

/-- The reader that the constructor of `TraceFetcher` makes. -/
def reader (cfg : Config) (fmt : LineFormat) : Reader :=
  match cfg.traceType with
  | .detailed => DetailedTxtReader.getReq fmt cfg.maxPimBlock
  | .pc => PCTxtReader.getReq

/-- The lines that are left of the traces. -/
structure TraceFetcher where
  sr : List (List Line)
deriving DecidableEq

namespace TraceFetcher

/-- `get_req`, and the packet around its answer, which cannot hold a null reference. -/
def recvFunctionalReq (reader : Reader) (f : TraceFetcher) (pid : Int) :
    Outcome (TraceInput × TraceFetcher) := do
  let lines ← listAt f.sr pid
  let (input, rest) ← reader pid lines
  match input with
  | none => .error .argument
  | some input => return (input, { sr := f.sr.set pid.toNat rest })

end TraceFetcher

/-! ### What the readers make of a trace -/

/-- The input is one of the processor. -/
def TraceInput.Of (pid : Int) : TraceInput → Prop
  | .instruction t => t.ins.type ≠ .eof ∧ t.ins.pid = pid
  | .pcTrace t => t.id = pid
  | .function _ => True
  | .block _ => True

/-- **A sound reader** makes inputs of its processor, and answers the end once no line is left. -/
def Reader.Sound (read : Reader) : Prop :=
  ∀ pid lines input rest, read pid lines = .ok (some input, rest) →
    input.Of pid ∨ input = eofInput ∧ rest = []

theorem TraceInput.Of.ne_eof {pid : Int} {input : TraceInput} (h : input.Of pid) :
    input ≠ eofInput := by
  rintro rfl
  exact h.1 rfl

namespace DetailedTxtReader

variable {fmt : LineFormat} {maxBlock pid : Int} {lines rest : List Line} {input : TraceInput}

theorem readBlock_spec {b : InstructionBlock} {size : ℕ}
    (h : readBlock fmt maxBlock pid b size lines = .ok (some input, rest)) :
    input.Of pid ∨ input = eofInput ∧ rest = [] := by
  induction lines generalizing b size with
  | nil =>
    cases h
    exact .inr ⟨rfl, rfl⟩
  | cons line lines ih =>
    unfold readBlock at h
    by_cases hcomment : line.comment = true
    · rw [if_pos hcomment] at h
      exact ih h
    rw [if_neg hcomment] at h
    by_cases hend : (line.contains Line.pimLabel && line.contains Line.endLabel) = true
    · rw [if_pos hend] at h
      cases h
      exact .inl trivial
    rw [if_neg hend] at h
    obtain ⟨ins, -, h⟩ := Outcome.bind_eq_ok.mp h
    obtain ⟨b', -, h⟩ := Outcome.bind_eq_ok.mp h
    by_cases hsize : maxBlock < (size : Int) + 1
    · rw [if_pos hsize] at h
      cases h
    rw [if_neg hsize] at h
    exact ih h

theorem readFunction_spec {f : FunctionInput}
    (h : readFunction fmt f lines = .ok (some input, rest)) : input.Of pid := by
  induction lines generalizing f with
  | nil => cases h
  | cons line lines ih =>
    unfold readFunction at h
    split_ifs at h
    · exact ih h
    · cases h
      trivial
    · obtain ⟨f', -, h⟩ := Outcome.bind_eq_ok.mp h
      exact ih h

theorem instruction_of {line : Line}
    (h : (do let ins ← parseIns fmt line pid; return (ins.map .instruction, lines) :
      Outcome (Option TraceInput × List Line)) = .ok (some input, rest)) : input.Of pid := by
  obtain ⟨ins, hins, heq⟩ := Outcome.bind_eq_ok.mp h
  obtain ⟨l, -, hl⟩ := Outcome.bind_eq_ok.mp hins
  obtain ⟨t, rfl, rfl⟩ := Option.map_eq_some_iff.mp (Prod.mk.inj (Except.ok.inj heq)).1
  obtain ⟨l, -, rfl⟩ := Option.map_eq_some_iff.mp (Except.ok.inj hl)
  refine ⟨?_, rfl⟩
  cases l.kind <;> simp [InsKind.type]

theorem sound (fmt : LineFormat) (maxBlock : Int) : Reader.Sound (getReq fmt maxBlock) := by
  intro pid lines input rest h
  induction lines with
  | nil =>
    cases h
    exact .inr ⟨rfl, rfl⟩
  | cons line lines ih =>
    unfold getReq at h
    by_cases hcomment : line.comment = true
    · rw [if_pos hcomment] at h
      exact ih h
    rw [if_neg hcomment] at h
    dsimp only at h
    split_ifs at h
    · exact .inl (instruction_of h)
    · exact readBlock_spec h
    · obtain ⟨f, -, h⟩ := Outcome.bind_eq_ok.mp h
      exact .inl (readFunction_spec h)
    · exact .inl (instruction_of h)

end DetailedTxtReader

theorem PCTrace.ofLine_id {line : Line} {pid : Int} {t : PCTrace}
    (h : PCTrace.ofLine line pid = .ok t) : t.id = pid := by
  obtain ⟨_, -, h⟩ := Outcome.bind_eq_ok.mp h
  obtain ⟨_, -, h⟩ := Outcome.bind_eq_ok.mp h
  obtain ⟨_, -, h⟩ := Outcome.bind_eq_ok.mp h
  obtain ⟨_, -, h⟩ := Outcome.bind_eq_ok.mp h
  cases h
  rfl

theorem PCTxtReader.sound : Reader.Sound PCTxtReader.getReq := by
  intro pid lines input rest h
  induction lines with
  | nil =>
    cases h
    exact .inr ⟨rfl, rfl⟩
  | cons line lines ih =>
    unfold PCTxtReader.getReq at h
    split_ifs at h
    · exact ih h
    · obtain ⟨t, ht, heq⟩ := Outcome.bind_eq_ok.mp h
      cases heq
      exact .inl (PCTrace.ofLine_id ht)

/-- The end of a trace is answered again and again. -/
theorem reader_nil (cfg : Config) (fmt : LineFormat) (pid : Int) :
    reader cfg fmt pid [] = .ok (some eofInput, []) := by
  unfold reader
  cases cfg.traceType <;> rfl

theorem sound_reader (cfg : Config) (fmt : LineFormat) : (reader cfg fmt).Sound := by
  unfold reader
  cases cfg.traceType with
  | detailed => exact DetailedTxtReader.sound fmt cfg.maxPimBlock
  | pc => exact PCTxtReader.sound

/-- The inputs that are read one after the other, from the lines of a trace to those that are
left. -/
inductive Reads (read : Reader) (pid : Int) (lines : List Line) :
    List TraceInput → List Line → Prop
  | nil : Reads read pid lines [] lines
  | snoc {inputs : List TraceInput} {mid rest : List Line} {input : TraceInput}
      (h : Reads read pid lines inputs mid) (hread : read pid mid = .ok (some input, rest)) :
      Reads read pid lines (inputs ++ [input]) rest

/-- Behind the end of a trace nothing is left. -/
theorem Reads.ended {read : Reader} {pid : Int} {lines rest : List Line} {inputs : List TraceInput}
    (hsound : read.Sound) (hnil : read pid [] = .ok (some eofInput, []))
    (h : Reads read pid lines inputs rest) (heof : eofInput ∈ inputs) : rest = [] := by
  induction h with
  | nil => cases heof
  | snoc hreads hread ih =>
    rcases List.mem_append.mp heof with heof | heof
    · rw [ih heof] at hread
      cases hnil.symm.trans hread
      rfl
    · rw [← List.mem_singleton.mp heof] at hread
      rcases hsound _ _ _ _ hread with hof | ⟨-, hrest⟩
      · exact absurd rfl hof.ne_eof
      · exact hrest

end PIMSim
