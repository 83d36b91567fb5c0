import PIMSim.TraceReader.Grammar

/-!
# Requests of a trace

A request reads lines until it has an instruction, a block, a function or the end of the trace. It
comes to an end on every trace. Whether it has an input is decided by the lines it reads.

## Main definitions

* `Readable labels maxBlock pid lines`: the lines of a request can be read
* `CutBlock`, `CutFunction`: a block and a function that the end of the trace cuts short

## Main results

* `getReq_suffix`: a request leaves a part of the trace, a smaller one unless it is empty
* `getReq_input_iff`: a request has an input exactly when its lines can be read, cut functions apart
* `getReq_cutBlock`: a block cut short is the end of the trace
* `requests_total`: the requests of all traces
-/

namespace PIMSim

open CSharp TraceText

variable (labels : PIMLabels) (maxBlock pid : Int)

/-- The lines of a block that holds `size` instructions. The first one must be an instruction, and the
others must not end the program. -/
def BlockReadable : ℕ → List Line → Prop
  | _, [] => True
  | size, line :: rest =>
    match blockLine labels pid line with
    | .comment => BlockReadable size rest
    | .finish => True
    | .member r =>
      (∃ ins, r = .ok ins ∧ (size = 0 → ins ≠ none)) ∧ size + 1 ≤ maxBlock ∧
        BlockReadable (size + 1) rest

/-- The lines of a function: fields that can be read, and the end of the function. -/
def FunctionReadable : List Line → Prop
  | [] => False
  | line :: rest =>
    match functionLine {} line with
    | .comment => FunctionReadable rest
    | .finish => True
    | .field r => (∃ f, r = .ok f) ∧ FunctionReadable rest

/-- The lines of a function that the end of the trace cuts short: fields that can be read. -/
def FunctionCut : List Line → Prop
  | [] => True
  | line :: rest =>
    match functionLine {} line with
    | .comment => FunctionCut rest
    | .finish => False
    | .field r => (∃ f, r = .ok f) ∧ FunctionCut rest

/-- The lines of a request: behind the comments an instruction, a block or a function, or nothing. -/
def Readable (lines : List Line) : Prop :=
  match lines.dropWhile Line.comment with
  | [] => True
  | line :: rest =>
    match topLine labels pid line with
    | .comment => True
    | .ins r => ∃ i, r = .ok (some i)
    | .block _ => BlockReadable labels maxBlock pid 0 rest
    | .function r => (∃ f, r = .ok f) ∧ FunctionReadable rest

/-- The request comes to a block that the end of the trace cuts short. -/
def CutBlock (lines : List Line) : Prop :=
  ∃ line rest name, lines.dropWhile Line.comment = line :: rest ∧ topLine labels pid line = .block name ∧
    BlockReadable labels maxBlock pid 0 rest ∧ ∀ line ∈ rest, blockLine labels pid line ≠ .finish

/-- The request comes to a function that the end of the trace cuts short. -/
def CutFunction (lines : List Line) : Prop :=
  ∃ line rest f, lines.dropWhile Line.comment = line :: rest ∧ topLine labels pid line = .function (.ok f) ∧
    FunctionCut rest

variable {labels maxBlock pid} {lines rest : List Line} {input : Option TextInput}

/-! ### The lines that are left -/

theorem readBlock_suffix {b : BlockText} {size : ℕ}
    (h : readBlock labels maxBlock pid b size lines = .ok (input, rest)) : rest <:+ lines := by
  induction lines generalizing b size with
  | nil =>
    cases h
    exact List.suffix_rfl
  | cons line lines ih =>
    unfold readBlock at h
    split at h
    · exact (ih h).trans (List.suffix_cons line lines)
    · cases h
      exact List.suffix_cons line _
    · obtain ⟨ins, -, h⟩ := Outcome.bind_eq_ok.mp h
      obtain ⟨b', -, h⟩ := Outcome.bind_eq_ok.mp h
      split_ifs at h
      · cases h
      · exact (ih h).trans (List.suffix_cons line lines)

theorem readFunction_suffix {f : FunctionText} (h : readFunction f lines = .ok (input, rest)) :
    rest <:+ lines := by
  induction lines generalizing f with
  | nil => cases h
  | cons line lines ih =>
    unfold readFunction at h
    split at h
    · exact (ih h).trans (List.suffix_cons line lines)
    · cases h
      exact List.suffix_cons line _
    · obtain ⟨f', -, h⟩ := Outcome.bind_eq_ok.mp h
      exact (ih h).trans (List.suffix_cons line lines)

/-- **A request leaves a part of the trace**, a smaller one unless the trace is empty. -/
theorem getReq_suffix (h : getReq labels maxBlock pid lines = .ok (input, rest)) :
    rest <:+ lines ∧ (rest.length < lines.length ∨ lines = []) := by
  induction lines with
  | nil =>
    cases h
    exact ⟨List.suffix_rfl, .inr rfl⟩
  | cons line lines ih =>
    have hshorter : rest <:+ lines →
        rest <:+ line :: lines ∧ (rest.length < (line :: lines).length ∨ line :: lines = []) :=
      fun hrest => ⟨hrest.trans (List.suffix_cons line lines), .inl (Nat.lt_succ_of_le hrest.length_le)⟩
    unfold getReq at h
    split at h
    · exact hshorter (ih h).1
    · obtain ⟨ins, -, heq⟩ := Outcome.bind_eq_ok.mp h
      cases heq
      exact hshorter List.suffix_rfl
    · exact hshorter (readBlock_suffix h)
    · obtain ⟨f, -, h⟩ := Outcome.bind_eq_ok.mp h
      exact hshorter (readFunction_suffix h)

/-! ### The requests with an input -/

/-- Whether a field can be read does not depend on the function. -/
theorem functionField_returns (f : FunctionText) (line : Line) :
    (∃ f', functionField f line = .ok f') ↔ ∃ f', functionField {} line = .ok f' := by
  unfold functionField
  dsimp only
  cases arrayAt (line.splitOn '=') 0 with
  | error e => exact Iff.rfl
  | ok tp0 =>
    simp only [Outcome.ok_bind]
    cases arrayAt (line.splitOn '=') 1 with
    | error e => split_ifs <;> exact Iff.rfl
    | ok tp1 =>
      simp only [Outcome.ok_bind]
      split_ifs
      · cases parseHexUInt64 (remove ['0', 'x'] tp1) with
        | error e => exact Iff.rfl
        | ok x => exact iff_of_true ⟨_, rfl⟩ ⟨_, rfl⟩
      · cases parseHexUInt64 (remove ['0', 'x'] tp1) with
        | error e => exact Iff.rfl
        | ok x => exact iff_of_true ⟨_, rfl⟩ ⟨_, rfl⟩
      · cases parseUInt64 (remove ['0', 'x'] tp1) with
        | error e => exact Iff.rfl
        | ok x => exact iff_of_true ⟨_, rfl⟩ ⟨_, rfl⟩
      · exact Iff.rfl

/-- **A function has an input** exactly when its lines can be read. -/
theorem readFunction_input_iff (f : FunctionText) (lines : List Line) :
    (∃ input rest, readFunction f lines = .ok (some input, rest)) ↔ FunctionReadable lines := by
  induction lines generalizing f with
  | nil => exact iff_of_false (by simp [readFunction]) id
  | cons line lines ih =>
    unfold readFunction FunctionReadable functionLine
    dsimp only
    split_ifs
    · exact ih f
    · exact iff_of_true ⟨_, _, rfl⟩ trivial
    · dsimp only
      rw [← functionField_returns f line.squeeze.cut]
      cases functionField f line.squeeze.cut with
      | error e => exact iff_of_false (by simp) (by simp)
      | ok f' => exact (ih f').trans (and_iff_right ⟨f', rfl⟩).symm

theorem addIns_returns (b : BlockText) (ins_ : Option InsText) :
    (∃ b', b.addIns ins_ = .ok b') ↔ (b.ins = [] → ins_ ≠ none) := by
  unfold BlockText.addIns
  cases b.ins with
  | nil => cases ins_ <;> simp
  | cons i ins => cases ins_ <;> simp

theorem addIns_ne_nil {b b' : BlockText} {ins_ : Option InsText} (h : b.addIns ins_ = .ok b') :
    b'.ins ≠ [] := by
  unfold BlockText.addIns at h
  split at h <;> cases h <;> simp

/-- **A block has an input** exactly when its lines can be read. -/
theorem readBlock_input_iff (b : BlockText) (size : ℕ) (hsize : b.ins = [] ↔ size = 0)
    (lines : List Line) :
    (∃ input rest, readBlock labels maxBlock pid b size lines = .ok (some input, rest)) ↔
      BlockReadable labels maxBlock pid size lines := by
  induction lines generalizing b size with
  | nil => exact iff_of_true ⟨_, _, rfl⟩ trivial
  | cons line lines ih =>
    unfold readBlock BlockReadable
    cases blockLine labels pid line with
    | comment => exact ih b size hsize
    | finish => exact iff_of_true ⟨_, _, rfl⟩ trivial
    | member r =>
      cases r with
      | error e =>
        exact iff_of_false (by simp) (by simp)
      | ok ins =>
        have hadd : (∃ b', b.addIns ins = .ok b') ↔
            ∃ ins', (.ok ins : Outcome (Option InsText)) = .ok ins' ∧ (size = 0 → ins' ≠ none) := by
          rw [addIns_returns, hsize]
          simp
        dsimp only
        rw [← hadd, Outcome.ok_bind]
        cases hb : b.addIns ins with
        | error e => exact iff_of_false (by simp) (by simp)
        | ok b' =>
          have hb' : b'.ins = [] ↔ size + 1 = 0 := iff_of_false (addIns_ne_nil hb) (Nat.succ_ne_zero _)
          simp only [Outcome.ok_bind]
          split_ifs with hmax
          · refine iff_of_false (by simp) fun h => ?_
            exact absurd h.2.1 (by omega)
          · rw [ih b' (size + 1) hb']
            exact ⟨fun h => ⟨⟨b', rfl⟩, by omega, h⟩, fun h => h.2.2⟩

theorem topLine_eq_comment_iff (line : Line) :
    topLine labels pid line = .comment ↔ line.comment = true := by
  unfold topLine
  dsimp only
  split_ifs with hcomment
  · exact iff_of_true rfl hcomment
  all_goals exact iff_of_false nofun hcomment

/-- A request goes over the comments in front. -/
theorem getReq_dropWhile (lines : List Line) :
    getReq labels maxBlock pid lines = getReq labels maxBlock pid (lines.dropWhile Line.comment) := by
  induction lines with
  | nil => rfl
  | cons line lines ih =>
    rw [List.dropWhile_cons]
    split_ifs with hcomment
    · rw [getReq, (topLine_eq_comment_iff line).mpr hcomment]
      exact ih
    · rfl

theorem not_comment_of_dropWhile {line : Line} (h : lines.dropWhile Line.comment = line :: rest) :
    line.comment = false := by
  have hne : lines.dropWhile Line.comment ≠ [] := by simp [h]
  have hhead := List.head_dropWhile_not Line.comment hne
  simpa [h] using hhead

/-- **A request has an input** exactly when its lines can be read. -/
theorem getReq_input_iff (lines : List Line) :
    (∃ input rest, getReq labels maxBlock pid lines = .ok (some input, rest)) ↔
      Readable labels maxBlock pid lines := by
  rw [getReq_dropWhile]
  unfold Readable
  cases hdrop : lines.dropWhile Line.comment with
  | nil => exact iff_of_true ⟨_, _, rfl⟩ trivial
  | cons line rest =>
    have hcomment : topLine labels pid line ≠ .comment := by
      rw [ne_eq, topLine_eq_comment_iff, not_comment_of_dropWhile hdrop]
      decide
    unfold getReq
    dsimp only
    cases htop : topLine labels pid line with
    | comment => exact absurd htop hcomment
    | ins r =>
      cases r with
      | error e => exact iff_of_false (by simp) (by simp)
      | ok ins =>
        cases ins with
        | none => exact iff_of_false (by simp) (by simp)
        | some i => exact iff_of_true ⟨_, _, rfl⟩ ⟨i, rfl⟩
    | block name => exact readBlock_input_iff _ 0 (iff_of_true rfl rfl) rest
    | function r =>
      cases r with
      | error e => exact iff_of_false (by simp) (by simp)
      | ok f => exact (readFunction_input_iff f rest).trans (and_iff_right ⟨f, rfl⟩).symm

/-! ### Blocks that are cut short -/

theorem readBlock_cut (b : BlockText) (size : ℕ) (hsize : b.ins = [] ↔ size = 0) {lines : List Line}
    (h : BlockReadable labels maxBlock pid size lines)
    (hend : ∀ line ∈ lines, blockLine labels pid line ≠ .finish) :
    readBlock labels maxBlock pid b size lines = .ok (some .eof, []) := by
  induction lines generalizing b size with
  | nil => rfl
  | cons line lines ih =>
    have hrest : ∀ line ∈ lines, blockLine labels pid line ≠ .finish := fun line' h' =>
      hend line' (List.mem_cons_of_mem line h')
    unfold BlockReadable at h
    unfold readBlock
    cases hline : blockLine labels pid line with
    | comment =>
      rw [hline] at h
      exact ih b size hsize h hrest
    | finish => exact absurd hline (hend line List.mem_cons_self)
    | member r =>
      rw [hline] at h
      obtain ⟨⟨ins, rfl, hfirst⟩, hmax, h⟩ := h
      obtain ⟨b', hb'⟩ := (addIns_returns b ins).mpr fun hnil => hfirst (hsize.mp hnil)
      simp only [Outcome.ok_bind, hb']
      rw [if_neg (by omega)]
      exact ih b' (size + 1) (iff_of_false (addIns_ne_nil hb') (Nat.succ_ne_zero _)) h hrest

/-- **A block that is cut short** is the end of the trace. -/
theorem getReq_cutBlock (h : CutBlock labels maxBlock pid lines) :
    getReq labels maxBlock pid lines = .ok (some .eof, []) := by
  obtain ⟨line, rest, name, hdrop, htop, hread, hend⟩ := h
  rw [getReq_dropWhile, hdrop, getReq, htop]
  exact readBlock_cut _ 0 (iff_of_true rfl rfl) hread hend

/-- **The requests of all traces**: functions that are cut short apart, a request has an input exactly
when its lines can be read; it leaves a smaller part of the trace, unless the trace is empty; a block
that is cut short is the end of the trace; and a documented line with one to three operands yields its
instruction. -/
theorem requests_total (labels : PIMLabels) (maxBlock pid : Int) :
    (∀ lines, ¬ CutFunction labels pid lines →
      ((∃ input rest, getReq labels maxBlock pid lines = .ok (some input, rest)) ↔
        Readable labels maxBlock pid lines)) ∧
    (∀ lines input rest, getReq labels maxBlock pid lines = .ok (input, rest) →
      rest <:+ lines ∧ (rest.length < lines.length ∨ lines = [])) ∧
    (∀ lines, CutBlock labels maxBlock pid lines →
      getReq labels maxBlock pid lines = .ok (some .eof, [])) ∧
    ∀ d : DocLine, 1 ≤ d.operands.length → d.operands.length ≤ 3 → ∀ rest,
      getReq labels maxBlock pid (d.render :: rest) =
        .ok (some (.instruction (d.meaning labels pid)), rest) := by
  refine ⟨?_, ?_, ?_, ?_⟩
  · exact fun lines _ => getReq_input_iff lines
  · exact fun lines input rest h => getReq_suffix h
  · exact fun lines h => getReq_cutBlock h
  · exact fun d hpos hle rest => DocLine.getReq_render labels maxBlock pid hpos hle rest

/-- An operation without operands is a null reference, a function that is cut short throws, and a line
with a word that is neither data nor address ends the program. -/
theorem not_total_mfence :
    getReq {} 15 0 ["0|mfence".toList] = .ok (none, []) ∧
      getReq {} 15 0 ["3|FUNCTION_Add_START".toList, "input=0x10".toList] = .error .nullReference ∧
      getReq {} 15 0 ["0|ld t1|R|x".toList] =
        .error (.exit 2 "Error in parsing trace line.") :=
  ⟨rfl, rfl, rfl⟩

end PIMSim
