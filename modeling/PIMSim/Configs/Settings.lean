import Mathlib.Data.Rat.Defs
import Mathlib.Logic.Function.Basic
import PIMSim.Library.Convert

/-!
# Settings by name

`SetValue` finds a static field by its name and converts a text to the type of the value that the field
has. The runtime converts texts to numbers, to truth values and to texts. It does not convert them to
enumerations, and an object of another class has no text at all.

A line of a settings file has a key and a value. The readers leave out the blanks of the whole line before
they take it apart.

## Main definitions

* `FieldType`, `Value`, `Field`: the fields of a class, and what they hold
* `FieldType.value`: the value that a text stands for
* `FieldType.changeType`, `setValue`: the conversion of the runtime, and `SetValue`
* `configFields`, `pimConfigsFields`: the fields of `Config` and `PIMConfigs`
* `code line`: what is left of a line without its comment

## Main results

* `setValue_of_ne`: a field with another name keeps its value
* `changeType_stripped_iff`: when the text of a line is converted to the value that it stands for
-/

namespace PIMSim.Settings

open CSharp

/-! ### Values -/

/-- The type of a field. An integer type has a least and a greatest value. -/
inductive FieldType
  | integer (lo hi : Int)
  | double
  | bool
  | string
  | enum (members : List String)
  | object
deriving DecidableEq

/-- The value of a field that is no object. -/
inductive Value
  | integer (n : Int)
  | double (q : ℚ)
  | bool (b : Bool)
  | string (s : List Char)
  | enum (member : String)
deriving DecidableEq

/-- A value other than another one. -/
theorem Value.exists_ne (v : Value) : ∃ w : Value, w ≠ v := by
  cases v with
  | bool b => exact ⟨.integer 0, by simp⟩
  | _ => exact ⟨.bool true, by simp⟩

/-- `Double.Parse`, which answers `none` for a text that is no number. -/
abbrev DoubleReader := List Char → Option ℚ

namespace FieldType

variable (parseDouble : DoubleReader) (s : List Char)

/-- The value that a text stands for. The white space around a text is not part of it. -/
def value : FieldType → Option Value
  | .integer lo hi => (parseInteger lo hi s).toOption.map .integer
  | .double => (parseDouble s).map .double
  | .bool => (parseBool s).toOption.map .bool
  | .string => some (.string (trim s))
  | .enum members => (members.find? fun member => decide (member.toList = trim s)).map .enum
  | .object => none

/-- `Convert.ChangeType(s, type)`. -/
def changeType : FieldType → Option Value
  | .integer lo hi => (parseInteger lo hi s).toOption.map .integer
  | .double => (parseDouble s).map .double
  | .bool => (parseBool s).toOption.map .bool
  | .string => some (.string s)
  | .enum _ => none
  | .object => none

end FieldType

def int32 : FieldType := .integer (-2 ^ 31) (2 ^ 31 - 1)

def uint16 : FieldType := .integer 0 (2 ^ 16 - 1)

def uint32 : FieldType := .integer 0 (2 ^ 32 - 1)

def uint64 : FieldType := .integer 0 (2 ^ 64 - 1)

/-! ### Fields -/

structure Field where
  name : String
  type : FieldType
deriving DecidableEq

/-- The values of the fields of a class. -/
abbrev Fields := String → Value

/-- The fields of `Config`. -/
def configFields : List Field := [
  ⟨"N", int32⟩, ⟨"IPC", int32⟩, ⟨"writeback", .bool⟩, ⟨"block_size", int32⟩, ⟨"block_size_bit", int32⟩,
  ⟨"ins_w_size", int32⟩, ⟨"writeback_queue_size", int32⟩, ⟨"mshr_size", int32⟩,
  ⟨"crtl_queue_max", int32⟩, ⟨"mc_latency", int32⟩, ⟨"page_size", uint64⟩, ⟨"adder_count", int32⟩,
  ⟨"multi_count", int32⟩, ⟨"operationcode_length", uint32⟩, ⟨"address_bit", uint32⟩,
  ⟨"host_clock_factor", .double⟩, ⟨"proc_frequent", uint64⟩, ⟨"shared_cache", .bool⟩,
  ⟨"use_cache", .bool⟩, ⟨"l1cache_size", int32⟩, ⟨"max_l1cache_bit", int32⟩, ⟨"l1cache_assoc", int32⟩,
  ⟨"shared_cache_size", int32⟩, ⟨"shared_cache_assoc", int32⟩, ⟨"max_scache_bit", int32⟩,
  ⟨"l1cache_hit_latency", uint64⟩, ⟨"share_cache_hit_latecy", uint64⟩,
  ⟨"max_insp_waitting_queue", int32⟩, ⟨"DEBUG_CACHE", .bool⟩, ⟨"DEBUG_TRACE", .bool⟩,
  ⟨"DEBUG_MTRL", .bool⟩, ⟨"DEBUG_COHERENCE", .bool⟩, ⟨"DEBUG_PROC", .bool⟩, ⟨"DEBUG_ALU", .bool⟩,
  ⟨"DEBUG_ALU_PIPELINE", .bool⟩, ⟨"DEBUG_PIM", .bool⟩, ⟨"DEBUG_INSP", .bool⟩, ⟨"DEBUG_MEMORY", .bool⟩,
  ⟨"trace_path", .string⟩, ⟨"config_path", .string⟩, ⟨"output_file", .string⟩,
  ⟨"trace_type", .enum ["Detailed", "PC"]⟩, ⟨"text_type", .enum ["Txt", "Gzip"]⟩,
  ⟨"proc_static_period", uint64⟩, ⟨"pim_static_period", uint64⟩,
  ⟨"ram_type", .enum ["DRAM", "PCM", "HMC", "HYBRID"]⟩, ⟨"memory", .object⟩, ⟨"channel", int32⟩,
  ⟨"rank", int32⟩, ⟨"bank", int32⟩, ⟨"dram_config", .object⟩, ⟨"hmc_config", .object⟩,
  ⟨"sim_cycle", uint64⟩, ⟨"sim_type", .enum ["cycle", "file"]⟩, ⟨"use_pim", .bool⟩,
  ⟨"register_level_check", .bool⟩, ⟨"linkdelay_tracetetcher_to_insp", uint16⟩,
  ⟨"linkdelay_insp_to_tracetetcher", uint16⟩, ⟨"linkdelay_cpu_to_insp", uint16⟩,
  ⟨"linkdelay_insp_to_cpu", uint16⟩, ⟨"fs", .object⟩, ⟨"sw", .object⟩]

/-- The fields of `PIMConfigs`. -/
def pimConfigsFields : List Field := [
  ⟨"unit_type", .enum ["Processors", "Pipeline"]⟩, ⟨"PIM_adder_count", int32⟩,
  ⟨"PIM_multi_count", int32⟩, ⟨"PIM_clock_factor", int32⟩,
  ⟨"Consistency_Model", .enum ["NoCache", "SpinLock", "DontCheck"]⟩,
  ⟨"PIM_Fliter", .enum ["Specified", "All"]⟩, ⟨"PIM_Ins_List", .object⟩, ⟨"max_pim_block", int32⟩,
  ⟨"N", int32⟩, ⟨"IPC", int32⟩, ⟨"use_l1_cache", .bool⟩, ⟨"CU_Name", .object⟩, ⟨"stage", int32⟩,
  ⟨"writeback", .bool⟩, ⟨"stage_name", .object⟩, ⟨"memory_method", .enum ["Bypass", "Conventional"]⟩,
  ⟨"PIM_kernal", .object⟩, ⟨"max_l1cache_bit", int32⟩, ⟨"l1cache_size", int32⟩,
  ⟨"l1cache_assoc", int32⟩, ⟨"ins_w_size", int32⟩, ⟨"writeback_queue_size", int32⟩,
  ⟨"mshr_size", int32⟩, ⟨"l1_cacheline_size", uint32⟩, ⟨"l1cache_hit_latency", uint64⟩]

/-- `GetField(name)` on the class with the fields `table`. -/
def getField (table : List Field) (name : List Char) : Option Field :=
  table.find? fun f => decide (f.name.toList = name)

/-- `SetValue(name, value)` on the class with the fields `table`, and its answer. -/
def setValue (parseDouble : DoubleReader) (table : List Field) (fields : Fields)
    (name value : List Char) : Fields × Bool :=
  match getField table name with
  | none => (fields, false)
  | some f =>
    match f.type.changeType parseDouble value with
    | none => (fields, false)
    | some v => (Function.update fields f.name v, true)

variable {parseDouble : DoubleReader} {table : List Field} {fields : Fields}
  {name value key s : List Char} {f : Field} {v : Value}

theorem name_of_getField (h : getField table name = some f) : f.name.toList = name := by
  have hname := List.find?_some h
  exact of_decide_eq_true hname

theorem setValue_of_getField (h : getField table name = some f)
    (hv : f.type.changeType parseDouble value = some v) :
    setValue parseDouble table fields name value = (Function.update fields f.name v, true) := by
  unfold setValue
  rw [h]
  dsimp only
  rw [hv]

theorem setValue_of_none (h : getField table name = none) :
    setValue parseDouble table fields name value = (fields, false) := by
  unfold setValue
  rw [h]

theorem setValue_of_changeType (h : getField table name = some f)
    (hv : f.type.changeType parseDouble value = none) :
    setValue parseDouble table fields name value = (fields, false) := by
  unfold setValue
  rw [h]
  dsimp only
  rw [hv]

/-- **A field with another name** keeps its value. -/
theorem setValue_of_ne {n : String} (h : n.toList ≠ name) :
    (setValue parseDouble table fields name value).1 n = fields n := by
  cases hf : getField table name with
  | none => rw [setValue_of_none hf]
  | some f =>
    cases hv : f.type.changeType parseDouble value with
    | none => rw [setValue_of_changeType hf hv]
    | some v =>
      have hne : n ≠ f.name := by
        rintro rfl
        exact h (name_of_getField hf)
      rw [setValue_of_getField hf hv]
      exact Function.update_of_ne hne v fields

/-! ### Lines -/

/-- The part of a line in front of its comment. -/
def code (line : List Char) : List Char := line.takeWhile (· ≠ ';')

/-- A key and the text behind the first equals sign. -/
structure Pair (line key value : List Char) : Prop where
  line : line = key ++ '=' :: value
  key : '=' ∉ key

/-- The line without its blanks has the key without its blanks as its first part, and its second part
ends at the next equals sign. -/
theorem Pair.splitOn {line : List Char} (h : Pair line key value) :
    (remove [' '] line).splitOn '=' = remove [' '] key :: (remove [' '] value).splitOn '=' := by
  have hkey : '=' ∉ key.filter fun c => c ≠ ' ' := fun hmem => h.key (List.mem_of_mem_filter hmem)
  rw [remove_singleton, remove_singleton, remove_singleton, h.line, List.filter_append,
    List.filter_cons_of_pos (by decide), List.splitOn_append_cons_self_of_not_mem hkey]

theorem exists_pair {line : List Char} (h : '=' ∈ line) : ∃ key value, Pair line key value := by
  obtain ⟨key, value, hline, hkey⟩ := List.eq_append_cons_of_mem h
  exact ⟨key, value, hline, hkey⟩

/-! ### Values of lines -/

/-- The text of a value without its blanks, up to the next equals sign. -/
def stripped (value : List Char) : List Char := (remove [' '] value).takeWhile (· ≠ '=')

theorem head_splitOn (s : List Char) :
    ∃ rest, s.splitOn '=' = s.takeWhile (fun c => decide (c ≠ '=')) :: rest := by
  by_cases h : '=' ∈ s
  · obtain ⟨front, back, rfl, hfront⟩ := List.eq_append_cons_of_mem h
    refine ⟨back.splitOn '=', ?_⟩
    have hall : ∀ c ∈ front, decide (c ≠ '=') = true := by
      intro c hc
      rw [decide_eq_true_iff]
      rintro rfl
      exact hfront hc
    rw [List.splitOn_append_cons_self_of_not_mem hfront, List.takeWhile_append_of_pos hall]
    simp
  · refine ⟨[], ?_⟩
    have hall : ∀ c ∈ s, decide (c ≠ '=') = true := by
      intro c hc
      rw [decide_eq_true_iff]
      rintro rfl
      exact h hc
    rw [List.splitOn_eq_singleton h, List.takeWhile_eq_self_iff.mpr hall]

theorem stripped_of_notMem (h : '=' ∉ value) : stripped value = remove [' '] value := by
  unfold stripped
  rw [List.takeWhile_eq_self_iff]
  intro c hc
  rw [decide_eq_true_iff]
  rintro rfl
  rw [remove_singleton] at hc
  exact h (List.mem_of_mem_filter hc)

/-- The conversion reads the text of a line as the value that it stands for. -/
def FieldType.Reads (parseDouble : DoubleReader) (value : List Char) : FieldType → Prop
  | .integer _ _ => True
  | .double => parseDouble (stripped value) = parseDouble value
  | .bool => True
  | .string => remove [' '] value = trim value ∧ '=' ∉ value
  | .enum _ => False
  | .object => True

theorem stripped_eq_trim_iff :
    stripped value = trim value ↔ remove [' '] value = trim value ∧ '=' ∉ value := by
  constructor
  · intro h
    have hnot : '=' ∉ value := by
      intro hmem
      have htrim : '=' ∈ trim value := by
        rw [← List.count_pos_iff, count_trim (by decide), List.count_pos_iff]
        exact hmem
      rw [← h] at htrim
      exact absurd (List.mem_takeWhile_imp htrim) (by decide)
    exact ⟨(stripped_of_notMem hnot).symm.trans h, hnot⟩
  · rintro ⟨h, hnot⟩
    rw [stripped_of_notMem hnot, h]

theorem eq_ok_of_toOption {α : Type} {x : Outcome α} {a : α} (h : x.toOption = some a) : x = .ok a := by
  cases x with
  | error e => cases h
  | ok b =>
    cases h
    rfl

/-- **When a line is converted** to the value that its text stands for. -/
theorem changeType_stripped_iff {type : FieldType} (hv : type.value parseDouble value = some v) :
    type.changeType parseDouble (stripped value) = some v ↔ type.Reads parseDouble value := by
  cases type with
  | integer lo hi =>
    refine iff_of_true ?_ trivial
    obtain ⟨n, hn, rfl⟩ := Option.map_eq_some_iff.mp hv
    have hparse := eq_ok_of_toOption hn
    have hnot : '=' ∉ value := fun hmem => absurd (mem_of_parseInteger hparse hmem) (by decide)
    change (parseInteger lo hi (stripped value)).toOption.map Value.integer = _
    rw [stripped_of_notMem hnot, parseInteger_remove hparse]
    rfl
  | double =>
    obtain ⟨q, hq, rfl⟩ := Option.map_eq_some_iff.mp hv
    change (parseDouble (stripped value)).map Value.double = _ ↔
      parseDouble (stripped value) = parseDouble value
    rw [hq]
    constructor
    · intro h
      obtain ⟨q', hq', heq⟩ := Option.map_eq_some_iff.mp h
      cases heq
      exact hq'
    · intro h
      rw [h]
      rfl
  | bool =>
    refine iff_of_true ?_ trivial
    obtain ⟨b, hb, rfl⟩ := Option.map_eq_some_iff.mp hv
    have hparse := eq_ok_of_toOption hb
    have hnot : '=' ∉ value := fun hmem => absurd (mem_of_parseBool hparse hmem) (by decide)
    change (parseBool (stripped value)).toOption.map Value.bool = _
    rw [stripped_of_notMem hnot, parseBool_remove hparse]
    rfl
  | string =>
    cases hv
    change some (Value.string (stripped value)) = some (Value.string (trim value)) ↔ _
    rw [Option.some.injEq, Value.string.injEq]
    exact stripped_eq_trim_iff
  | enum members =>
    refine iff_of_false ?_ id
    intro h
    cases h
  | object => cases hv

end PIMSim.Settings
