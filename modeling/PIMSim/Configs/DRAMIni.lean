import Mathlib.Data.Rat.Defs
import PIMSim.Library.Convert

/-!
# The parameter table of the DRAM

`DRAMConfig` keeps a table of its parameters. `ReadIniFile` reads a text line by line, and `SetKey`
finds the entry of a key, stores the value, and marks the entry. `CheckIfAllSet` is to tell whether
every numeric parameter was set.

It goes through the table until the first entry without a value. An entry that was not set has none,
so that the answer is always yes. It cannot run past the end, since two entries of the table name no
field of the class: a text that sets one of them stops the program.

## Main definitions

* `ConfigMap`, `DRAMConfig`: the table and the fields of the class
* `DRAMConfig.setKey`, `DRAMConfig.readIniFile`, `checkIfAllSet`
* `ChecksNumeric`: the check returns, and its answer is right

## Main results

* `marked_readIniFile`: an entry is marked exactly when a line sets its key
* `checkIfAllSet_eq`: the check of a table that was read
* `checksNumeric_iff`: the answer is right exactly when the text sets every numeric parameter
-/

namespace PIMSim.Ini

open CSharp

inductive VarType
  | string
  | uint
  | uint64
  | float
  | bool
deriving DecidableEq, Repr

inductive ParamType
  | sysParam
  | devParam
deriving DecidableEq, Repr

/-- The object that an entry refers to. -/
inductive Value
  | string (s : List Char)
  | uint (n : UInt32)
  | uint64 (n : UInt64)
  | float (q : ℚ)
  | bool (b : Bool)
deriving DecidableEq

/-- A numeric parameter has no default. -/
def VarType.numeric : VarType → Bool
  | .uint => true
  | .uint64 => true
  | .float => true
  | .string => false
  | .bool => false

/-- An entry of the table. -/
structure ConfigMap where
  iniKey : String
  parameterType : ParamType
  variableType : VarType
  variablePtr : Option Value := none
  wasSet : Bool := false
deriving DecidableEq

/-- The parameters in the order of the constructor. -/
def parameters : List ConfigMap := [
  ⟨"NUM_BANKS", .devParam, .uint, none, false⟩,
  ⟨"NUM_ROWS", .devParam, .uint, none, false⟩,
  ⟨"NUM_COLS", .devParam, .uint, none, false⟩,
  ⟨"DEVICE_WIDTH", .devParam, .uint, none, false⟩,
  ⟨"REFRESH_PERIOD", .devParam, .uint, none, false⟩,
  ⟨"tCK", .devParam, .float, none, false⟩,
  ⟨"CL", .devParam, .uint, none, false⟩,
  ⟨"AL", .devParam, .uint, none, false⟩,
  ⟨"BL", .devParam, .uint, none, false⟩,
  ⟨"tRAS", .devParam, .uint, none, false⟩,
  ⟨"tRCD", .devParam, .uint, none, false⟩,
  ⟨"tRRD", .devParam, .uint, none, false⟩,
  ⟨"tRC", .devParam, .uint, none, false⟩,
  ⟨"tRP", .devParam, .uint, none, false⟩,
  ⟨"tCCD", .devParam, .uint, none, false⟩,
  ⟨"tRTP", .devParam, .uint, none, false⟩,
  ⟨"tWTR", .devParam, .uint, none, false⟩,
  ⟨"tWR", .devParam, .uint, none, false⟩,
  ⟨"tRTRS", .devParam, .uint, none, false⟩,
  ⟨"tRFC", .devParam, .uint, none, false⟩,
  ⟨"tFAW", .devParam, .uint, none, false⟩,
  ⟨"tCKE", .devParam, .uint, none, false⟩,
  ⟨"tXP", .devParam, .uint, none, false⟩,
  ⟨"tCMD", .devParam, .uint, none, false⟩,
  ⟨"IDD0", .devParam, .uint, none, false⟩,
  ⟨"IDD1", .devParam, .uint, none, false⟩,
  ⟨"IDD2P", .devParam, .uint, none, false⟩,
  ⟨"IDD2Q", .devParam, .uint, none, false⟩,
  ⟨"IDD2N", .devParam, .uint, none, false⟩,
  ⟨"IDD3Pf", .devParam, .uint, none, false⟩,
  ⟨"IDD3Ps", .devParam, .uint, none, false⟩,
  ⟨"IDD3N", .devParam, .uint, none, false⟩,
  ⟨"IDD4W", .devParam, .uint, none, false⟩,
  ⟨"IDD4R", .devParam, .uint, none, false⟩,
  ⟨"IDD5", .devParam, .uint, none, false⟩,
  ⟨"IDD6", .devParam, .uint, none, false⟩,
  ⟨"IDD6L", .devParam, .uint, none, false⟩,
  ⟨"IDD7", .devParam, .uint, none, false⟩,
  ⟨"Vdd", .devParam, .float, none, false⟩,
  ⟨"NUM_CHANS", .sysParam, .uint, none, false⟩,
  ⟨"JEDEC_DATA_BUS_BITS", .sysParam, .uint, none, false⟩,
  ⟨"TRANS_QUEUE_DEPTH", .sysParam, .uint, none, false⟩,
  ⟨"CMD_QUEUE_DEPTH", .sysParam, .uint, none, false⟩,
  ⟨"EPOCH_LENGTH", .sysParam, .uint, none, false⟩,
  ⟨"USE_LOW_POWER", .sysParam, .bool, none, false⟩,
  ⟨"TOTAL_ROW_ACCESSES", .sysParam, .uint, none, false⟩,
  ⟨"ROW_BUFFER_POLICY", .sysParam, .string, none, false⟩,
  ⟨"SCHEDULING_POLICY", .sysParam, .string, none, false⟩,
  ⟨"ADDRESS_MAPPING_SCHEME", .sysParam, .string, none, false⟩,
  ⟨"QUEUING_STRUCTURE", .sysParam, .string, none, false⟩,
  ⟨"DEBUG_TRANS_Q", .sysParam, .bool, none, false⟩,
  ⟨"DEBUG_CMD_Q", .sysParam, .bool, none, false⟩,
  ⟨"DEBUG_ADDR_MAP", .sysParam, .bool, none, false⟩,
  ⟨"DEBUG_BANKSTATE", .sysParam, .bool, none, false⟩,
  ⟨"DEBUG_BUS", .sysParam, .bool, none, false⟩,
  ⟨"DEBUG_BANKS", .sysParam, .bool, none, false⟩,
  ⟨"DEBUG_POWER", .sysParam, .bool, none, false⟩,
  ⟨"VIS_FILE_OUTPUT", .sysParam, .bool, none, false⟩,
  ⟨"DEFINE_BOOL_PARAM", .sysParam, .bool, none, false⟩]

/-- The two entries without a field of their name: `GetField` answers null. -/
def isField (key : String) : Bool := key != "VIS_FILE_OUTPUT" && key != "DEFINE_BOOL_PARAM"

/-- The table, and the fields that were set, the last one first. -/
structure DRAMConfig where
  configMap : List ConfigMap := parameters
  fields : List (String × Value) := []
deriving DecidableEq

/-- `float.Parse`, which answers `none` for a text that is no number. -/
abbrev FloatReader := List Char → Option ℚ

/-! ### Reading a text -/

/-- The value of a text. A text that is no number stands for zero. -/
def VarType.read (parseFloat : FloatReader) (valueString : List Char) : VarType → Value
  | .string => .string valueString
  | .uint => .uint ((parseUInt32 valueString).toOption.getD 0)
  | .uint64 => .uint64 ((parseUInt64 valueString).toOption.getD 0)
  | .float => .float ((parseFloat valueString).getD 0)
  | .bool => .bool (decide (valueString = "true".toList ∨ valueString = "1".toList))

/-- `SetKey`: the first entry with the key is set, and the field of its name. -/
def DRAMConfig.setKey (parseFloat : FloatReader) (c : DRAMConfig) (key valueString : List Char) :
    Outcome DRAMConfig :=
  let i := c.configMap.findIdx fun e => decide (e.iniKey.toList = key)
  match c.configMap[i]? with
  | none => .ok c
  | some e =>
    let value := e.variableType.read parseFloat valueString
    if isField e.iniKey then
      .ok {
        configMap := c.configMap.set i { e with variablePtr := some value, wasSet := true }
        fields := (e.iniKey, value) :: c.fields }
    else .error .nullReference

/-- The key and the value of a line that is neither blank nor a comment. -/
def readPair (line : List Char) : Option (Outcome (List Char × List Char)) :=
  if remove [' '] line = [] ∨ line.head? = some ';' then none
  else
    let parts := (remove ['\t'] (remove [' '] (line.takeWhile (· ≠ ';')))).splitOn '='
    some (match parts with
      | key :: valueString :: _ => .ok (key, valueString)
      | _ => .error .indexOutOfRange)

/-- `ReadIniFile`, on the lines of the file. -/
def DRAMConfig.readIniFile (parseFloat : FloatReader) :
    DRAMConfig → List (List Char) → Outcome DRAMConfig
  | c, [] => .ok c
  | c, line :: text =>
    match readPair line with
    | none => c.readIniFile parseFloat text
    | some pair => do
      let (key, valueString) ← pair
      let c ← c.setKey parseFloat key valueString
      c.readIniFile parseFloat text

/-- `CheckIfAllSet`, from an entry on. A truth value that was not set becomes false. -/
def checkIfAllSet : List ConfigMap → Outcome (Bool × List ConfigMap)
  | [] => .error .argumentOutOfRange
  | e :: entries =>
    if e.variablePtr = none then .ok (true, e :: entries)
    else if e.wasSet = false ∧ e.variableType.numeric = true then .ok (false, e :: entries)
    else do
      let e := if e.wasSet = false ∧ e.variableType = .bool then
        { e with variablePtr := some (.bool false) } else e
      let (answer, entries) ← checkIfAllSet entries
      return (answer, e :: entries)

/-- **The check is right**: it returns, and says yes exactly when every numeric parameter was set. -/
def ChecksNumeric (configMap : List ConfigMap) : Prop :=
  ∃ answer configMap', checkIfAllSet configMap = .ok (answer, configMap') ∧
    (answer = true ↔ ∀ e ∈ configMap, e.variableType.numeric = true → e.wasSet = true)

/-- The keys that the lines of a text set. -/
def keys (text : List (List Char)) : List (List Char) :=
  text.filterMap fun line =>
    match readPair line with
    | some (.ok (key, _)) => some key
    | _ => none

/-! ### The table of a text -/

/-- The entry before it was set. -/
def ConfigMap.bare (e : ConfigMap) : ConfigMap := { e with variablePtr := none, wasSet := false }

/-- A table after the keys `ks` were set. An entry has a value exactly when it was set, and then it
names a field. -/
structure Marked (ks : List (List Char)) (configMap : List ConfigMap) : Prop where
  bare : configMap.map ConfigMap.bare = parameters
  value : ∀ e ∈ configMap, e.variablePtr ≠ none ↔ e.wasSet = true
  field : ∀ e ∈ configMap, e.wasSet = true → isField e.iniKey = true
  key : ∀ e ∈ configMap, e.wasSet = true ↔ e.iniKey.toList ∈ ks

variable {parseFloat : FloatReader} {c c' : DRAMConfig} {key valueString : List Char}
  {ks text : List (List Char)}

theorem marked_parameters : Marked [] parameters where
  bare := by decide
  value := by decide
  field := by decide
  key := by decide

theorem nodup_iniKey : (parameters.map ConfigMap.iniKey).Nodup := by decide

/-- The entries of a table have different keys. -/
theorem Marked.index_unique {configMap : List ConfigMap} (h : Marked ks configMap) {i j : ℕ}
    {e e' : ConfigMap} (he : configMap[i]? = some e) (he' : configMap[j]? = some e')
    (hkey : e.iniKey = e'.iniKey) : i = j := by
  have hkeys : configMap.map ConfigMap.iniKey = parameters.map ConfigMap.iniKey := by
    rw [← h.bare, List.map_map]
    rfl
  have hnodup : (configMap.map ConfigMap.iniKey).Nodup := hkeys ▸ nodup_iniKey
  have hi : i < (configMap.map ConfigMap.iniKey).length := by
    rw [List.length_map]
    exact (List.getElem?_eq_some_iff.mp he).1
  refine (List.getElem?_inj hi hnodup).mp ?_
  rw [List.getElem?_map, List.getElem?_map, he, he', Option.map_some, Option.map_some, hkey]

/-- The entries after one of them was set. -/
theorem mem_set {configMap : List ConfigMap} (h : Marked ks configMap) {i : ℕ} {e e₁ : ConfigMap}
    (he : configMap[i]? = some e) {e' : ConfigMap} (he' : e' ∈ configMap.set i e₁) :
    e' = e₁ ∨ e' ∈ configMap ∧ e'.iniKey ≠ e.iniKey := by
  obtain ⟨j, hj⟩ := List.mem_iff_getElem?.mp he'
  rw [List.getElem?_set] at hj
  split_ifs at hj with hij
  · exact .inl (Option.some.inj hj).symm
  · refine .inr ⟨List.mem_of_getElem? hj, fun hkey => hij ?_⟩
    exact (h.index_unique hj he hkey).symm

theorem map_set_of_eq {α β : Type} {f : α → β} {l : List α} {i : ℕ} {x y : α} (hx : l[i]? = some x)
    (hf : f y = f x) : (l.set i y).map f = l.map f := by
  apply List.ext_getElem?
  intro j
  rw [List.getElem?_map, List.getElem?_map, List.getElem?_set]
  split_ifs with hij hlt
  · rw [← hij, hx, Option.map_some, Option.map_some, hf]
  · rw [List.getElem?_eq_none (hij ▸ Nat.le_of_not_lt hlt)]
  · rfl

/-- The entry that `SetKey` finds has the key. -/
theorem iniKey_of_findIdx {configMap : List ConfigMap} {e : ConfigMap}
    (h : configMap[configMap.findIdx fun e => decide (e.iniKey.toList = key)]? = some e) :
    e.iniKey.toList = key := by
  obtain ⟨hlt, hget⟩ := List.getElem?_eq_some_iff.mp h
  have hp := List.findIdx_getElem (w := hlt)
  rw [hget] at hp
  exact of_decide_eq_true hp

/-- **A key is set**: its entry is marked, and the others stay as they are. -/
theorem marked_setKey (h : Marked ks c.configMap)
    (hset : c.setKey parseFloat key valueString = .ok c') : Marked (ks ++ [key]) c'.configMap := by
  unfold DRAMConfig.setKey at hset
  dsimp only at hset
  generalize hi : (c.configMap.findIdx fun e => decide (e.iniKey.toList = key)) = i at hset
  cases he : c.configMap[i]? with
  | none =>
    rw [he] at hset
    cases hset
    refine ⟨h.bare, h.value, h.field, fun e hmem => ?_⟩
    have hne : e.iniKey.toList ≠ key := by
      intro hkey
      have hlt : i < c.configMap.length := by
        rw [← hi]
        exact List.findIdx_lt_length_of_exists ⟨e, hmem, by simpa using hkey⟩
      exact absurd (List.getElem?_eq_none_iff.mp he) (Nat.not_le.mpr hlt)
    rw [h.key e hmem, List.mem_append, List.mem_singleton, or_iff_left hne]
  | some e =>
    rw [he] at hset
    dsimp only at hset
    have hkey : e.iniKey.toList = key := iniKey_of_findIdx (hi ▸ he)
    split_ifs at hset with hfield
    cases hset
    refine ⟨?_, fun e' he' => ?_, fun e' he' hmark => ?_, fun e' he' => ?_⟩
    · rw [← h.bare]
      exact map_set_of_eq he rfl
    · rcases mem_set h he he' with rfl | ⟨hmem, -⟩
      · simp
      · exact h.value e' hmem
    · rcases mem_set h he he' with rfl | ⟨hmem, -⟩
      · exact hfield
      · exact h.field e' hmem hmark
    · rcases mem_set h he he' with rfl | ⟨hmem, hne⟩
      · simp [hkey]
      · have hne' : e'.iniKey.toList ≠ key := fun heq => hne (String.toList_inj.mp (heq.trans hkey.symm))
        rw [h.key e' hmem, List.mem_append, List.mem_singleton, or_iff_left hne']

/-- **A text is read**: the entries of the keys it sets are marked. -/
theorem marked_readIniFile (h : Marked ks c.configMap) (hread : c.readIniFile parseFloat text = .ok c') :
    Marked (ks ++ keys text) c'.configMap := by
  induction text generalizing c ks with
  | nil =>
    cases hread
    simpa [keys] using h
  | cons line text ih =>
    unfold DRAMConfig.readIniFile at hread
    cases hline : readPair line with
    | none =>
      rw [hline] at hread
      have hkeys : keys (line :: text) = keys text := by simp [keys, hline]
      rw [hkeys]
      exact ih h hread
    | some pair =>
      rw [hline] at hread
      obtain ⟨⟨key, valueString⟩, hpair, hread⟩ := Outcome.bind_eq_ok.mp hread
      obtain ⟨c₁, hset, hread⟩ := Outcome.bind_eq_ok.mp hread
      have hkeys : keys (line :: text) = key :: keys text := by simp [keys, hline, hpair]
      rw [hkeys, ← List.singleton_append, ← List.append_assoc]
      exact ih (marked_setKey h hset) hread

/-- The lines that cannot stop the reading. -/
def Harmless (line : List Char) : Prop :=
  ∀ pair ∈ readPair line, ∃ key valueString, pair = .ok (key, valueString) ∧
    key ≠ "VIS_FILE_OUTPUT".toList ∧ key ≠ "DEFINE_BOOL_PARAM".toList

/-- A key with a field can be set. -/
theorem exists_setKey (c : DRAMConfig) (valueString : List Char) (hvis : key ≠ "VIS_FILE_OUTPUT".toList)
    (hdefine : key ≠ "DEFINE_BOOL_PARAM".toList) :
    ∃ c', c.setKey parseFloat key valueString = .ok c' := by
  unfold DRAMConfig.setKey
  dsimp only
  cases he : c.configMap[c.configMap.findIdx fun e => decide (e.iniKey.toList = key)]? with
  | none => exact ⟨c, rfl⟩
  | some e =>
    have hkey := iniKey_of_findIdx he
    have hfield : isField e.iniKey = true := by
      unfold isField
      rw [Bool.and_eq_true, bne_iff_ne, bne_iff_ne]
      constructor
      · rintro hname
        exact hvis (hkey ▸ congrArg String.toList hname)
      · rintro hname
        exact hdefine (hkey ▸ congrArg String.toList hname)
    exact ⟨_, if_pos hfield⟩

/-- A text of harmless lines is read to its end. -/
theorem exists_readIniFile (c : DRAMConfig) (h : ∀ line ∈ text, Harmless line) :
    ∃ c', c.readIniFile parseFloat text = .ok c' := by
  induction text generalizing c with
  | nil => exact ⟨c, rfl⟩
  | cons line text ih =>
    have hrest : ∀ line ∈ text, Harmless line := fun line' h' => h line' (List.mem_cons_of_mem line h')
    unfold DRAMConfig.readIniFile
    cases hpair : readPair line with
    | none => exact ih c hrest
    | some pair =>
      obtain ⟨key, valueString, rfl, hvis, hdefine⟩ := h line List.mem_cons_self pair hpair
      obtain ⟨c', hc'⟩ : ∃ c', c.setKey parseFloat key valueString = .ok c' :=
        exists_setKey c valueString hvis hdefine
      simp only [Outcome.ok_bind, hc']
      exact ih c' hrest

/-! ### The check -/

/-- The check stops at the first entry that was not set. -/
theorem checkIfAllSet_eq {configMap : List ConfigMap}
    (hvalue : ∀ e ∈ configMap, e.variablePtr ≠ none ↔ e.wasSet = true)
    (hunset : ∃ e ∈ configMap, e.wasSet = false) : checkIfAllSet configMap = .ok (true, configMap) := by
  induction configMap with
  | nil =>
    obtain ⟨e, he, -⟩ := hunset
    cases he
  | cons e entries ih =>
    unfold checkIfAllSet
    by_cases hnone : e.variablePtr = none
    · exact if_pos hnone
    · have hmark : e.wasSet = true := (hvalue e List.mem_cons_self).mp hnone
      have hrest : ∃ e' ∈ entries, e'.wasSet = false := by
        obtain ⟨e', he', hoff⟩ := hunset
        rcases List.mem_cons.mp he' with rfl | he'
        · rw [hmark] at hoff
          cases hoff
        · exact ⟨e', he', hoff⟩
      rw [if_neg hnone, if_neg (by simp [hmark]),
        ih (fun e' he' => hvalue e' (List.mem_cons_of_mem e he')) hrest]
      simp [hmark]

/-- A table always has an entry that was not set: it names no field. -/
theorem Marked.exists_unset {configMap : List ConfigMap} (h : Marked ks configMap) :
    ∃ e ∈ configMap, e.wasSet = false := by
  have hmem : (⟨"VIS_FILE_OUTPUT", .sysParam, .bool, none, false⟩ : ConfigMap) ∈
      configMap.map ConfigMap.bare := by
    rw [h.bare]
    decide
  obtain ⟨e, he, hbare⟩ := List.mem_map.mp hmem
  refine ⟨e, he, Bool.eq_false_iff.mpr fun hmark => ?_⟩
  have hname : e.iniKey = "VIS_FILE_OUTPUT" := congrArg ConfigMap.iniKey hbare
  have hfield := h.field e he hmark
  rw [hname] at hfield
  exact absurd hfield (by decide)

/-- **The check of the parameters** is right exactly when the text sets every numeric parameter. -/
theorem checksNumeric_iff (parseFloat : FloatReader) (text : List (List Char)) (c : DRAMConfig)
    (h : DRAMConfig.readIniFile parseFloat {} text = .ok c) :
    ChecksNumeric c.configMap ↔
      ∀ e ∈ parameters, e.variableType.numeric = true → e.iniKey.toList ∈ keys text := by
  have hmarked : Marked (keys text) c.configMap := marked_readIniFile marked_parameters h
  have hcheck := checkIfAllSet_eq hmarked.value hmarked.exists_unset
  have hall : (∀ e ∈ c.configMap, e.variableType.numeric = true → e.wasSet = true) ↔
      ∀ e ∈ parameters, e.variableType.numeric = true → e.iniKey.toList ∈ keys text := by
    rw [← hmarked.bare]
    simp only [List.forall_mem_map]
    exact forall₂_congr fun e he => imp_congr_right fun _ => hmarked.key e he
  rw [← hall]
  constructor
  · rintro ⟨answer, configMap', heq, hright⟩
    cases hcheck.symm.trans heq
    exact hright.mp rfl
  · exact fun hset => ⟨true, c.configMap, hcheck, iff_of_true rfl hset⟩

/-- A text that sets every parameter but the last two. -/
def fullText : List (List Char) :=
  (parameters.filter fun e => isField e.iniKey).map fun e => e.iniKey.toList ++ " = 1 ; set".toList

theorem readPair_set : ∀ e ∈ parameters,
    readPair (e.iniKey.toList ++ " = 1 ; set".toList) = some (.ok (e.iniKey.toList, ['1'])) := by
  decide +kernel

theorem checksNumeric_iff_full : ∃ c, DRAMConfig.readIniFile (fun _ => some 1) {} fullText = .ok c ∧
    ChecksNumeric c.configMap := by
  obtain ⟨c, hc⟩ : ∃ c, DRAMConfig.readIniFile (fun _ => some 1) {} fullText = .ok c := by
    refine exists_readIniFile {} fun line hline pair hpair => ?_
    obtain ⟨e, he, rfl⟩ := List.mem_map.mp hline
    obtain ⟨he, hfield⟩ := List.mem_filter.mp he
    have hpair' := (readPair_set e he).symm.trans hpair
    cases hpair'
    unfold isField at hfield
    rw [Bool.and_eq_true, bne_iff_ne, bne_iff_ne] at hfield
    refine ⟨_, _, rfl, ?_, ?_⟩
    · exact fun h => hfield.1 (String.toList_inj.mp h)
    · exact fun h => hfield.2 (String.toList_inj.mp h)
  exact ⟨c, hc, (checksNumeric_iff _ _ c hc).mpr (by decide)⟩

/-- An empty text sets no parameter, and the check says yes. -/
theorem not_checksNumeric_empty :
    ¬ ∀ c, DRAMConfig.readIniFile (fun _ => some 1) {} [] = .ok c → ChecksNumeric c.configMap := by
  intro h
  obtain ⟨answer, configMap', hcheck, hright⟩ := h {} rfl
  cases hcheck
  exact absurd (hright.mp rfl) (by decide)

end PIMSim.Ini
