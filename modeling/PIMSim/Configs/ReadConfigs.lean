import Mathlib.Algebra.GroupWithZero.Nat
import PIMSim.Configs.Settings

/-!
# The settings of the host

`read_configs` reads the settings of `Config` line by line. It cuts off comments, leaves out comment lines,
and splits the others at the equals sign. Then it looks at the number of characters of the line, where
the number of parts is meant: every second line is rejected.

A line of the memories names no field. The sizes on it are read as 16-bit numbers, and one that does not
fit ends the reading of the file.

## Main definitions

* `Config`, `Notice`, `Next`, `Step`: the state, what is printed, and how the reading goes on
* `Config.setRam`, `Config.readLine`, `Config.readConfigs`: the reading
* `Sets`, `Ignored`: what a line is meant to do
* `Faithful`: the lines of a text do what they are meant to do
* `Fine`, `Breaks`: the lines that are read right, and those that end the reading

## Main results

* `lineRead_iff`: a line does what it is meant to do exactly when it is fine
* `stopped_iff`: the lines that end the reading
* `faithful_iff`: the texts whose lines do what they are meant to do, and what is read of them
-/

namespace PIMSim.Settings

open CSharp

/-- The fields of `Config`, and its list of memories. -/
structure Config where
  fields : Fields
  memory : List (List Char × Int)

/-- What is printed. -/
inductive Notice
  /-- "Please make sure the line is correct: " -/
  | incorrect (line : List Char)
  /-- "WARNING: Failed to set Parms: ..., plz check if necessary." -/
  | failed (name value : List Char)
  /-- "No Memory?" -/
  | noMemory
  /-- "Error in input Memory Type." -/
  | memoryType
  /-- "ERROR : cannot read configs. " -/
  | cannotRead
deriving DecidableEq

/-- How the reading goes on: with the next line, not at all, or the program exits. -/
inductive Next
  | read
  | stopped
  | exited
deriving DecidableEq

structure Step where
  config : Config
  notice : Option Notice := none
  next : Next := .read

/-- A line that is read without a notice. -/
def Step.ok (c : Config) : Step := { config := c }

namespace Config

/-- A field of the configuration is set. -/
def set (c : Config) (name : String) (v : Value) : Config :=
  { c with fields := Function.update c.fields name v }

/-- The pairs of a size and a name are added, up to a size that is no 16-bit number. -/
def addRam (memory : List (List Char × Int)) : List (List Char) → List (List Char × Int) × Bool
  | n :: name :: ram =>
    match parseInteger (-2 ^ 15) (2 ^ 15 - 1) n with
    | .ok size => addRam (memory ++ [(name, size)]) ram
    | .error _ => (memory, false)
  | _ => (memory, true)

/-- The parts of the value of a `RAM` line. -/
def ramParts (value : List Char) : List (List Char) := (remove [']'] (remove ['['] value)).splitOn ','

/-- The `RAM` line. -/
def setRam (c : Config) (line value : List Char) : Step :=
  let ram := ramParts value
  if ram.length % 2 ≠ 0 then
    { config := c, notice := some (.incorrect line), next := .exited }
  else
    let (memory, done) := addRam c.memory ram
    let c := { c with memory }
    if done then
      match memory with
      | [] => { config := c, notice := some .noMemory, next := .exited }
      | [(key, _)] =>
        if key = "HMC".toList then .ok (c.set "ram_type" (.enum "HMC"))
        else if key = "DRAM".toList then .ok (c.set "ram_type" (.enum "DRAM"))
        else if key = "PCM".toList then .ok (c.set "ram_type" (.enum "PCM"))
        else { config := c, notice := some .memoryType, next := .exited }
      | _ => .ok (c.set "ram_type" (.enum "HYBRID"))
    else { config := c, notice := some .cannotRead, next := .stopped }

/-- `line.Count()`. The texts of the runtime have two units for a character past the first 2 ^ 16. -/
def count (line : List Char) : ℕ := (line.map fun c => if c.toNat < 2 ^ 16 then 1 else 2).sum

variable (parseDouble : DoubleReader)

/-- A line of `read_configs`. -/
def readLine (c : Config) (line : List Char) : Step :=
  let line := code line
  if line.head? = some '#' then .ok c
  else if '=' ∈ line then
    let split := (remove [' '] line).splitOn '='
    -- the length of the line is tested, not that of `split`
    if count line % 2 ≠ 0 then { config := c, notice := some (.incorrect line) }
    else
      match split with
      | key :: value :: _ =>
        if key = "RAM".toList then c.setRam line value
        else
          let (fields, done) := setValue parseDouble configFields c.fields key value
          { config := { c with fields }, notice := if done then none else some (.failed key value) }
      | _ => { config := c, notice := some .cannotRead, next := .stopped }
  else .ok c

/-- `read_configs`, on the lines of the file. -/
def readConfigs : Config → List (List Char) → Config × Next
  | c, [] => (c, .read)
  | c, line :: text =>
    let step := c.readLine parseDouble line
    match step.next with
    | .read => readConfigs step.config text
    | .stopped => (step.config, .stopped)
    | .exited => (step.config, .exited)

end Config

/-! ### What a line is meant to do -/

variable (parseDouble : DoubleReader)

/-- The key of the line names the field, and the text behind the equals sign stands for the value. -/
def Sets (line : List Char) (name : String) (v : Value) : Prop :=
  ∃ key value f, Pair (code line) key value ∧ getField configFields (trim key) = some f ∧
    f.type.value parseDouble value = some v ∧ name = f.name

/-- A blank line or a comment line. -/
def Ignored (line : List Char) : Prop :=
  (∀ c ∈ code line, isWhiteSpace c = true) ∨ (code line).head? = some '#'

/-- The line does what it is meant to do, whatever was read before, and it is not rejected. -/
structure LineRead (line : List Char) : Prop where
  sets : ∀ name v, Sets parseDouble line name v →
    ∀ c : Config, c.readLine parseDouble line = .ok (c.set name v)
  ignored : Ignored line → ∀ c : Config, c.readLine parseDouble line = .ok c
  accepted : ∀ c : Config, (c.readLine parseDouble line).next = .read →
    (c.readLine parseDouble line).notice ≠ some (.incorrect (code line))

/-- The lines of a text do what they are meant to do, and the reading does not end before the last one
that sets a field. -/
structure Faithful (text : List (List Char)) : Prop where
  lines : ∀ line ∈ text, LineRead parseDouble line
  reached : ∀ before line after, text = before ++ line :: after →
    (∃ c : Config, (c.readLine parseDouble line).next = .stopped) →
      ∀ line' ∈ after, ¬ ∃ name v, Sets parseDouble line' name v

/-- The line has no key, or it has an even number of characters and, if it sets a field, no other white
space than blanks around its key, and a value that does not depend on what is left out of it. -/
def Fine (line : List Char) : Prop :=
  (code line).head? = some '#' ∨ '=' ∉ code line ∨
    Config.count (code line) % 2 = 0 ∧
      ∀ key value f v, Pair (code line) key value → getField configFields (trim key) = some f →
        f.type.value parseDouble value = some v →
          remove [' '] key = trim key ∧ f.type.Reads parseDouble value

/-- A line of memories that is not rejected and has a size that is no 16-bit number. -/
def Breaks (line : List Char) : Prop :=
  ∃ key value, Pair (code line) key value ∧ Config.count (code line) % 2 = 0 ∧
    remove [' '] key = "RAM".toList ∧ (Config.ramParts (stripped value)).length % 2 = 0 ∧
      ∃ i n, (Config.ramParts (stripped value))[2 * i]? = some n ∧
        ∀ size, parseInteger (-2 ^ 15) (2 ^ 15 - 1) n ≠ .ok size

variable {parseDouble : DoubleReader} {line key value : List Char} {c : Config}

/-! ### A line with a key -/

/-- **A line with a key** and an even number of characters. -/
theorem readLine_of_pair (h : Pair (code line) key value) (hhash : (code line).head? ≠ some '#')
    (heven : Config.count (code line) % 2 = 0) :
    c.readLine parseDouble line =
      if remove [' '] key = "RAM".toList then c.setRam (code line) (stripped value)
      else
        { config := { c with fields :=
            (setValue parseDouble configFields c.fields (remove [' '] key) (stripped value)).1 }
          notice :=
            if (setValue parseDouble configFields c.fields (remove [' '] key) (stripped value)).2 then none
            else some (.failed (remove [' '] key) (stripped value)) } := by
  have hmem : '=' ∈ code line := h.line ▸ List.mem_append_right key List.mem_cons_self
  obtain ⟨rest, hrest⟩ := head_splitOn (remove [' '] value)
  unfold Config.readLine
  dsimp only
  rw [if_neg hhash, if_pos hmem, if_neg (by simp [heven]), h.splitOn, hrest]
  rfl

theorem readLine_of_hash (h : (code line).head? = some '#') : c.readLine parseDouble line = .ok c :=
  if_pos h

theorem readLine_of_notMem (h : '=' ∉ code line) : c.readLine parseDouble line = .ok c := by
  unfold Config.readLine
  dsimp only
  rw [if_neg h]
  exact ite_self _

/-- A line with an odd number of characters is rejected. -/
theorem readLine_of_odd (parseDouble : DoubleReader) (c : Config) (hhash : (code line).head? ≠ some '#') (hmem : '=' ∈ code line)
    (hodd : Config.count (code line) % 2 ≠ 0) :
    c.readLine parseDouble line = { config := c, notice := some (.incorrect (code line)) } := by
  unfold Config.readLine
  dsimp only
  rw [if_neg hhash, if_pos hmem, if_pos hodd]

theorem Pair.mem {line : List Char} (h : Pair line key value) : '=' ∈ line := by
  rw [h.line]
  simp

/-- The number sign of a comment line is in front of the key. -/
theorem Pair.hash_mem {line : List Char} (h : Pair line key value) (hhash : line.head? = some '#') :
    '#' ∈ key := by
  rw [h.line] at hhash
  cases key with
  | nil => cases hhash
  | cons d key =>
    cases hhash
    exact List.mem_cons_self

/-! ### Memories -/

/-- The memories of a line are added up to a size that is no 16-bit number. -/
theorem addRam_false_iff (memory : List (List Char × Int)) {ram : List (List Char)}
    (heven : ram.length % 2 = 0) :
    (Config.addRam memory ram).2 = false ↔
      ∃ i n, ram[2 * i]? = some n ∧ ∀ size, parseInteger (-2 ^ 15) (2 ^ 15 - 1) n ≠ .ok size := by
  fun_induction Config.addRam memory ram with
  | case1 memory n name ram size hsize ih =>
    have hrest : ram.length % 2 = 0 := by
      simp only [List.length_cons] at heven
      omega
    rw [ih hrest]
    constructor
    · rintro ⟨i, n', hn', hbad⟩
      exact ⟨i + 1, n', hn', hbad⟩
    · rintro ⟨i, n', hn', hbad⟩
      cases i with
      | zero =>
        cases hn'
        exact absurd hsize (hbad size)
      | succ i => exact ⟨i, n', hn', hbad⟩
  | case2 memory n name ram e herror =>
    refine iff_of_true rfl ⟨0, n, rfl, ?_⟩
    intro size hsize
    rw [herror] at hsize
    cases hsize
  | case3 ram memory hshort =>
    refine iff_of_false (by simp) ?_
    rintro ⟨i, n, hn, -⟩
    -- one part alone is no even number of parts
    cases ram with
    | nil => cases hn
    | cons n' ram =>
      cases ram with
      | nil => cases heven
      | cons name ram => exact hshort n' name ram rfl

theorem setRam_of_odd (c : Config) (line : List Char) (h : (Config.ramParts value).length % 2 ≠ 0) :
    c.setRam line value = { config := c, notice := some (.incorrect line), next := .exited } :=
  if_pos h

theorem setRam_of_false (c : Config) (line : List Char) (h : (Config.ramParts value).length % 2 = 0)
    (hdone : (Config.addRam c.memory (Config.ramParts value)).2 = false) :
    (c.setRam line value).next = .stopped ∧ (c.setRam line value).notice = some .cannotRead := by
  unfold Config.setRam
  dsimp only
  rw [if_neg (by simp [h]), hdone]
  exact ⟨rfl, rfl⟩

/-- Memories whose sizes are read are kept, or the program exits. -/
theorem setRam_of_true (c : Config) (line : List Char) (h : (Config.ramParts value).length % 2 = 0)
    (hdone : (Config.addRam c.memory (Config.ramParts value)).2 = true) :
    (c.setRam line value).next ≠ .stopped ∧
      ((c.setRam line value).next = .read → (c.setRam line value).notice = none) := by
  unfold Config.setRam
  dsimp only
  rw [if_neg (by simp [h]), hdone, if_pos rfl]
  split
  · exact ⟨by simp, by simp⟩
  · split_ifs <;> exact ⟨by simp [Step.ok], by simp [Step.ok]⟩
  · exact ⟨by simp [Step.ok], by simp [Step.ok]⟩

/-- **The line of memories** ends the reading when a size on it is no 16-bit number. -/
theorem setRam_stopped_iff (c : Config) (line : List Char) :
    (c.setRam line value).next = .stopped ↔ (Config.ramParts value).length % 2 = 0 ∧
      ∃ i n, (Config.ramParts value)[2 * i]? = some n ∧
        ∀ size, parseInteger (-2 ^ 15) (2 ^ 15 - 1) n ≠ .ok size := by
  by_cases h : (Config.ramParts value).length % 2 = 0
  · rw [and_iff_right h, ← addRam_false_iff c.memory h]
    cases hdone : (Config.addRam c.memory (Config.ramParts value)).2 with
    | false => exact iff_of_true (setRam_of_false c line h hdone).1 rfl
    | true => exact iff_of_false (setRam_of_true c line h hdone).1 (by simp)
  · rw [setRam_of_odd c line h]
    exact iff_of_false (by simp) fun hstop => h hstop.1

theorem setRam_accepted (c : Config) (line : List Char) (hnext : (c.setRam line value).next = .read) :
    (c.setRam line value).notice ≠ some (.incorrect line) := by
  by_cases h : (Config.ramParts value).length % 2 = 0
  · cases hdone : (Config.addRam c.memory (Config.ramParts value)).2 with
    | false =>
      rw [(setRam_of_false c line h hdone).2]
      simp
    | true =>
      rw [(setRam_of_true c line h hdone).2 hnext]
      simp
  · rw [setRam_of_odd c line h] at hnext
    cases hnext

/-! ### A line -/

/-- The names of the fields are no comments. -/
theorem configFields_hash : ∀ f ∈ configFields, '#' ∉ f.name.toList := by decide

/-- No blanks leave `RAM` of the name of a field. -/
theorem configFields_ram : ∀ f ∈ configFields,
    f.name.toList.any (fun x => x ≠ ' ' && !"RAM".toList.contains x) = true := by
  decide

theorem mem_of_getField {table : List Field} {name : List Char} {f : Field}
    (h : getField table name = some f) : f ∈ table := List.mem_of_find?_eq_some h

/-- The key of a field is not the key of the memories. -/
theorem key_ne_ram {f : Field} (h : getField configFields (trim key) = some f) :
    remove [' '] key ≠ "RAM".toList := by
  intro hram
  obtain ⟨x, hx, hother⟩ := List.any_eq_true.mp (configFields_ram f (mem_of_getField h))
  obtain ⟨hblank, hnot⟩ : x ≠ ' ' ∧ x ∉ "RAM".toList := by simpa using hother
  rw [name_of_getField h] at hx
  have hkey : x ∈ remove [' '] key := by
    rw [remove_singleton, List.mem_filter]
    exact ⟨mem_of_mem_trim hx, decide_eq_true hblank⟩
  exact hnot (hram ▸ hkey)

/-- A comment line sets no field. -/
theorem hash_of_sets {name : String} {v : Value} (h : Sets parseDouble line name v) :
    (code line).head? ≠ some '#' := by
  obtain ⟨key, value, f, hpair, hf, -, -⟩ := h
  intro hhash
  have hkey := hpair.hash_mem hhash
  have htrim : '#' ∈ trim key := by
    rw [← List.count_pos_iff, count_trim (by decide), List.count_pos_iff]
    exact hkey
  rw [← name_of_getField hf] at htrim
  exact configFields_hash f (mem_of_getField hf) htrim

/-- **A line sets its field** exactly when its key has no white space but blanks around it, and its value
does not depend on what is left out. -/
theorem sets_iff {f : Field} {v : Value} (h : Pair (code line) key value)
    (heven : Config.count (code line) % 2 = 0) (hf : getField configFields (trim key) = some f)
    (hv : f.type.value parseDouble value = some v) :
    (∀ c : Config, c.readLine parseDouble line = .ok (c.set f.name v)) ↔
      remove [' '] key = trim key ∧ f.type.Reads parseDouble value := by
  have hsets : Sets parseDouble line f.name v := ⟨key, value, f, h, hf, hv, rfl⟩
  have hhash := hash_of_sets hsets
  have hname := name_of_getField hf
  rw [← changeType_stripped_iff hv]
  constructor
  · intro hset
    obtain ⟨w, hw⟩ := v.exists_ne
    -- a configuration in which the field holds something else
    have hread := hset ⟨fun _ => w, []⟩
    rw [readLine_of_pair h hhash heven, if_neg (key_ne_ram hf)] at hread
    have hfields := congrArg (fun step => step.config.fields f.name) hread
    change (setValue parseDouble configFields (fun _ => w) (remove [' '] key) (stripped value)).1 f.name =
      Function.update (fun _ => w) f.name v f.name at hfields
    rw [Function.update_self] at hfields
    have hkey : remove [' '] key = trim key := by
      by_contra hne
      rw [setValue_of_ne (hname ▸ Ne.symm hne)] at hfields
      exact hw hfields
    refine ⟨hkey, ?_⟩
    rw [hkey] at hfields
    cases hchange : f.type.changeType parseDouble (stripped value) with
    | none =>
      rw [setValue_of_changeType hf hchange] at hfields
      exact absurd hfields hw
    | some v' =>
      rw [setValue_of_getField hf hchange] at hfields
      dsimp only at hfields
      rw [Function.update_self] at hfields
      rw [hfields]
  · rintro ⟨hkey, hchange⟩ c
    rw [readLine_of_pair h hhash heven, if_neg (key_ne_ram hf), hkey,
      setValue_of_getField hf hchange]
    rfl

/-- **A line does what it is meant to do** exactly when it is fine. -/
theorem lineRead_iff (line : List Char) : LineRead parseDouble line ↔ Fine parseDouble line := by
  by_cases hhash : (code line).head? = some '#'
  · refine iff_of_true ?_ (Or.inl hhash)
    refine { sets := ?_, ignored := fun _ c => readLine_of_hash hhash, accepted := ?_ }
    · intro name v hsets
      exact absurd hhash (hash_of_sets hsets)
    · intro c _
      rw [readLine_of_hash hhash]
      simp [Step.ok]
  · by_cases hmem : '=' ∈ code line
    · by_cases heven : Config.count (code line) % 2 = 0
      · have hfine : Fine parseDouble line ↔ ∀ key value f v, Pair (code line) key value →
            getField configFields (trim key) = some f → f.type.value parseDouble value = some v →
              remove [' '] key = trim key ∧ f.type.Reads parseDouble value := by
          unfold Fine
          rw [or_iff_right hhash, or_iff_right (not_not.mpr hmem), and_iff_right heven]
        rw [hfine]
        constructor
        · intro h key value f v hpair hf hv
          exact (sets_iff hpair heven hf hv).mp (h.sets f.name v ⟨key, value, f, hpair, hf, hv, rfl⟩)
        · intro h
          refine { sets := ?_, ignored := ?_, accepted := ?_ }
          · rintro name v ⟨key, value, f, hpair, hf, hv, rfl⟩
            exact (sets_iff hpair heven hf hv).mpr (h key value f v hpair hf hv)
          · rintro (hblank | hcomment)
            · exact absurd (hblank '=' hmem) (by decide)
            · exact absurd hcomment hhash
          · intro c hnext
            obtain ⟨key, value, hpair⟩ := exists_pair hmem
            rw [readLine_of_pair hpair hhash heven] at hnext ⊢
            split_ifs at hnext ⊢
            · exact setRam_accepted c _ hnext
            · simp
            · simp
      · -- an odd number of characters
        refine iff_of_false ?_ ?_
        · intro h
          have hread := readLine_of_odd parseDouble ⟨fun _ => .bool true, []⟩ hhash hmem heven
          exact h.accepted _ (by rw [hread]) (by rw [hread])
        · rintro (h | h | ⟨h, -⟩)
          · exact hhash h
          · exact h hmem
          · exact heven h
    · refine iff_of_true ?_ (Or.inr (Or.inl hmem))
      refine { sets := ?_, ignored := fun _ c => readLine_of_notMem hmem, accepted := ?_ }
      · rintro name v ⟨key, value, f, hpair, -⟩
        exact absurd hpair.mem hmem
      · intro c _
        rw [readLine_of_notMem hmem]
        simp [Step.ok]

/-- **The lines that end the reading** are lines of memories. -/
theorem stopped_iff (line : List Char) (c : Config) :
    (c.readLine parseDouble line).next = .stopped ↔ Breaks line := by
  constructor
  · intro hstop
    have hhash : (code line).head? ≠ some '#' := by
      intro hhash
      rw [readLine_of_hash hhash] at hstop
      cases hstop
    have hmem : '=' ∈ code line := by
      by_contra hnot
      rw [readLine_of_notMem hnot] at hstop
      cases hstop
    have heven : Config.count (code line) % 2 = 0 := by
      by_contra hodd
      rw [readLine_of_odd parseDouble c hhash hmem hodd] at hstop
      cases hstop
    obtain ⟨key, value, hpair⟩ := exists_pair hmem
    rw [readLine_of_pair hpair hhash heven] at hstop
    split_ifs at hstop with hram
    · exact ⟨key, value, hpair, heven, hram, (setRam_stopped_iff c _).mp hstop⟩
  · rintro ⟨key, value, hpair, heven, hram, hstop⟩
    have hhash : (code line).head? ≠ some '#' := by
      intro hhash
      have hkey : '#' ∈ remove [' '] key := by
        rw [remove_singleton, List.mem_filter]
        exact ⟨hpair.hash_mem hhash, by decide⟩
      rw [hram] at hkey
      exact absurd hkey (by decide)
    rw [readLine_of_pair hpair hhash heven, if_pos hram]
    exact (setRam_stopped_iff c _).mpr hstop

/-! ### A text -/

variable {text before after : List (List Char)} {name : String} {v : Value}

theorem readConfigs_append (c : Config) (before after : List (List Char)) :
    c.readConfigs parseDouble (before ++ after) =
      match c.readConfigs parseDouble before with
      | (c', .read) => c'.readConfigs parseDouble after
      | (c', .stopped) => (c', .stopped)
      | (c', .exited) => (c', .exited) := by
  induction before generalizing c with
  | nil => rfl
  | cons line before ih =>
    rw [List.cons_append, Config.readConfigs, Config.readConfigs]
    cases (c.readLine parseDouble line).next with
    | read => exact ih _
    | stopped => rfl
    | exited => rfl

/-- A reading that ends has come to a line that ends it. -/
theorem exists_stopped (h : (c.readConfigs parseDouble before).2 = .stopped) :
    ∃ front line back, before = front ++ line :: back ∧
      ∃ c : Config, (c.readLine parseDouble line).next = .stopped := by
  induction before generalizing c with
  | nil => cases h
  | cons line before ih =>
    rw [Config.readConfigs] at h
    cases hnext : (c.readLine parseDouble line).next with
    | read =>
      rw [hnext] at h
      obtain ⟨front, line', back, rfl, hstop⟩ := ih h
      exact ⟨line :: front, line', back, rfl, hstop⟩
    | stopped => exact ⟨[], line, before, rfl, c, hnext⟩
    | exited =>
      rw [hnext] at h
      cases h

/-- **A text is read**: unless the program exits before, a line that sets a field is read, and sets it. -/
theorem readConfigs_sets (h : Faithful parseDouble text) (c : Config)
    (htext : text = before ++ line :: after) (hsets : Sets parseDouble line name v) :
    (c.readConfigs parseDouble before).2 = .exited ∨
      ∃ c', c.readConfigs parseDouble before = (c', .read) ∧
        c.readConfigs parseDouble (before ++ [line]) = (c'.set name v, .read) := by
  have hmem : line ∈ text := by
    rw [htext]
    simp
  rcases hread : c.readConfigs parseDouble before with ⟨c', next⟩
  cases next with
  | exited => exact Or.inl rfl
  | stopped =>
    obtain ⟨front, stop, back, hbefore, hstop⟩ := exists_stopped (congrArg Prod.snd hread)
    refine absurd ⟨name, v, hsets⟩ (h.reached front stop (back ++ line :: after) ?_ hstop line ?_)
    · rw [htext, hbefore]
      simp
    · simp
  | read =>
    refine Or.inr ⟨c', rfl, ?_⟩
    rw [readConfigs_append, hread]
    dsimp only
    rw [Config.readConfigs, (h.lines line hmem).sets name v hsets c']
    rfl

/-- **When a text is read right**: its lines are fine, and no line of memories ends the reading before a
line that sets a field. Then every such line is read and sets its field, unless the program exits. -/
theorem faithful_iff (parseDouble : DoubleReader) (text : List (List Char)) :
    (Faithful parseDouble text ↔
      (∀ line ∈ text, Fine parseDouble line) ∧
        ∀ before line after, text = before ++ line :: after → Breaks line →
          ∀ line' ∈ after, ¬ ∃ name v, Sets parseDouble line' name v) ∧
      (Faithful parseDouble text → ∀ (c : Config) before line after name v,
        text = before ++ line :: after → Sets parseDouble line name v →
          (c.readConfigs parseDouble before).2 = .exited ∨
            ∃ c', c.readConfigs parseDouble before = (c', .read) ∧
              c.readConfigs parseDouble (before ++ [line]) = (c'.set name v, .read)) := by
  constructor
  · constructor
    · intro h
      refine ⟨fun line hline => (lineRead_iff line).mp (h.lines line hline), ?_⟩
      intro before line after htext hbreaks
      exact h.reached before line after htext
        ⟨⟨fun _ => .bool true, []⟩, (stopped_iff line _).mpr hbreaks⟩
    · rintro ⟨hfine, hbreaks⟩
      refine { lines := fun line hline => (lineRead_iff line).mpr (hfine line hline), reached := ?_ }
      rintro before line after htext ⟨c, hstop⟩
      exact hbreaks before line after htext ((stopped_iff line c).mp hstop)
  · intro h c before line after name v htext hsets
    exact readConfigs_sets h c htext hsets

/-- A line with an odd number of characters is rejected. -/
theorem not_faithful_odd :
    ¬ ∀ (parseDouble : DoubleReader) (text : List (List Char)), Faithful parseDouble text := by
  intro h
  have hline := (h (fun _ => none) ["N = 2".toList]).lines _ List.mem_cons_self
  have hhash : (code "N = 2".toList).head? ≠ some '#' := by decide
  have hread := readLine_of_odd (fun _ => none) ⟨fun _ => .bool true, []⟩ hhash (by decide) (by decide)
  exact hline.accepted _ (by rw [hread]) (by rw [hread])

end PIMSim.Settings
