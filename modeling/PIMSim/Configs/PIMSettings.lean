import PIMSim.Configs.Settings
import PIMSim.TraceReader.Comments

/-!
# The settings of the PIM units

`initConfig` of `PIMConfigs` reads its settings line by line. Eight keys have a meaning of their own, and
every other key is to name a field. `SetValue` was copied from `Config` with the class that it looks in, so
that it sets the fields of `Config`, and no field of `PIMConfigs` at all.

The comment of a line is cut off behind its semicolon. The semicolon stays, as the last character of
the value.

## Main definitions

* `PIMConfigs`: the fields and the lists of the class
* `Key`, `PIMConfigs.apply`: the keys with a meaning of their own
* `PIMConfigs.readLine`, `PIMConfigs.initConfig`: the reading
* `PIMConfigs.intended`: what a line is meant to do
* `Framed`: the lines of a text do what they are meant to do, and leave `Config` as it is
* `Harmless`: the lines that do

## Main results

* `keeps_iff`: the values of a key that mean the same with a semicolon
* `framed_iff`: the texts whose lines do what they are meant to do, and what is read of them
-/

namespace PIMSim.Settings

open CSharp

/-- The fields of `PIMConfigs`, and its lists. -/
structure PIMConfigs where
  fields : Fields
  insList : List (List Char) := []
  cuName : List (List Char) := []
  stageName : List (List Char) := []
  kernal : List (UInt64 × UInt64) := []

/-- The keys with a meaning of their own. -/
inductive Key
  | unitType
  | consistencyModel
  | fliter
  | insList
  | cu
  | stageList
  | loadMethod
  | kernal
deriving DecidableEq

namespace Key

def name : Key → String
  | .unitType => "PIM_Unit_Type"
  | .consistencyModel => "Consistency_Model"
  | .fliter => "PIM_Fliter"
  | .insList => "PIM_Ins_List"
  | .cu => "CU"
  | .stageList => "Stage_List"
  | .loadMethod => "PIM_Load_Method"
  | .kernal => "PIM_Kernal"

/-- The order in which a line is compared with the keys. -/
def all : List Key := [unitType, consistencyModel, fliter, insList, cu, stageList, loadMethod, kernal]

/-- The key of a line. -/
def find (key : List Char) : Option Key := all.find? fun k => decide (k.name.toList = key)

end Key

/-- The bounds of a kernel. -/
def bounds (range : List Char) : Outcome (UInt64 × UInt64) := do
  let st := range.splitOn ','
  let lo ← hexToUInt64 (← listAt st 0)
  let hi ← hexToUInt64 (← listAt st 1)
  return (lo, hi)

/-- The parts of a list of kernels, with what is behind the last parenthesis. -/
def rangeParts (value : List Char) : List (List Char) := (remove ['('] value).splitOn ')'

/-- The bounds of the kernels. -/
def ranges (value : List Char) : Outcome (List (UInt64 × UInt64)) :=
  ((rangeParts value).filter fun range => range ≠ []).mapM bounds

namespace PIMConfigs

/-- A field is set. -/
def set (p : PIMConfigs) (name : String) (v : Value) : PIMConfigs :=
  { p with fields := Function.update p.fields name v }

/-- A line with one of the keys. Every other word stands for the default. -/
def apply (p : PIMConfigs) (value : List Char) : Key → Outcome PIMConfigs
  | .unitType =>
    .ok (p.set "unit_type" (.enum (if value = "Pipeline".toList then "Pipeline" else "Processors")))
  | .consistencyModel =>
    .ok (p.set "Consistency_Model" (.enum
      (if value = "SpinLock".toList then "SpinLock"
        else if value = "NoCache".toList then "NoCache" else "DontCheck")))
  | .fliter => .ok (p.set "PIM_Fliter" (.enum (if value = "ALL".toList then "All" else "Specified")))
  | .insList => .ok { p with insList := p.insList ++ value.splitOn ',' }
  | .cu => .ok { p with cuName := p.cuName ++ value.splitOn ',' }
  | .stageList =>
    let stageName := p.stageName ++ value.splitOn ','
    .ok { p.set "stage" (.integer stageName.length) with stageName }
  | .loadMethod =>
    .ok (p.set "memory_method" (.enum (if value = "Bypass".toList then "Bypass" else "Conventional")))
  | .kernal => do
    let kernal ← ranges value
    return { p with kernal := p.kernal ++ kernal }

/-- `1 << n`, of 32 bits. -/
def shiftOne (n : Int) : Int := (2 ^ (n % 32).toNat + 2 ^ 31) % 2 ^ 32 - 2 ^ 31

/-- `Calulate_CacheSize` -/
def calulateCacheSize (p : PIMConfigs) : PIMConfigs :=
  match p.fields "use_l1_cache", p.fields "max_l1cache_bit" with
  | .bool true, .integer n => p.set "l1cache_size" (.integer (shiftOne n))
  | _, _ => p

end PIMConfigs

/-- The line up to the semicolon, with the semicolon. -/
def cut (line : List Char) : List Char :=
  if ';' ∈ line then line.take (line.idxOf ';' + 1) else line

namespace PIMConfigs

variable (parseDouble : DoubleReader)

/-- A line of `initConfig`, with the fields of `Config`. -/
def readLine (s : PIMConfigs × Fields) (line : List Char) : Outcome (PIMConfigs × Fields) :=
  match (remove [' '] (cut line)).splitOn '=' with
  | [key, value] =>
    match Key.find key with
    | some k => do return (← s.1.apply value k, s.2)
    | none => .ok (s.1, (setValue parseDouble configFields s.2 key value).1)
  | _ => .ok s

/-- `initConfig`, on the lines of the file. -/
def initConfig (s : PIMConfigs × Fields) (text : List (List Char)) : Outcome (PIMConfigs × Fields) := do
  let s ← text.foldlM (readLine parseDouble) s
  return (s.1.calulateCacheSize, s.2)

/-- What a line with another key is meant to do: the key names a field of `PIMConfigs`. -/
def named (p : PIMConfigs) (key value : List Char) : Outcome PIMConfigs :=
  match getField pimConfigsFields key with
  | none => .ok p
  | some f =>
    match f.type.value parseDouble value with
    | none => .ok p
    | some v => .ok (p.set f.name v)

/-- What a line is meant to do. -/
def intended (p : PIMConfigs) (line : List Char) : Outcome PIMConfigs :=
  match (remove [' '] (code line)).splitOn '=' with
  | [key, value] =>
    match Key.find key with
    | some k => p.apply value k
    | none => p.named parseDouble key value
  | _ => .ok p

end PIMConfigs

variable (parseDouble : DoubleReader)

/-- Every line of a text does what it is meant to do, whatever was read before, and leaves the fields of
`Config` as they are. -/
def Framed (text : List (List Char)) : Prop :=
  ∀ line ∈ text, ∀ (p p' : PIMConfigs) (c : Fields), p.intended parseDouble line = .ok p' →
    PIMConfigs.readLine parseDouble (p, c) line = .ok (p', c)

/-- The value of a key means the same with a semicolon behind it. -/
def Key.Keeps (value : List Char) : Key → Prop
  | .unitType => value ≠ "Pipeline".toList
  | .consistencyModel => value ≠ "SpinLock".toList ∧ value ≠ "NoCache".toList
  | .fliter => value ≠ "ALL".toList
  | .insList => False
  | .cu => False
  | .stageList => False
  | .loadMethod => value ≠ "Bypass".toList
  | .kernal =>
    (∀ kernals, ranges value ≠ .ok kernals) ∨
      ∃ last ∈ (rangeParts value).getLast?, 3 ≤ (last.splitOn ',').length

/-- The text that a line gives its key. -/
def given (line value : List Char) : List Char := if ';' ∈ line then value ++ [';'] else value

/-- The line has no key, or one of its own and no comment that changes its value, or one that names no
field that its text can set, neither in `PIMConfigs` nor in `Config`. -/
def Harmless (line : List Char) : Prop :=
  ∀ key value, (remove [' '] (code line)).splitOn '=' = [key, value] →
    match Key.find key with
    | some k => ';' ∈ line → k.Keeps value
    | none =>
      (∀ f v, getField pimConfigsFields key = some f → f.type.value parseDouble value ≠ some v) ∧
        ∀ f v, getField configFields key = some f → f.type.changeType parseDouble (given line value) ≠ some v

variable {parseDouble : DoubleReader} {line key value : List Char} {p p' : PIMConfigs} {c : Fields}
  {text : List (List Char)}

/-! ### The semicolon -/

theorem cut_eq (line : List Char) : cut line = code line ++ if ';' ∈ line then [';'] else [] := by
  unfold cut code
  by_cases h : ';' ∈ line
  · obtain ⟨front, back, rfl, hfront⟩ := List.eq_append_cons_of_mem h
    have hall : ∀ x ∈ front, decide (x ≠ ';') = true := by
      intro x hx
      rw [decide_eq_true_iff]
      rintro rfl
      exact hfront hx
    rw [if_pos h, if_pos h, List.idxOf_append_of_notMem hfront, List.idxOf_cons_self,
      Nat.add_zero, List.takeWhile_append_of_pos hall, List.take_length_add_append]
    simp
  · have hall : ∀ x ∈ line, decide (x ≠ ';') = true := by
      intro x hx
      rw [decide_eq_true_iff]
      rintro rfl
      exact h hx
    rw [if_neg h, if_neg h, List.takeWhile_eq_self_iff.mpr hall, List.append_nil]

/-- **The semicolon of a comment** is behind the last part of its line. -/
theorem splitOn_cut (line : List Char) :
    (remove [' '] (cut line)).splitOn '=' =
      if ';' ∈ line then appendLast ';' ((remove [' '] (code line)).splitOn '=')
      else (remove [' '] (code line)).splitOn '=' := by
  rw [cut_eq]
  by_cases h : ';' ∈ line
  · rw [if_pos h, if_pos h, remove_append_singleton (by decide) (by decide),
      splitOn_append_singleton (by decide)]
  · rw [if_neg h, if_neg h, List.append_nil]

namespace PIMConfigs

/-- A line with a key is read with the text that it gives the key. -/
theorem readLine_of_pair (h : (remove [' '] (code line)).splitOn '=' = [key, value]) :
    readLine parseDouble (p, c) line =
      match Key.find key with
      | some k => do return (← p.apply (given line value) k, c)
      | none => .ok (p, (setValue parseDouble configFields c key (given line value)).1) := by
  have hsplit : (remove [' '] (cut line)).splitOn '=' = [key, given line value] := by
    rw [splitOn_cut, h]
    unfold given
    split_ifs <;> rfl
  unfold readLine
  rw [hsplit]

theorem intended_of_pair (h : (remove [' '] (code line)).splitOn '=' = [key, value]) :
    p.intended parseDouble line =
      match Key.find key with
      | some k => p.apply value k
      | none => p.named parseDouble key value := by
  unfold intended
  rw [h]

/-- A line of another number of parts is left out. -/
theorem readLine_of_parts (h : ((remove [' '] (code line)).splitOn '=').length ≠ 2) :
    readLine parseDouble (p, c) line = .ok (p, c) := by
  have hlength : ((remove [' '] (cut line)).splitOn '=').length ≠ 2 := by
    rw [splitOn_cut]
    split_ifs
    · rwa [length_appendLast]
    · exact h
  unfold readLine
  split
  · next hsplit => exact absurd (by rw [hsplit]; rfl) hlength
  · rfl

theorem intended_of_parts (h : ((remove [' '] (code line)).splitOn '=').length ≠ 2) :
    p.intended parseDouble line = .ok p := by
  unfold intended
  split
  · next hsplit => exact absurd (by rw [hsplit]; rfl) h
  · rfl

theorem set_eq_set_iff {n : String} {v w : Value} : p.set n v = p.set n w ↔ v = w := by
  constructor
  · intro h
    have hfields := congrArg (fun q => q.fields n) h
    simpa [set] using hfields
  · rintro rfl
    rfl

end PIMConfigs

/-! ### The keys with a meaning of their own -/

theorem append_ne {word : List Char} (h : ';' ∉ word) (value : List Char) : value ++ [';'] ≠ word := by
  rintro rfl
  simp at h

theorem appendLast_ne {parts : List (List Char)} (h : parts ≠ []) : appendLast ';' parts ≠ parts := by
  induction parts with
  | nil => exact absurd rfl h
  | cons s parts ih =>
    cases parts with
    | nil => simp [appendLast]
    | cons t parts =>
      intro heq
      exact ih (by simp) (List.cons_eq_cons.mp heq).2

/-- A list with a semicolon behind its last item is another list. -/
theorem items_semicolon (value : List Char) :
    (value ++ [';']).splitOn ',' ≠ value.splitOn ',' := by
  rw [splitOn_append_singleton (by decide)]
  exact appendLast_ne (List.splitOn_ne_nil ',' value)

/-- The bounds of a kernel with a semicolon: the third part and those behind it are not read. -/
theorem bounds_semicolon (range : List Char) :
    (3 ≤ (range.splitOn ',').length → bounds (range ++ [';']) = bounds range) ∧
      ((range.splitOn ',').length < 3 → ∀ b, bounds (range ++ [';']) ≠ .ok b) := by
  unfold bounds
  dsimp only
  rw [splitOn_append_singleton (by decide)]
  match hparts : range.splitOn ',' with
  | [] => exact absurd hparts (List.splitOn_ne_nil ',' range)
  | [lo] =>
    refine ⟨by simp, fun _ b h => ?_⟩
    obtain ⟨x, hx, h⟩ := Outcome.bind_eq_ok.mp h
    cases hx
    obtain ⟨n, hn, -⟩ := Outcome.bind_eq_ok.mp h
    exact hexToUInt64_semicolon lo n hn
  | [lo, hi] =>
    refine ⟨by simp, fun _ b h => ?_⟩
    obtain ⟨x, hx, h⟩ := Outcome.bind_eq_ok.mp h
    obtain ⟨n, hn, h⟩ := Outcome.bind_eq_ok.mp h
    obtain ⟨y, hy, h⟩ := Outcome.bind_eq_ok.mp h
    cases hy
    obtain ⟨m, hm, -⟩ := Outcome.bind_eq_ok.mp h
    exact hexToUInt64_semicolon hi m hm
  | lo :: hi :: third :: parts => exact ⟨fun _ => rfl, fun h => absurd h (by simp)⟩

theorem appendLast_concat (parts : List (List Char)) (last : List Char) :
    appendLast ';' (parts ++ [last]) = parts ++ [last ++ [';']] := by
  induction parts with
  | nil => rfl
  | cons s parts ih =>
    cases parts with
    | nil => rfl
    | cons t parts => exact congrArg (s :: ·) ih

/-- **A list of kernels** means the same with a semicolon when it cannot be read, or when the part behind
the last parenthesis has three parts or more. -/
theorem ranges_semicolon (value : List Char) :
    (∀ kernals, ranges value = .ok kernals → ranges (value ++ [';']) = .ok kernals) ↔
      Key.Keeps value .kernal := by
  obtain ⟨parts, last, hparts⟩ : ∃ parts last, rangeParts value = parts ++ [last] :=
    (List.eq_nil_or_concat' _).resolve_left (List.splitOn_ne_nil ')' _)
  -- The semicolon lands behind the last parenthesis, in a part that the source reads too unless it
  -- is empty.
  have hsemicolon : rangeParts (value ++ [';']) = parts ++ [last ++ [';']] := by
    rw [← appendLast_concat, ← hparts]
    unfold rangeParts
    rw [remove_append_singleton (by decide) (by decide), splitOn_append_singleton (by decide)]
  have hlast : (∃ last ∈ (rangeParts value).getLast?, 3 ≤ (last.splitOn ',').length) ↔
      3 ≤ (last.splitOn ',').length := by
    rw [hparts, List.getLast?_concat]
    simp
  have hread : ranges (value ++ [';']) =
      ((parts.filter fun range => range ≠ []) ++ [last ++ [';']]).mapM bounds := by
    unfold ranges
    rw [hsemicolon, List.filter_append, List.filter_cons_of_pos (by simp), List.filter_nil]
  change _ ↔ _ ∨ _
  rw [hlast, hread]
  by_cases hthree : 3 ≤ (last.splitOn ',').length
  · refine iff_of_true ?_ (Or.inr hthree)
    have hne : last ≠ [] := by
      rintro rfl
      simp at hthree
    intro kernals h
    rw [← h]
    unfold ranges
    rw [hparts, List.filter_append, List.filter_cons_of_pos (by simpa using hne), List.filter_nil,
      List.mapM_append, List.mapM_append, List.mapM_cons, List.mapM_cons,
      (bounds_semicolon last).1 hthree]
  · -- With fewer parts the semicolon makes the last range unreadable.
    have hfails : ∀ kernals, ((parts.filter fun range => range ≠ []) ++ [last ++ [';']]).mapM bounds ≠
        .ok kernals := by
      intro kernals h
      rw [List.mapM_append] at h
      obtain ⟨front, -, h⟩ := Outcome.bind_eq_ok.mp h
      obtain ⟨back, hback, -⟩ := Outcome.bind_eq_ok.mp h
      rw [List.mapM_cons] at hback
      obtain ⟨b, hb, -⟩ := Outcome.bind_eq_ok.mp hback
      exact (bounds_semicolon last).2 (Nat.not_le.mp hthree) b hb
    rw [or_iff_left hthree]
    constructor
    · intro h kernals hkernals
      exact hfails kernals (h kernals hkernals)
    · intro h kernals hkernals
      exact absurd hkernals (h kernals)

/-- The fields of a class without any value. -/
def blank : PIMConfigs where
  fields := fun _ => .bool true

/-- **The values of a key that mean the same with a semicolon.** -/
theorem keeps_iff (k : Key) (value : List Char) :
    (∀ p p' : PIMConfigs, p.apply value k = .ok p' → p.apply (value ++ [';']) k = .ok p') ↔
      k.Keeps value := by
  have hword (word : String) (h : ';' ∉ word.toList) : ¬ value ++ [';'] = word.toList :=
    append_ne h value
  -- a line that assigns a member to a field
  have hassign (n : String) (member member' : String) :
      (∀ p p' : PIMConfigs, (.ok (p.set n (.enum member)) : Outcome _) = .ok p' →
        (.ok (p.set n (.enum member')) : Outcome _) = .ok p') ↔ member' = member := by
    constructor
    · intro h
      have hset := h blank _ rfl
      rw [Except.ok.injEq, PIMConfigs.set_eq_set_iff, Value.enum.injEq] at hset
      exact hset
    · rintro rfl p p' h
      exact h
  cases k with
  | unitType =>
    unfold PIMConfigs.apply Key.Keeps
    dsimp only
    rw [hassign, if_neg (hword "Pipeline" (by decide))]
    by_cases h : value = "Pipeline".toList
    · rw [if_pos h]
      exact iff_of_false (by decide) (not_not.mpr h)
    · rw [if_neg h]
      exact iff_of_true rfl h
  | consistencyModel =>
    unfold PIMConfigs.apply Key.Keeps
    dsimp only
    rw [hassign, if_neg (hword "SpinLock" (by decide)), if_neg (hword "NoCache" (by decide))]
    by_cases h : value = "SpinLock".toList
    · rw [if_pos h]
      exact iff_of_false (by decide) fun hne => hne.1 h
    · by_cases h' : value = "NoCache".toList
      · rw [if_neg h, if_pos h']
        exact iff_of_false (by decide) fun hne => hne.2 h'
      · rw [if_neg h, if_neg h']
        exact iff_of_true rfl ⟨h, h'⟩
  | fliter =>
    unfold PIMConfigs.apply Key.Keeps
    dsimp only
    rw [hassign, if_neg (hword "ALL" (by decide))]
    by_cases h : value = "ALL".toList
    · rw [if_pos h]
      exact iff_of_false (by decide) (not_not.mpr h)
    · rw [if_neg h]
      exact iff_of_true rfl h
  | loadMethod =>
    unfold PIMConfigs.apply Key.Keeps
    dsimp only
    rw [hassign, if_neg (hword "Bypass" (by decide))]
    by_cases h : value = "Bypass".toList
    · rw [if_pos h]
      exact iff_of_false (by decide) (not_not.mpr h)
    · rw [if_neg h]
      exact iff_of_true rfl h
  | insList =>
    refine iff_of_false ?_ id
    intro h
    have hlist := h blank _ rfl
    exact items_semicolon value (congrArg PIMConfigs.insList (Except.ok.inj hlist))
  | cu =>
    refine iff_of_false ?_ id
    intro h
    have hlist := h blank _ rfl
    exact items_semicolon value (congrArg PIMConfigs.cuName (Except.ok.inj hlist))
  | stageList =>
    refine iff_of_false ?_ id
    intro h
    have hlist := h blank _ rfl
    exact items_semicolon value (congrArg PIMConfigs.stageName (Except.ok.inj hlist))
  | kernal =>
    rw [← ranges_semicolon]
    constructor
    · intro h kernals hkernals
      have happly : blank.apply value .kernal = .ok { blank with kernal := kernals } :=
        Outcome.bind_eq_ok.mpr ⟨kernals, hkernals, rfl⟩
      obtain ⟨kernals', hkernals', heq⟩ := Outcome.bind_eq_ok.mp (h blank _ happly)
      have hsame : kernals' = kernals := congrArg PIMConfigs.kernal (Except.ok.inj heq)
      rw [hkernals', hsame]
    · intro h p p' hp
      obtain ⟨kernals, hkernals, heq⟩ := Outcome.bind_eq_ok.mp hp
      exact Outcome.bind_eq_ok.mpr ⟨kernals, h kernals hkernals, heq⟩

/-! ### Lines and texts -/

/-- A line with a key of its own. -/
theorem own_iff (k : Key) (line value : List Char) :
    (∀ (p p' : PIMConfigs) (c : Fields), p.apply value k = .ok p' →
      (do return (← p.apply (given line value) k, c) : Outcome (PIMConfigs × Fields)) = .ok (p', c)) ↔
      (';' ∈ line → k.Keeps value) := by
  unfold given
  by_cases h : ';' ∈ line
  · rw [if_pos h, imp_iff_right h, ← keeps_iff]
    constructor
    · intro hread p p' hp
      obtain ⟨q, hq, heq⟩ := Outcome.bind_eq_ok.mp (hread p p' (fun _ => .bool true) hp)
      cases heq
      exact hq
    · intro hkeeps p p' c hp
      rw [hkeeps p p' hp]
      rfl
  · rw [if_neg h]
    refine iff_of_true ?_ fun hmem => absurd hmem h
    intro p p' c hp
    rw [hp]
    rfl

theorem named_of_readable {f : Field} {v : Value} (hf : getField pimConfigsFields key = some f)
    (hv : f.type.value parseDouble value = some v) :
    p.named parseDouble key value = .ok (p.set f.name v) := by
  unfold PIMConfigs.named
  rw [hf]
  dsimp only
  rw [hv]

theorem named_of_not (h : ∀ f v, getField pimConfigsFields key = some f →
    f.type.value parseDouble value ≠ some v) : p.named parseDouble key value = .ok p := by
  unfold PIMConfigs.named
  cases hf : getField pimConfigsFields key with
  | none => rfl
  | some f =>
    dsimp only
    rw [Option.eq_none_iff_forall_ne_some.mpr fun v => h f v hf]

theorem setValue_of_not {text : List Char} (h : ∀ f v, getField configFields key = some f →
    f.type.changeType parseDouble text ≠ some v) :
    (setValue parseDouble configFields c key text).1 = c := by
  cases hf : getField configFields key with
  | none => rw [setValue_of_none hf]
  | some f => rw [setValue_of_changeType hf (Option.eq_none_iff_forall_ne_some.mpr fun v => h f v hf)]

/-- **A line with another key** must name no field that its text can set. -/
theorem other_iff (key value text : List Char) :
    (∀ (p p' : PIMConfigs) (c : Fields), p.named parseDouble key value = .ok p' →
      (.ok (p, (setValue parseDouble configFields c key text).1) : Outcome (PIMConfigs × Fields)) =
        .ok (p', c)) ↔
      (∀ f v, getField pimConfigsFields key = some f → f.type.value parseDouble value ≠ some v) ∧
        ∀ f v, getField configFields key = some f → f.type.changeType parseDouble text ≠ some v := by
  constructor
  · intro h
    have hpim : ∀ f v, getField pimConfigsFields key = some f →
        f.type.value parseDouble value ≠ some v := by
      intro f v hf hv
      obtain ⟨w, hw⟩ := v.exists_ne
      -- the field of the class holds something else, and keeps it
      have hread := h ⟨fun _ => w, [], [], [], []⟩ _ (fun _ => w) (named_of_readable hf hv)
      have hfields := congrArg (fun s => s.1.fields f.name) (Except.ok.inj hread)
      exact hw (by simpa [PIMConfigs.set] using hfields)
    refine ⟨hpim, ?_⟩
    intro f v hf hv
    obtain ⟨w, hw⟩ := v.exists_ne
    have hread := h blank _ (fun _ => w) (named_of_not hpim)
    have hfields := congrArg (fun s => s.2 f.name) (Except.ok.inj hread)
    rw [setValue_of_getField hf hv] at hfields
    exact hw (by simpa using hfields.symm)
  · rintro ⟨hpim, hconfig⟩ p p' c hp
    rw [named_of_not hpim] at hp
    cases hp
    rw [setValue_of_not hconfig]

/-- **A line does what it is meant to do** exactly when it is harmless. -/
theorem line_iff (line : List Char) :
    (∀ (p p' : PIMConfigs) (c : Fields), p.intended parseDouble line = .ok p' →
      PIMConfigs.readLine parseDouble (p, c) line = .ok (p', c)) ↔ Harmless parseDouble line := by
  by_cases hparts : ((remove [' '] (code line)).splitOn '=').length = 2
  · obtain ⟨key, value, hsplit⟩ := List.length_eq_two.mp hparts
    have hharmless : Harmless parseDouble line ↔
        match Key.find key with
        | some k => ';' ∈ line → k.Keeps value
        | none =>
          (∀ f v, getField pimConfigsFields key = some f → f.type.value parseDouble value ≠ some v) ∧
            ∀ f v, getField configFields key = some f →
              f.type.changeType parseDouble (given line value) ≠ some v := by
      constructor
      · intro h
        exact h key value hsplit
      · intro h key' value' hsplit'
        rw [hsplit] at hsplit'
        cases hsplit'
        exact h
    rw [hharmless]
    cases hkey : Key.find key with
    | some k =>
      simp only [PIMConfigs.readLine_of_pair hsplit, PIMConfigs.intended_of_pair hsplit, hkey]
      exact own_iff k line value
    | none =>
      simp only [PIMConfigs.readLine_of_pair hsplit, PIMConfigs.intended_of_pair hsplit, hkey]
      exact other_iff key value (given line value)
  · refine iff_of_true ?_ ?_
    · intro p p' c h
      rw [PIMConfigs.intended_of_parts hparts] at h
      cases h
      exact PIMConfigs.readLine_of_parts hparts
    · intro key value hsplit
      rw [hsplit] at hparts
      exact absurd rfl hparts

/-- The reading of a text whose lines do what they are meant to do. -/
theorem foldlM_of_framed (h : Framed parseDouble text)
    (hp : text.foldlM (PIMConfigs.intended parseDouble) p = .ok p') (c : Fields) :
    text.foldlM (PIMConfigs.readLine parseDouble) (p, c) = .ok (p', c) := by
  induction text generalizing p with
  | nil =>
    cases hp
    rfl
  | cons line text ih =>
    rw [List.foldlM_cons] at hp ⊢
    obtain ⟨q, hq, hp⟩ := Outcome.bind_eq_ok.mp hp
    rw [h line List.mem_cons_self p q c hq, Outcome.ok_bind]
    exact ih (fun line' hline' => h line' (List.mem_cons_of_mem line hline')) hp

/-- **When the settings are framed**: every line is harmless. Then the whole text sets what it is meant to
set, with the size of the cache that follows from it, and leaves `Config` as it is. -/
theorem framed_iff (parseDouble : DoubleReader) (text : List (List Char)) :
    (Framed parseDouble text ↔ ∀ line ∈ text, Harmless parseDouble line) ∧
      (Framed parseDouble text → ∀ (p p' : PIMConfigs) (c : Fields),
        text.foldlM (PIMConfigs.intended parseDouble) p = .ok p' →
          PIMConfigs.initConfig parseDouble (p, c) text = .ok (p'.calulateCacheSize, c)) := by
  constructor
  · constructor
    · intro h line hline
      exact (line_iff line).mp (h line hline)
    · intro h line hline
      exact (line_iff line).mpr (h line hline)
  · intro h p p' c hp
    unfold PIMConfigs.initConfig
    rw [foldlM_of_framed h hp c]
    rfl

/-- The number of processors is set in the other class. -/
theorem not_framed_n :
    ¬ ∀ (parseDouble : DoubleReader) (text : List (List Char)), Framed parseDouble text := by
  intro h
  have hread := h (fun _ => none) ["N=2".toList] _ List.mem_cons_self blank (blank.set "N" (.integer 2))
    (fun _ => .bool true) rfl
  have hfields := congrArg (fun s => s.1.fields "N") (Except.ok.inj hread)
  cases hfields

end PIMSim.Settings
