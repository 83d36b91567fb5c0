import PIMSim.General.FlagBit

/-!
# Commands

A command keeps its attributes in flags, the one of an attribute at the attribute's number. The
constructor sets them by a text that ends at the last attribute of the command.

## Main definitions

* `Attribute`, `CMD`: the attributes and the commands
* `CMD.attributes`: the attributes of a command
* `Command.ofCMD`: the constructor
* `Command.testCmdAttrib`: the query of an attribute

## Main results

* `Marks.setAll`: the text of a list of attributes
* `Command.ofCMD_eq`: the flags of a command
* `Command.testCmdAttrib_eq_ok`: the queries that return, and what they answer
* `flagBit_iff`: when the flags, the numbers and the commands meet their specification
-/

namespace PIMSim

open CSharp

inductive Attribute
  | isRead
  | isWrite
  | isUpgrade
  | isInvalidate
  | needsWritable
  | isRequest
  | isResponse
  | needsResponse
  | isEviction
  | isSWPrefetch
  | isHWPrefetch
  | isLlsc
  | hasData
  | isError
  | isPrint
  | isFlush
  | fromCache
deriving DecidableEq, Repr

/-- The number of an attribute. -/
def Attribute.index (att : Attribute) : ℕ := att.ctorIdx

/-- `NUM_COMMAND_ATTRIBUTES`. -/
def numCommandAttributes : ℕ := 17

inductive CMD
  | invalidCmd
  | readReq
  | readResp
  | readRespWithInvalidate
  | writeReq
  | writeResp
  | writebackDirty
  | writebackClean
  | cleanEvict
  | softPFReq
  | hardPFReq
  | softPFResp
  | hardPFResp
  | writeLineReq
  | upgradeReq
  | scUpgradeReq
  | upgradeResp
  | scUpgradeFailReq
  | upgradeFailResp
  | readExReq
  | readExResp
  | readCleanReq
  | readSharedReq
  | loadLockedReq
  | storeCondReq
  | storeCondFailReq
  | storeCondResp
  | swapReq
  | swapResp
  | messageReq
  | messageResp
  | memFenceReq
  | memFenceResp
  | invalidDestError
  | badAddressError
  | functionalReadError
  | functionalWriteError
  | printReq
  | flushReq
  | invalidateReq
  | invalidateResp
  | numMemCmds
  | unnamed (value : Int)
deriving DecidableEq, Repr

/-- The attributes that `MatchCMD` gives to `SET1`, ..., `SET7`. -/
def CMD.attributes : CMD → List Attribute
  | .readReq => [.isRead, .isRequest, .needsResponse]
  | .readResp => [.isRead, .isRequest, .hasData, .isResponse]
  | .readRespWithInvalidate => [.isRead, .isResponse, .hasData, .isInvalidate]
  | .writeReq => [.isWrite, .needsWritable, .isRequest, .needsResponse, .hasData]
  | .writeResp => [.isWrite, .isResponse]
  | .writebackDirty => [.isWrite, .isRequest, .isEviction, .hasData, .fromCache]
  | .writebackClean => [.isWrite, .isRequest, .isEviction, .hasData, .fromCache]
  | .cleanEvict => [.isRequest, .isEviction, .fromCache]
  | .softPFReq => [.isRead, .isRequest, .isSWPrefetch, .needsResponse]
  | .hardPFReq => [.isRead, .isRequest, .isHWPrefetch, .needsResponse, .fromCache]
  | .softPFResp => [.isRead, .isResponse, .isSWPrefetch, .hasData]
  | .hardPFResp => [.isRead, .isResponse, .isHWPrefetch, .hasData]
  | .writeLineReq => [.isWrite, .needsWritable, .isRequest, .needsResponse, .hasData]
  | .upgradeReq =>
    [.isInvalidate, .needsWritable, .isUpgrade, .isRequest, .needsResponse, .fromCache]
  | .scUpgradeReq =>
    [.isInvalidate, .needsWritable, .isUpgrade, .isLlsc, .isRequest, .needsResponse, .fromCache]
  | .upgradeResp => [.isUpgrade, .isResponse]
  | .scUpgradeFailReq =>
    [.isRead, .needsWritable, .isInvalidate, .isLlsc, .isRequest, .needsResponse, .fromCache]
  | .upgradeFailResp => [.isRead, .isResponse, .hasData]
  | .readExReq => [.isRead, .needsWritable, .isInvalidate, .isRequest, .needsResponse, .fromCache]
  | .readExResp => [.isRead, .isResponse, .hasData]
  | .readCleanReq => [.isRead, .isRequest, .needsResponse, .fromCache]
  | .readSharedReq => [.isRead, .isRequest, .needsResponse, .fromCache]
  | .loadLockedReq => [.isRead, .isLlsc, .isRequest, .needsResponse]
  | .storeCondReq => [.isWrite, .needsWritable, .isLlsc, .isRequest, .needsResponse, .hasData]
  | .storeCondFailReq => [.isWrite, .needsWritable, .isLlsc, .isRequest, .needsResponse, .hasData]
  | .storeCondResp => [.isWrite, .isLlsc, .isResponse]
  | .swapReq => [.isRead, .isWrite, .needsWritable, .isRequest, .hasData, .needsResponse]
  | .swapResp => [.isRead, .isWrite, .isResponse, .hasData]
  | .messageReq => [.isWrite, .isRequest, .needsResponse, .hasData]
  | .messageResp => [.isWrite, .isResponse]
  | .memFenceReq => [.isRequest, .needsResponse]
  | .memFenceResp => [.isResponse]
  | .invalidDestError => [.isResponse, .isError]
  | .badAddressError => [.isResponse, .isError]
  | .functionalReadError => [.isRead, .isResponse, .isError]
  | .functionalWriteError => [.isWrite, .isResponse, .isError]
  | .printReq => [.isRequest, .isPrint]
  | .flushReq => [.isRequest, .isFlush, .needsWritable]
  | .invalidateReq => [.isInvalidate, .isRequest, .needsWritable, .needsResponse, .fromCache]
  | .invalidateResp => [.isInvalidate, .isResponse]
  | _ => []

/-- `SET1`: the text of one attribute. -/
def set1 (att : Attribute) : List Char :=
  (List.range (att.index + 1)).map fun i => if i = att.index then '1' else '0'

/-- `SET2`: the text of an attribute put over another text. -/
def set2 (att1 : List Char) (att2 : Attribute) : List Char :=
  (List.range (max att1.length (att2.index + 1))).map fun i =>
    let a := att1.getD i '0'
    let b := if i = att2.index then '1' else '0'
    if a = '0' ∧ b = '0' then '0' else '1'

/-- `SET3`, ..., `SET7`: the attributes one after the other. -/
def setAll : List Attribute → List Char
  | [] => []
  | att :: atts => atts.foldl set2 (set1 att)

/-! ### The text of a list of attributes -/

theorem Attribute.index_injective : Function.Injective Attribute.index := by
  intro a b h
  cases a <;> cases b <;> first | rfl | cases h

theorem Attribute.index_le (att : Attribute) : att.index ≤ Attribute.fromCache.index := by
  cases att <;> decide

/-- The text marks the attributes, and ends at the last one. -/
structure Marks (s : List Char) (atts : List Attribute) : Prop where
  bits : IsBits s
  digit : ∀ i, digit s i = decide (∃ att ∈ atts, att.index = i)
  length : ∀ i, i < s.length ↔ ∃ att ∈ atts, i ≤ att.index

theorem Marks.set1 (att : Attribute) : Marks (set1 att) [att] where
  bits := isBits_map (fun i => by split <;> simp) _
  digit i := by
    have h := digit_map_range (fun j => decide (j = att.index)) (att.index + 1) i
    simp only [decide_eq_true_eq] at h
    rw [PIMSim.set1, h, Bool.eq_iff_iff]
    simp only [Bool.and_eq_true, decide_eq_true_eq, List.mem_singleton, exists_eq_left]
    omega
  length i := by
    simp only [PIMSim.set1, List.length_map, List.length_range, List.mem_singleton, exists_eq_left]
    omega

theorem set2_eq {s : List Char} (hs : IsBits s) (att : Attribute) :
    set2 s att = (List.range (max s.length (att.index + 1))).map fun i =>
      if digit s i || decide (i = att.index) then '1' else '0' := by
  refine List.map_congr_left fun i _ => ?_
  have hchar : s.getD i '0' = if digit s i then '1' else '0' := by
    rw [List.getD_eq_getElem?_getD, digit]
    cases hget : s[i]? with
    | none => rfl
    | some c => rcases hs c (List.mem_of_getElem? hget) with rfl | rfl <;> rfl
  rw [hchar]
  by_cases hi : i = att.index <;> cases hdigit : digit s i <;> simp [hi]

theorem Marks.set2 {s : List Char} {atts : List Attribute} (h : Marks s atts) (att : Attribute) :
    Marks (set2 s att) (atts ++ [att]) where
  bits := by
    rw [set2_eq h.bits]
    exact isBits_map (fun i => by split <;> simp) _
  digit i := by
    rw [set2_eq h.bits, digit_map_range]
    have hshort : max s.length (att.index + 1) ≤ i →
        (CSharp.digit s i || decide (i = att.index)) = false := by
      intro hi
      rw [digit_of_length_le (by omega), Bool.false_or]
      exact decide_eq_false (by omega)
    have hbound : (decide (i < max s.length (att.index + 1)) &&
        (CSharp.digit s i || decide (i = att.index))) =
          (CSharp.digit s i || decide (i = att.index)) := by
      by_cases hi : i < max s.length (att.index + 1)
      · rw [decide_eq_true hi, Bool.true_and]
      · rw [hshort (by omega), Bool.and_false]
    rw [hbound, h.digit, ← Bool.decide_or]
    refine decide_eq_decide.mpr ?_
    simp only [List.mem_append, List.mem_singleton, or_and_right, exists_or, exists_eq_left]
    rw [eq_comm (a := i)]
  length i := by
    have hlast : i < att.index + 1 ↔ i ≤ att.index := Nat.lt_succ_iff
    simp only [PIMSim.set2, List.length_map, List.length_range, List.mem_append, List.mem_singleton,
      or_and_right, exists_or, exists_eq_left, lt_max_iff, h.length, hlast]

/-- **The text of a list of attributes** marks them. -/
theorem Marks.setAll (atts : List Attribute) : Marks (setAll atts) atts := by
  have hfold : ∀ (atts rest : List Attribute) (s : List Char), Marks s rest →
      Marks (atts.foldl PIMSim.set2 s) (rest ++ atts) := by
    intro atts
    induction atts with
    | nil =>
      intro rest s h
      rwa [List.append_nil]
    | cons att atts ih =>
      intro rest s h
      rw [List.foldl_cons, List.append_cons]
      exact ih _ _ (h.set2 att)
  cases atts with
  | nil => exact ⟨fun c hc => absurd hc List.not_mem_nil, by simp [PIMSim.setAll], by simp [PIMSim.setAll]⟩
  | cons att atts => exact hfold atts [att] _ (Marks.set1 att)

/-! ### Commands -/

structure Command where
  cmd : CMD
  flag : FlagBit
deriving DecidableEq

namespace Command

/-- The mask of a command. -/
def mask (cmd : CMD) : FlagBit.Mask := .string ⟨setAll cmd.attributes, (Marks.setAll _).bits⟩

/-- `Command(cmd)`. -/
def ofCMD (cmd : CMD) : Outcome Command := do
  let flag ← (FlagBit.ofInt numCommandAttributes).setFlags (mask cmd)
  return { cmd, flag }

/-- `testCmdAttrib(attrib)`. -/
def testCmdAttrib (c : Command) (attrib : Attribute) : Outcome Bool := do
  let x ← arrayAt c.flag.flags attrib.index
  return x != '0'

theorem length_le (cmd : CMD) : (setAll cmd.attributes).length ≤ numCommandAttributes := by
  by_contra hlong
  obtain ⟨att, -, hatt⟩ := ((Marks.setAll cmd.attributes).length 17).mp (by
    simpa [numCommandAttributes] using hlong)
  exact absurd (hatt.trans att.index_le) (by decide)

/-- **The flags of a command** are the text of its attributes: they end at its last one. -/
theorem ofCMD_eq (cmd : CMD) : ofCMD cmd = .ok { cmd, flag := ⟨setAll cmd.attributes⟩ } := by
  have hzero : IsBits (FlagBit.ofInt numCommandAttributes).flags := isBits_replicate_zero _
  have hlen := length_le cmd
  obtain ⟨f, hf⟩ := (FlagBit.setFlags_returns (f := FlagBit.ofInt numCommandAttributes)
    (m := mask cmd)).mpr ⟨hlen.trans_eq (List.length_replicate).symm, le_rfl⟩
  obtain ⟨hwidth, hbits, hdigit⟩ := FlagBit.setFlags_leaves hzero hf
  have hflags : f.flags = setAll cmd.attributes := by
    refine eq_of_digit hbits (Marks.setAll _).bits hwidth fun i hi => ?_
    have hi : i < (mask cmd).rounds := hwidth ▸ hi
    have hnone : (FlagBit.ofInt numCommandAttributes).bit i = false := by
      have hi : i < numCommandAttributes := Nat.lt_of_lt_of_le hi hlen
      simp [FlagBit.bit, FlagBit.ofInt, digit, hi]
    calc f.bit i = ((FlagBit.ofInt numCommandAttributes).bit i || digit (mask cmd).tostring i) :=
          hdigit i hi
      _ = digit (setAll cmd.attributes) i := by
        rw [hnone, Bool.false_or]
        rfl
  rw [ofCMD, hf, ← hflags]
  rfl

/-- **A query returns exactly when** the command has an attribute from the queried one on; its answer is
whether the command has the queried one. -/
theorem testCmdAttrib_eq_ok {cmd : CMD} {att : Attribute} {b : Bool} :
    ({ cmd, flag := ⟨setAll cmd.attributes⟩ } : Command).testCmdAttrib att = .ok b ↔
      (∃ last ∈ cmd.attributes, att.index ≤ last.index) ∧ b = decide (att ∈ cmd.attributes) := by
  obtain ⟨hbits, hdigit, hlength⟩ := Marks.setAll cmd.attributes
  have hmem : (∃ a ∈ cmd.attributes, a.index = att.index) ↔ att ∈ cmd.attributes := by
    constructor
    · rintro ⟨a, ha, heq⟩
      exact Attribute.index_injective heq ▸ ha
    · exact fun h => ⟨att, h, rfl⟩
  have hanswer : ∀ x, (setAll cmd.attributes)[att.index]? = some x →
      (x != '0') = decide (att ∈ cmd.attributes) := by
    intro x hx
    have h := hdigit att.index
    rw [digit, hx] at h
    rw [← decide_eq_decide.mpr hmem, ← h]
    rcases hbits x (List.mem_of_getElem? hx) with rfl | rfl <;> rfl
  rw [testCmdAttrib, Outcome.bind_eq_ok, ← hlength]
  constructor
  · rintro ⟨x, hx, heq⟩
    cases heq
    have hget := (arrayAt_eq_ok.mp hx).2
    exact ⟨(List.getElem?_eq_some_iff.mp hget).1, hanswer x hget⟩
  · rintro ⟨hi, rfl⟩
    have hget := List.getElem?_eq_getElem hi
    exact ⟨_, arrayAt_eq_ok.mpr ⟨Int.natCast_nonneg _, hget⟩, by rw [hanswer _ hget]; rfl⟩

/-- The queries of a command answer whether it has the attribute. -/
def RoundTrips (cmd : CMD) : Prop :=
  ∃ c, ofCMD cmd = .ok c ∧ ∀ att, c.testCmdAttrib att = .ok (decide (att ∈ cmd.attributes))

theorem roundTrips_iff (cmd : CMD) : RoundTrips cmd ↔ Attribute.fromCache ∈ cmd.attributes := by
  unfold RoundTrips
  rw [ofCMD_eq]
  constructor
  · rintro ⟨c, hc, hquery⟩
    cases hc
    obtain ⟨⟨last, hlast, hle⟩, -⟩ := testCmdAttrib_eq_ok.mp (hquery .fromCache)
    exact Attribute.index_injective (hle.antisymm last.index_le) ▸ hlast
  · intro h
    exact ⟨_, rfl, fun att => testCmdAttrib_eq_ok.mpr ⟨⟨_, h, att.index_le⟩, rfl⟩⟩

end Command

/-- **The specification of flags, exactly**: calls are right along all runs when they fit the width,
numbers and flags come back when they are padded, and the attributes of a command can be queried when
the last one is among them. -/
theorem flagBit_iff (w : ℕ) (O : Set FlagBit.Op) (x : UInt64) (f : FlagBit) (cmd : CMD) :
    (FlagBit.MeetsSpec w O ↔ ∀ op ∈ O, op.Fits w) ∧
      (FlagBit.RoundTrips x ↔ FlagBit.Padded x) ∧
      (FlagBit.ComesBack f ↔ ∃ x, FlagBit.Padded x ∧ f = FlagBit.ofMask (.uint64 x)) ∧
      (Command.RoundTrips cmd ↔ Attribute.fromCache ∈ cmd.attributes) :=
  ⟨FlagBit.meetsSpec_iff w O, FlagBit.roundTrips_iff x, FlagBit.comesBack_iff f,
    Command.roundTrips_iff cmd⟩

/-- On the 17 flags of a command the call `clear(1)` is not right, the number 256 does not come back, and
a read request cannot be asked whether it evicts. -/
theorem not_flagBit_clear :
    ¬ FlagBit.MeetsSpec 17 {.clearFlags (.uint32 1)} ∧ ¬ FlagBit.RoundTrips 256 ∧
      ¬ Command.RoundTrips .readReq := by
  refine ⟨fun h => ?_, (FlagBit.roundTrips_iff 256).not.mpr (by decide), ?_⟩
  · have hright := h (FlagBit.ofInt 17) (isBits_replicate_zero _) rfl [.clearFlags (.uint32 1)]
      (fun op hop => List.mem_singleton.mp hop)
    obtain ⟨f', answer, hrun, -⟩ := hright.1
    -- the text of 1 has one character
    have hthrows : FlagBit.Op.run (FlagBit.ofInt 17) (.clearFlags (.uint32 1)) =
        .error .indexOutOfRange := rfl
    cases hthrows.symm.trans hrun
  · rintro ⟨c, hc, hquery⟩
    have hc' : Command.ofCMD .readReq = .ok { cmd := .readReq, flag := ⟨"10000101".toList⟩ } := by
      decide
    cases hc'.symm.trans hc
    exact absurd (hquery .isEviction) (by decide)

end PIMSim
