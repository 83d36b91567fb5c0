import PIMSim.Library.BitString
import PIMSim.Library.Run

/-!
# Flags

A set of flags is kept as a base-two text, a character for each flag. Its operations take masks: a
number, whose base-two text is taken as the mask, or a text. The documented operations work on the
bits: a number selects the flag at an index by the bit of that weight, a text by the character at the
index.

## Main definitions

* `FlagBit`: the flags
* `FlagBit.Mask`: an argument of the operations, of each of the overloads
* `FlagBit.Op`: the calls, with what they do in `Op.run` and what is documented in `Op.bitAfter` and
  `Op.answer`
* `FlagBit.Op.Fits w op`: the calls that are right on all flags of the width `w`

## Main results

* `FlagBit.fits_iff`: a call is right on all flags of a width exactly when it fits the width
* `FlagBit.meetsSpec_iff`: a set of calls is right along all runs exactly when all of them fit
* `FlagBit.roundTrips_iff`: the numbers that come back from the flags made of them
-/

namespace PIMSim

open CSharp Transition

/-- The flags: a character for each of them. -/
structure FlagBit where
  flags : List Char
deriving DecidableEq

namespace FlagBit

/-- A mask: an argument of one of the overloads. -/
inductive Mask
  | uint32 (flags : UInt32)
  | uint16 (flags : UInt16)
  | uint64 (flags : UInt64)
  | string (flags : {s : List Char // IsBits s})

/-- `tostring`: the text of a mask. The text of a `UInt64` is put together from those of its bytes. -/
def Mask.tostring : Mask → List Char
  | .uint32 flags => Nat.toDigits 2 flags.toNat
  | .uint16 flags => Nat.toDigits 2 flags.toNat
  | .uint64 flags => byteText (getBytes flags)
  | .string flags => flags

/-- The number of rounds of the loop of `set`. -/
def Mask.rounds : Mask → ℕ
  | .uint32 _ => 32
  | .uint16 _ => 16
  | .uint64 _ => 64
  | .string flags => flags.1.length

/-- `FlagBit(flags)`: the flags of a number or of a text. -/
def ofMask (flags : Mask) : FlagBit := ⟨flags.tostring⟩

/-- `FlagBit(bit)`: no flag is set. -/
def ofInt (bit : Int) : FlagBit := ⟨List.replicate bit.toNat '0'⟩

/-! ### The operations -/

/-- `And`, on two characters. -/
def andChar (a b : Char) : Char := if a = '1' ∧ b = '1' then '1' else '0'

/-- `Or`, on two characters. -/
def orChar (a b : Char) : Char := if a = '0' ∧ b = '0' then '0' else '1'

/-- `Not`, on a character. -/
def notChar : Char → Char
  | '1' => '0'
  | '0' => '1'
  | _ => '0'

/-- `s.Any(x => x == '1')`. -/
def anyOne (s : List Char) : Bool := s.any (· == '1')

def isSet (f : FlagBit) : Bool := anyOne f.flags

def isSetFlags (f : FlagBit) (flags : Mask) : Outcome Bool := do
  let sb ← zipChars andChar f.flags.length f.flags flags.tostring
  return anyOne sb

def allSet (f : FlagBit) : Bool := !anyOne (f.flags.map notChar)

def allSetFlags (f : FlagBit) (flags : Mask) : Outcome Bool := do
  let sb ← zipChars andChar f.flags.length f.flags flags.tostring
  return !anyOne (sb.map notChar)

def noneSet (f : FlagBit) : Bool := !anyOne f.flags

def noneSetFlags (f : FlagBit) (flags : Mask) : Outcome Bool := do
  let sb ← zipChars andChar f.flags.length f.flags flags.tostring
  return !anyOne sb

def clear (f : FlagBit) : FlagBit := ⟨f.flags.map fun _ => '0'⟩

def clearFlags (f : FlagBit) (flags : Mask) : Outcome FlagBit := do
  let s := flags.tostring.map notChar
  return ⟨← zipChars andChar f.flags.length f.flags s⟩

def setFlags (f : FlagBit) (flags : Mask) : Outcome FlagBit :=
  return ⟨← zipChars orChar flags.rounds f.flags flags.tostring⟩

def setVal (f : FlagBit) (flags : Mask) (val : Bool) : Outcome FlagBit := do
  let s ← zipChars andChar f.flags.length f.flags (flags.tostring.map notChar)
  -- `val ? s1[i] : '0'`: the mask is read in its own right only to set flags
  let s1 := if val then flags.tostring else s.map fun _ => '0'
  return ⟨← zipChars orChar s.length s s1⟩

/-- `update` does not read `flags`: it takes the flags of the mask from `_flags`. -/
def update (f : FlagBit) (_flags mask : Mask) : Outcome FlagBit := do
  let s ← zipChars andChar f.flags.length f.flags (mask.tostring.map notChar)
  let s1 ← zipChars andChar f.flags.length f.flags mask.tostring
  return ⟨← zipChars orChar f.flags.length s s1⟩

/-- `(UInt64)f`. -/
def toUInt64 (f : FlagBit) : Outcome UInt64 := CSharp.toUInt64 f.flags

/-- A call: one that takes no mask, or one of an overload. -/
inductive Op
  | isSet
  | isSetFlags (flags : Mask)
  | allSet
  | allSetFlags (flags : Mask)
  | noneSet
  | noneSetFlags (flags : Mask)
  | clear
  | clearFlags (flags : Mask)
  | setFlags (flags : Mask)
  | setVal (flags : Mask) (val : Bool)
  | update (flags mask : Mask)

/-- The flags after a call, and its answer. -/
def Op.run (f : FlagBit) : Op → Outcome (FlagBit × Option Bool)
  | .isSet => return (f, some f.isSet)
  | .isSetFlags flags => return (f, some (← f.isSetFlags flags))
  | .allSet => return (f, some f.allSet)
  | .allSetFlags flags => return (f, some (← f.allSetFlags flags))
  | .noneSet => return (f, some f.noneSet)
  | .noneSetFlags flags => return (f, some (← f.noneSetFlags flags))
  | .clear => return (f.clear, none)
  | .clearFlags flags => return (← f.clearFlags flags, none)
  | .setFlags flags => return (← f.setFlags flags, none)
  | .setVal flags val => return (← f.setVal flags val, none)
  | .update flags mask => return (← f.update flags mask, none)

/-- The flags after a call. -/
def step (f : FlagBit) (op : Op) : Outcome FlagBit := do
  let (f', _) ← op.run f
  return f'

/-! ### The documented operations -/

/-- The number of flags. -/
def width (f : FlagBit) : ℕ := f.flags.length

/-- Whether the flag at an index is set. -/
def bit (f : FlagBit) (i : ℕ) : Bool := digit f.flags i

/-- Whether a mask selects the flag at an index of `w` flags. The first flag is the one of the highest
weight. -/
def Mask.selects (w i : ℕ) : Mask → Bool
  | .uint32 flags => flags.toNat.testBit (w - 1 - i)
  | .uint16 flags => flags.toNat.testBit (w - 1 - i)
  | .uint64 flags => flags.toNat.testBit (w - 1 - i)
  | .string flags => digit flags i

/-- Whether a mask selects something else than one of `w` flags. -/
def Mask.beyond (w : ℕ) : Mask → Bool
  | .uint32 flags => decide (2 ^ w ≤ flags.toNat)
  | .uint16 flags => decide (2 ^ w ≤ flags.toNat)
  | .uint64 flags => decide (2 ^ w ≤ flags.toNat)
  | .string flags => anyOne (flags.1.drop w)

/-- The flag at an index after a call, as documented: `_flags &= ~flags`, `_flags |= flags`,
`(_flags & ~f) | (val ? f : 0)`, `(_flags & ~mask) | (flags & mask)`. -/
def Op.bitAfter (f : FlagBit) (i : ℕ) : Op → Bool
  | .clear => false
  | .clearFlags flags => f.bit i && !flags.selects f.width i
  | .setFlags flags => f.bit i || flags.selects f.width i
  | .setVal flags val =>
    (f.bit i && !flags.selects f.width i) || (val && flags.selects f.width i)
  | .update flags mask =>
    (f.bit i && !mask.selects f.width i) || (flags.selects f.width i && mask.selects f.width i)
  | _ => f.bit i

/-- The answer of a call, as documented: `(_flags & flags) > 0`, `(_flags & flags) == flags`,
`(_flags & flags) == 0`. -/
def Op.answer (f : FlagBit) : Op → Option Bool
  | .isSet => some (decide (∃ i < f.width, f.bit i))
  | .isSetFlags flags => some (decide (∃ i < f.width, f.bit i ∧ flags.selects f.width i))
  | .allSet => some (decide (∀ i < f.width, f.bit i))
  | .allSetFlags flags =>
    some (!flags.beyond f.width && decide (∀ i < f.width, flags.selects f.width i → f.bit i))
  | .noneSet => some (decide (∀ i < f.width, ¬ f.bit i))
  | .noneSetFlags flags => some (decide (∀ i < f.width, f.bit i → ¬ flags.selects f.width i))
  | _ => none

/-- The call returns, keeps the width, and the flags and the answer are the documented ones. -/
def RightAt (f : FlagBit) (op : Op) : Prop :=
  ∃ f' answer, op.run f = .ok (f', answer) ∧ f'.width = f.width ∧
    (∀ i < f.width, f'.bit i = op.bitAfter f i) ∧ answer = op.answer f

/-- **The calls of `O` meet their specification** on flags of the width `w`: along every run, from all
flags of this width. -/
def MeetsSpec (w : ℕ) (O : Set Op) : Prop :=
  ∀ f : FlagBit, IsBits f.flags → f.width = w → ∀ ops : List Op, (∀ op ∈ ops, op ∈ O) →
    Along step RightAt f ops

/-- The first `w` characters of the text of a mask are what it selects of `w` flags. -/
def Mask.Aligned (w : ℕ) (flags : Mask) : Prop :=
  w ≤ flags.tostring.length ∧ ∀ i < w, digit flags.tostring i = flags.selects w i

/-- The calls that are right on all flags of the width `w`. -/
def Op.Fits (w : ℕ) : Op → Prop
  | .isSet | .allSet | .noneSet | .clear => True
  | .isSetFlags flags | .noneSetFlags flags | .clearFlags flags | .setVal flags _ => flags.Aligned w
  | .setFlags flags => flags.rounds = w ∧ flags.Aligned w
  | .allSetFlags flags =>
    w ≤ flags.tostring.length ∧
      if flags.beyond w then ∃ i < w, digit flags.tostring i = false
      else ∀ i < w, flags.selects w i ∧ digit flags.tostring i
  | .update _ mask => w ≤ mask.tostring.length ∧ ∀ i < w, mask.selects w i = false

variable {f : FlagBit} {m : Mask} {w i : ℕ} {s t u : List Char}

/-! ### The characters -/

theorem digitwise_andChar : Digitwise andChar (· && ·) := by
  rintro a b (rfl | rfl) (rfl | rfl) <;> simp [andChar]

theorem digitwise_orChar : Digitwise orChar (· || ·) := by
  rintro a b (rfl | rfl) (rfl | rfl) <;> simp [orChar]

theorem isBits_map_notChar (s : List Char) : IsBits (s.map notChar) := by
  refine isBits_map (fun c => ?_) s
  unfold notChar
  split <;> simp

theorem digit_map_notChar (hs : IsBits s) (hi : i < s.length) :
    digit (s.map notChar) i = !digit s i := by
  obtain ⟨c, hc, hdigit, hnot⟩ := digit_map (f := notChar) hi
  rw [hdigit, hnot]
  rcases hs c hc with rfl | rfl <;> rfl

theorem anyOne_iff : anyOne s = true ↔ ∃ i < s.length, digit s i := by
  simp only [anyOne, List.any_eq_true, beq_iff_eq, digit]
  constructor
  · rintro ⟨c, hc, rfl⟩
    obtain ⟨i, hi, hget⟩ := List.mem_iff_getElem.mp hc
    exact ⟨i, hi, by simp [hi, hget]⟩
  · rintro ⟨i, hi, hget⟩
    exact ⟨'1', List.mem_of_getElem? hget, rfl⟩

theorem anyOne_eq_decide {p : ℕ → Prop} [DecidablePred p] (h : ∀ i < s.length, digit s i = true ↔ p i) :
    anyOne s = decide (∃ i < s.length, p i) := by
  rw [Bool.eq_iff_iff, anyOne_iff, decide_eq_true_iff]
  exact exists_congr fun i => and_congr_right fun hi => h i hi

theorem isBits_tostring (m : Mask) : IsBits m.tostring := by
  cases m with
  | uint32 flags => exact isBits_toDigits _
  | uint16 flags => exact isBits_toDigits _
  | uint64 flags => exact isBits_byteText _
  | string flags => exact flags.2

/-! ### What the loops compute -/

/-- The flags in a mask: `_flags & flags`. -/
theorem andFlags_eq_ok (hf : IsBits f.flags) (h : zipChars andChar f.width f.flags m.tostring = .ok u) :
    u.length = f.width ∧ IsBits u ∧ ∀ i < f.width, digit u i = (f.bit i && digit m.tostring i) :=
  digitwise_andChar.zipChars hf (isBits_tostring m) h

/-- The flags out of a mask: `_flags & ~flags`. -/
theorem andNot_eq_ok (hf : IsBits f.flags)
    (h : zipChars andChar f.width f.flags (m.tostring.map notChar) = .ok u) :
    u.length = f.width ∧ IsBits u ∧ ∀ i < f.width, digit u i = (f.bit i && !digit m.tostring i) := by
  have hlen : f.width ≤ m.tostring.length :=
    (zipChars_eq_ok.mp h).2.1.trans_eq (List.length_map _)
  obtain ⟨h1, h2, h3⟩ := digitwise_andChar.zipChars hf (isBits_map_notChar _) h
  refine ⟨h1, h2, fun i hi => ?_⟩
  rw [h3 i hi, digit_map_notChar (isBits_tostring m) (hi.trans_le hlen)]
  rfl

theorem andFlags_returns (h : f.width ≤ m.tostring.length) :
    ∃ u, zipChars andChar f.width f.flags m.tostring = .ok u :=
  zipChars_returns andChar le_rfl h

theorem length_of_andNot (h : zipChars andChar f.width f.flags (m.tostring.map notChar) = .ok u) :
    f.width ≤ m.tostring.length :=
  (zipChars_eq_ok.mp h).2.1.trans_eq (List.length_map _)

theorem andNot_returns (h : f.width ≤ m.tostring.length) :
    ∃ u, zipChars andChar f.width f.flags (m.tostring.map notChar) = .ok u :=
  zipChars_returns andChar le_rfl (by simpa using h)

theorem isSetFlags_eq_ok (hf : IsBits f.flags) {b : Bool} :
    f.isSetFlags m = .ok b ↔ f.width ≤ m.tostring.length ∧
      b = decide (∃ i < f.width, f.bit i ∧ digit m.tostring i) := by
  have hany : ∀ u, zipChars andChar f.width f.flags m.tostring = .ok u →
      anyOne u = decide (∃ i < f.width, f.bit i ∧ digit m.tostring i) := by
    intro u hu
    obtain ⟨hlen, -, hdigit⟩ := andFlags_eq_ok hf hu
    rw [← hlen]
    refine anyOne_eq_decide fun i hi => ?_
    rw [hdigit i (hlen ▸ hi), Bool.and_eq_true]
  unfold isSetFlags
  rw [Outcome.bind_eq_ok]
  constructor
  · rintro ⟨u, hu, heq⟩
    cases heq
    exact ⟨(zipChars_eq_ok.mp hu).2.1, hany u hu⟩
  · rintro ⟨hlen, rfl⟩
    obtain ⟨u, hu⟩ := andFlags_returns hlen
    exact ⟨u, hu, by rw [hany u hu]; rfl⟩

theorem noneSetFlags_eq (f : FlagBit) (m : Mask) :
    f.noneSetFlags m = (f.isSetFlags m).map fun b => !b := by
  unfold noneSetFlags isSetFlags
  cases zipChars andChar f.flags.length f.flags m.tostring <;> rfl

theorem allSetFlags_eq_ok (hf : IsBits f.flags) {b : Bool} :
    f.allSetFlags m = .ok b ↔ f.width ≤ m.tostring.length ∧
      b = decide (∀ i < f.width, f.bit i ∧ digit m.tostring i) := by
  have hall : ∀ u, zipChars andChar f.width f.flags m.tostring = .ok u →
      (!anyOne (u.map notChar)) = decide (∀ i < f.width, f.bit i ∧ digit m.tostring i) := by
    intro u hu
    obtain ⟨hlen, hbits, hdigit⟩ := andFlags_eq_ok hf hu
    have hany : anyOne (u.map notChar) =
        decide (∃ i < (u.map notChar).length, ¬ (f.bit i ∧ digit m.tostring i)) := by
      refine anyOne_eq_decide fun i hi => ?_
      have hi : i < u.length := by simpa using hi
      rw [digit_map_notChar hbits hi, hdigit i (hlen ▸ hi), Bool.not_eq_true', ← Bool.and_eq_true,
        Bool.not_eq_true]
    rw [hany, List.length_map, hlen, ← decide_not]
    exact decide_eq_decide.mpr (by push Not; rfl)
  unfold allSetFlags
  rw [Outcome.bind_eq_ok]
  constructor
  · rintro ⟨u, hu, heq⟩
    cases heq
    exact ⟨(zipChars_eq_ok.mp hu).2.1, hall u hu⟩
  · rintro ⟨hlen, rfl⟩
    obtain ⟨u, hu⟩ := andFlags_returns hlen
    exact ⟨u, hu, by rw [hall u hu]; rfl⟩

/-- What a call that changes the flags leaves: flags of a width with the given bits. -/
def Leaves (f' : FlagBit) (w : ℕ) (p : ℕ → Bool) : Prop :=
  f'.width = w ∧ IsBits f'.flags ∧ ∀ i < w, f'.bit i = p i

theorem clearFlags_leaves (hf : IsBits f.flags) {f' : FlagBit} (h : f.clearFlags m = .ok f') :
    Leaves f' f.width fun i => f.bit i && !digit m.tostring i := by
  obtain ⟨u, hu, heq⟩ := Outcome.bind_eq_ok.mp h
  cases heq
  exact andNot_eq_ok hf hu

theorem setFlags_leaves (hf : IsBits f.flags) {f' : FlagBit} (h : f.setFlags m = .ok f') :
    Leaves f' m.rounds fun i => f.bit i || digit m.tostring i := by
  obtain ⟨u, hu, heq⟩ := Outcome.bind_eq_ok.mp h
  cases heq
  exact digitwise_orChar.zipChars hf (isBits_tostring m) hu

theorem setVal_leaves (hf : IsBits f.flags) {val : Bool} {f' : FlagBit}
    (h : f.setVal m val = .ok f') :
    Leaves f' f.width fun i => (f.bit i && !digit m.tostring i) || (val && digit m.tostring i) := by
  obtain ⟨s, hs, h⟩ := Outcome.bind_eq_ok.mp h
  obtain ⟨u, hu, heq⟩ := Outcome.bind_eq_ok.mp h
  cases heq
  obtain ⟨hlen, hbits, hdigit⟩ := andNot_eq_ok hf hs
  have hsecond : IsBits (if val then m.tostring else s.map fun _ => '0') := by
    cases val
    · exact isBits_map (fun _ => .inl rfl) s
    · exact isBits_tostring m
  obtain ⟨h1, h2, h3⟩ := digitwise_orChar.zipChars hbits hsecond hu
  refine ⟨h1.trans hlen, h2, fun i hi => ?_⟩
  refine (h3 i (hlen ▸ hi)).trans ?_
  rw [hdigit i hi]
  cases val
  · simp [digit, hlen, hi]
  · simp

theorem update_leaves (hf : IsBits f.flags) {flags : Mask} {f' : FlagBit}
    (h : f.update flags m = .ok f') : Leaves f' f.width f.bit := by
  obtain ⟨s, hs, h⟩ := Outcome.bind_eq_ok.mp h
  obtain ⟨s1, hs1, h⟩ := Outcome.bind_eq_ok.mp h
  obtain ⟨u, hu, heq⟩ := Outcome.bind_eq_ok.mp h
  cases heq
  obtain ⟨-, hbits, hdigit⟩ := andNot_eq_ok hf hs
  obtain ⟨-, hbits1, hdigit1⟩ := andFlags_eq_ok hf hs1
  obtain ⟨h1, h2, h3⟩ := digitwise_orChar.zipChars hbits hbits1 hu
  refine ⟨h1, h2, fun i hi => ?_⟩
  -- the flags out of the mask, and the flags in the mask
  refine (h3 i hi).trans ?_
  rw [hdigit i hi, hdigit1 i hi]
  cases f.bit i <;> cases digit m.tostring i <;> rfl

theorem clear_leaves (f : FlagBit) : Leaves f.clear f.width fun _ => false := by
  refine ⟨List.length_map _, isBits_map (fun _ => .inl rfl) _, fun i hi => ?_⟩
  have hi : i < f.flags.length := hi
  simp [bit, clear, digit, hi]

theorem clearFlags_returns : (∃ f', f.clearFlags m = .ok f') ↔ f.width ≤ m.tostring.length := by
  constructor
  · rintro ⟨f', h⟩
    obtain ⟨u, hu, -⟩ := Outcome.bind_eq_ok.mp h
    exact length_of_andNot hu
  · intro h
    obtain ⟨u, hu⟩ := andNot_returns h
    exact ⟨⟨u⟩, Outcome.bind_eq_ok.mpr ⟨u, hu, rfl⟩⟩

theorem setFlags_returns :
    (∃ f', f.setFlags m = .ok f') ↔ m.rounds ≤ f.width ∧ m.rounds ≤ m.tostring.length := by
  constructor
  · rintro ⟨f', h⟩
    obtain ⟨u, hu, -⟩ := Outcome.bind_eq_ok.mp h
    exact ⟨(zipChars_eq_ok.mp hu).1, (zipChars_eq_ok.mp hu).2.1⟩
  · rintro ⟨hw, hlen⟩
    obtain ⟨u, hu⟩ := zipChars_returns orChar hw hlen
    exact ⟨⟨u⟩, Outcome.bind_eq_ok.mpr ⟨u, hu, rfl⟩⟩

theorem setVal_returns (hf : IsBits f.flags) {val : Bool} :
    (∃ f', f.setVal m val = .ok f') ↔ f.width ≤ m.tostring.length := by
  constructor
  · rintro ⟨f', h⟩
    obtain ⟨u, hu, -⟩ := Outcome.bind_eq_ok.mp h
    exact length_of_andNot hu
  · intro h
    obtain ⟨s, hs⟩ := andNot_returns h
    have hlen := (andNot_eq_ok hf hs).1
    have hsecond : s.length ≤ (if val then m.tostring else s.map fun _ => '0').length := by
      cases val
      · simp
      · simpa [hlen] using h
    obtain ⟨u, hu⟩ := zipChars_returns orChar le_rfl hsecond
    exact ⟨⟨u⟩, Outcome.bind_eq_ok.mpr ⟨s, hs, Outcome.bind_eq_ok.mpr ⟨u, hu, rfl⟩⟩⟩

theorem update_returns (hf : IsBits f.flags) {flags : Mask} :
    (∃ f', f.update flags m = .ok f') ↔ f.width ≤ m.tostring.length := by
  constructor
  · rintro ⟨f', h⟩
    obtain ⟨u, hu, -⟩ := Outcome.bind_eq_ok.mp h
    exact length_of_andNot hu
  · intro h
    obtain ⟨s, hs⟩ := andNot_returns h
    obtain ⟨s1, hs1⟩ := andFlags_returns h
    obtain ⟨u, hu⟩ := zipChars_returns orChar (andNot_eq_ok hf hs).1.ge
      (andFlags_eq_ok hf hs1).1.ge
    exact ⟨⟨u⟩, Outcome.bind_eq_ok.mpr ⟨s, hs, Outcome.bind_eq_ok.mpr ⟨s1, hs1,
      Outcome.bind_eq_ok.mpr ⟨u, hu, rfl⟩⟩⟩⟩

/-! ### When a call is right -/

/-- A call with an answer is right when it answers as documented. -/
theorem rightAt_query {op : Op} {x : Outcome Bool} {a : Bool}
    (hrun : op.run f = x >>= fun b => pure (f, some b))
    (hbit : ∀ i, op.bitAfter f i = f.bit i) (hanswer : op.answer f = some a) :
    RightAt f op ↔ x = .ok a := by
  unfold RightAt
  rw [hrun, hanswer]
  constructor
  · rintro ⟨f', answer, h, -, -, rfl⟩
    obtain ⟨b, hb, heq⟩ := Outcome.bind_eq_ok.mp h
    cases heq
    exact hb
  · intro hx
    exact ⟨f, some a, Outcome.bind_eq_ok.mpr ⟨a, hx, rfl⟩, rfl, fun i _ => (hbit i).symm, rfl⟩

/-- A call that changes the flags is right when it returns, and leaves the documented bits. -/
theorem rightAt_change {op : Op} {x : Outcome FlagBit} {w : ℕ} {p : ℕ → Bool}
    (hrun : op.run f = x >>= fun f' => pure (f', none)) (hanswer : op.answer f = none)
    (hleaves : ∀ f', x = .ok f' → Leaves f' w p) :
    RightAt f op ↔
      (∃ f', x = .ok f') ∧ w = f.width ∧ ∀ i < f.width, p i = op.bitAfter f i := by
  unfold RightAt
  rw [hrun, hanswer]
  constructor
  · rintro ⟨f', answer, h, hwidth, hbits, -⟩
    obtain ⟨f'', hf'', heq⟩ := Outcome.bind_eq_ok.mp h
    cases heq
    obtain ⟨h1, -, h3⟩ := hleaves f' hf''
    have hw : w = f.width := h1.symm.trans hwidth
    exact ⟨⟨f', hf''⟩, hw, fun i hi => (h3 i (hw ▸ hi)).symm.trans (hbits i hi)⟩
  · rintro ⟨⟨f', hf'⟩, rfl, hp⟩
    obtain ⟨h1, -, h3⟩ := hleaves f' hf'
    refine ⟨f', none, Outcome.bind_eq_ok.mpr ⟨f', hf', rfl⟩, h1, fun i hi => ?_, rfl⟩
    exact (h3 i hi).trans (hp i hi)

theorem rightAt_isSet (f : FlagBit) : RightAt f .isSet := by
  refine (rightAt_query (x := .ok f.isSet) rfl (fun _ => rfl) rfl).mpr (congrArg Except.ok ?_)
  exact anyOne_eq_decide fun i _ => Iff.rfl

theorem rightAt_noneSet (f : FlagBit) : RightAt f .noneSet := by
  refine (rightAt_query (x := .ok f.noneSet) rfl (fun _ => rfl) rfl).mpr (congrArg Except.ok ?_)
  have hany : anyOne f.flags = decide (∃ i < f.width, f.bit i) := anyOne_eq_decide fun i _ => Iff.rfl
  rw [noneSet, hany, ← decide_not]
  exact decide_eq_decide.mpr (by push Not; rfl)

theorem rightAt_allSet (hf : IsBits f.flags) : RightAt f .allSet := by
  refine (rightAt_query (x := .ok f.allSet) rfl (fun _ => rfl) rfl).mpr (congrArg Except.ok ?_)
  have hany : anyOne (f.flags.map notChar) =
      decide (∃ i < (f.flags.map notChar).length, ¬ f.bit i = true) := by
    refine anyOne_eq_decide fun i hi => ?_
    rw [digit_map_notChar hf (by simpa using hi), Bool.not_eq_true', Bool.not_eq_true]
    rfl
  rw [allSet, hany, List.length_map, ← decide_not]
  exact decide_eq_decide.mpr (by push Not; rfl)

theorem rightAt_clear (f : FlagBit) : RightAt f .clear := by
  refine (rightAt_change (x := .ok f.clear) rfl rfl fun f' hf' => ?_).mpr
    ⟨⟨_, rfl⟩, rfl, fun i _ => rfl⟩
  cases hf'
  exact clear_leaves f

theorem rightAt_isSetFlags (hf : IsBits f.flags) :
    RightAt f (.isSetFlags m) ↔ f.width ≤ m.tostring.length ∧
      ((∃ i < f.width, f.bit i ∧ m.selects f.width i) ↔
        ∃ i < f.width, f.bit i ∧ digit m.tostring i) := by
  rw [rightAt_query (x := f.isSetFlags m) rfl (fun _ => rfl) rfl, isSetFlags_eq_ok hf,
    decide_eq_decide]

theorem rightAt_noneSetFlags :
    RightAt f (.noneSetFlags m) ↔ RightAt f (.isSetFlags m) := by
  have hanswer : Op.answer f (.noneSetFlags m) =
      some (!decide (∃ i < f.width, f.bit i ∧ m.selects f.width i)) := by
    rw [← decide_not]
    exact congrArg some (decide_eq_decide.mpr (by push Not; rfl))
  rw [rightAt_query (x := f.noneSetFlags m) rfl (fun _ => rfl) hanswer,
    rightAt_query (x := f.isSetFlags m) rfl (fun _ => rfl) rfl, noneSetFlags_eq]
  cases f.isSetFlags m with
  | error e => exact iff_of_false nofun nofun
  | ok b => simp [Except.map]

theorem rightAt_allSetFlags (hf : IsBits f.flags) :
    RightAt f (.allSetFlags m) ↔ f.width ≤ m.tostring.length ∧
      ((m.beyond f.width = false ∧ ∀ i < f.width, m.selects f.width i → f.bit i) ↔
        ∀ i < f.width, f.bit i ∧ digit m.tostring i) := by
  rw [rightAt_query (x := f.allSetFlags m) rfl (fun _ => rfl) rfl, allSetFlags_eq_ok hf,
    Bool.eq_iff_iff, Bool.and_eq_true, Bool.not_eq_true', decide_eq_true_iff, decide_eq_true_iff]

theorem rightAt_clearFlags (hf : IsBits f.flags) :
    RightAt f (.clearFlags m) ↔ f.width ≤ m.tostring.length ∧
      ∀ i < f.width, (f.bit i && !digit m.tostring i) = (f.bit i && !m.selects f.width i) := by
  rw [rightAt_change (x := f.clearFlags m) rfl rfl fun f' => clearFlags_leaves hf, clearFlags_returns]
  exact and_congr_right fun _ => and_iff_right rfl

theorem rightAt_setFlags (hf : IsBits f.flags) :
    RightAt f (.setFlags m) ↔ m.rounds = f.width ∧ f.width ≤ m.tostring.length ∧
      ∀ i < f.width, (f.bit i || digit m.tostring i) = (f.bit i || m.selects f.width i) := by
  rw [rightAt_change (x := f.setFlags m) rfl rfl fun f' => setFlags_leaves hf, setFlags_returns]
  constructor
  · rintro ⟨⟨-, hlen⟩, hw, hbits⟩
    exact ⟨hw, hw ▸ hlen, hbits⟩
  · rintro ⟨hw, hlen, hbits⟩
    exact ⟨⟨hw.le, hw ▸ hlen⟩, hw, hbits⟩

theorem rightAt_setVal (hf : IsBits f.flags) {val : Bool} :
    RightAt f (.setVal m val) ↔ f.width ≤ m.tostring.length ∧
      ∀ i < f.width, ((f.bit i && !digit m.tostring i) || (val && digit m.tostring i)) =
        ((f.bit i && !m.selects f.width i) || (val && m.selects f.width i)) := by
  rw [rightAt_change (x := f.setVal m val) rfl rfl fun f' => setVal_leaves hf, setVal_returns hf]
  exact and_congr_right fun _ => and_iff_right rfl

theorem rightAt_update (hf : IsBits f.flags) {flags : Mask} :
    RightAt f (.update flags m) ↔ f.width ≤ m.tostring.length ∧
      ∀ i < f.width, f.bit i =
        ((f.bit i && !m.selects f.width i) || (flags.selects f.width i && m.selects f.width i)) := by
  rw [rightAt_change (x := f.update flags m) rfl rfl fun f' => update_leaves hf, update_returns hf]
  exact and_congr_right fun _ => and_iff_right rfl

/-- Flags with the given bits. -/
def make (w : ℕ) (p : ℕ → Bool) : FlagBit :=
  ⟨(List.range w).map fun i => if p i then '1' else '0'⟩

theorem isBits_make (w : ℕ) (p : ℕ → Bool) : IsBits (make w p).flags :=
  isBits_map (fun i => by cases p i <;> simp) _

@[simp] theorem width_make (w : ℕ) (p : ℕ → Bool) : (make w p).width = w := by
  simp [width, make]

theorem bit_make {p : ℕ → Bool} (hi : i < w) : (make w p).bit i = p i := by
  rw [bit, make, digit_map_range, decide_eq_true hi, Bool.true_and]

theorem isSetFlags_fits (h : ∀ f : FlagBit, IsBits f.flags → f.width = w → RightAt f (.isSetFlags m)) :
    m.Aligned w := by
  have hright : ∀ p : ℕ → Bool, w ≤ m.tostring.length ∧
      ((∃ i < w, p i ∧ m.selects w i) ↔ ∃ i < w, p i ∧ digit m.tostring i) := by
    intro p
    have h := (rightAt_isSetFlags (isBits_make w p)).mp (h _ (isBits_make w p) (width_make w p))
    rw [width_make] at h
    refine ⟨h.1, ?_⟩
    have hbit : ∀ q : ℕ → Bool,
        (∃ i < w, (make w p).bit i ∧ q i) ↔ ∃ i < w, p i ∧ q i := fun q =>
      exists_congr fun i => and_congr_right fun hi => by rw [bit_make hi]
    rw [← hbit, ← hbit]
    exact h.2
  refine ⟨(hright fun _ => true).1, fun i hi => ?_⟩
  -- the flags of which only the one at `i` is set
  have hone : ∀ q : ℕ → Bool, (∃ j < w, decide (j = i) ∧ q j) ↔ q i = true := by
    intro q
    constructor
    · rintro ⟨j, -, hj, hq⟩
      exact of_decide_eq_true hj ▸ hq
    · exact fun hq => ⟨i, hi, decide_eq_true rfl, hq⟩
  rw [Bool.eq_iff_iff, ← hone (m.selects w), ← hone (digit m.tostring)]
  exact (hright fun j => decide (j = i)).2.symm

theorem allSetFlags_fits
    (h : ∀ f : FlagBit, IsBits f.flags → f.width = w → RightAt f (.allSetFlags m)) :
    Op.Fits w (.allSetFlags m) := by
  have hright : ∀ p : ℕ → Bool, w ≤ m.tostring.length ∧
      ((m.beyond w = false ∧ ∀ i < w, m.selects w i → p i) ↔
        ∀ i < w, p i ∧ digit m.tostring i) := by
    intro p
    have h := (rightAt_allSetFlags (isBits_make w p)).mp (h _ (isBits_make w p) (width_make w p))
    rw [width_make] at h
    refine ⟨h.1, ?_⟩
    have hleft : (∀ i < w, m.selects w i → (make w p).bit i) ↔ ∀ i < w, m.selects w i → p i :=
      forall₂_congr fun i hi => by rw [bit_make hi]
    have hdigits : (∀ i < w, (make w p).bit i ∧ digit m.tostring i) ↔
        ∀ i < w, p i ∧ digit m.tostring i :=
      forall₂_congr fun i hi => by rw [bit_make hi]
    rw [← hleft, ← hdigits]
    exact h.2
  refine ⟨(hright fun _ => true).1, ?_⟩
  split_ifs with hbeyond
  · -- all flags are set
    have hall := (hright fun _ => true).2
    by_contra hnone
    push Not at hnone
    exact absurd (hall.mpr fun i hi => ⟨rfl, by simpa using hnone i hi⟩).1 (by simp [hbeyond])
  · -- the flags of the mask are set
    intro i hi
    exact (hright (m.selects w)).2.mp ⟨by simpa using hbeyond, fun _ _ hj => hj⟩ i hi

/-- **A call is right on all flags of a width exactly when it fits the width.** -/
theorem fits_iff (w : ℕ) (op : Op) :
    (∀ f : FlagBit, IsBits f.flags → f.width = w → RightAt f op) ↔ op.Fits w := by
  cases op with
  | isSet => exact iff_of_true (fun f _ _ => rightAt_isSet f) trivial
  | noneSet => exact iff_of_true (fun f _ _ => rightAt_noneSet f) trivial
  | allSet => exact iff_of_true (fun f hf _ => rightAt_allSet hf) trivial
  | clear => exact iff_of_true (fun f _ _ => rightAt_clear f) trivial
  | isSetFlags m =>
    refine ⟨isSetFlags_fits, ?_⟩
    rintro ⟨hlen, hdigit⟩ f hf rfl
    refine (rightAt_isSetFlags hf).mpr ⟨hlen, exists_congr fun i => and_congr_right fun hi => ?_⟩
    rw [hdigit i hi]
  | noneSetFlags m =>
    refine ⟨fun h => isSetFlags_fits fun f hf hw => rightAt_noneSetFlags.mp (h f hf hw), ?_⟩
    rintro ⟨hlen, hdigit⟩ f hf rfl
    refine rightAt_noneSetFlags.mpr ((rightAt_isSetFlags hf).mpr
      ⟨hlen, exists_congr fun i => and_congr_right fun hi => ?_⟩)
    rw [hdigit i hi]
  | allSetFlags m =>
    refine ⟨allSetFlags_fits, ?_⟩
    rintro ⟨hlen, hfits⟩ f hf rfl
    refine (rightAt_allSetFlags hf).mpr ⟨hlen, ?_⟩
    split_ifs at hfits with hbeyond
    · obtain ⟨i, hi, hzero⟩ := hfits
      refine iff_of_false (fun h => by simp [hbeyond] at h) fun h => ?_
      exact absurd (h i hi).2 (by simp [hzero])
    · constructor
      · exact fun h i hi => ⟨h.2 i hi (hfits i hi).1, (hfits i hi).2⟩
      · exact fun h => ⟨by simpa using hbeyond, fun i hi _ => (h i hi).1⟩
  | clearFlags m =>
    constructor
    · intro h
      have h := (rightAt_clearFlags (isBits_make w _)).mp
        (h (make w fun _ => true) (isBits_make w _) (width_make w _))
      rw [width_make] at h
      refine ⟨h.1, fun i hi => ?_⟩
      simpa [bit_make hi] using h.2 i hi
    · rintro ⟨hlen, hdigit⟩ f hf rfl
      exact (rightAt_clearFlags hf).mpr ⟨hlen, fun i hi => by rw [hdigit i hi]⟩
  | setFlags m =>
    constructor
    · intro h
      have h := (rightAt_setFlags (isBits_make w _)).mp
        (h (make w fun _ => false) (isBits_make w _) (width_make w _))
      rw [width_make] at h
      refine ⟨h.1, h.2.1, fun i hi => ?_⟩
      simpa [bit_make hi] using h.2.2 i hi
    · rintro ⟨hrounds, hlen, hdigit⟩ f hf rfl
      exact (rightAt_setFlags hf).mpr ⟨hrounds, hlen, fun i hi => by rw [hdigit i hi]⟩
  | setVal m val =>
    constructor
    · intro h
      have h := (rightAt_setVal (isBits_make w _)).mp
        (h (make w fun _ => !val) (isBits_make w _) (width_make w _))
      rw [width_make] at h
      refine ⟨h.1, fun i hi => ?_⟩
      have hbits := h.2 i hi
      rw [bit_make hi] at hbits
      cases val
      · simpa using hbits
      · simpa using hbits
    · rintro ⟨hlen, hdigit⟩ f hf rfl
      exact (rightAt_setVal hf).mpr ⟨hlen, fun i hi => by rw [hdigit i hi]⟩
  | update flags m =>
    constructor
    · intro h
      have h := (rightAt_update (isBits_make w _)).mp
        (h (make w fun i => !flags.selects w i) (isBits_make w _) (width_make w _))
      rw [width_make] at h
      refine ⟨h.1, fun i hi => ?_⟩
      -- flags that differ from the new ones everywhere
      have hbits := h.2 i hi
      rw [bit_make hi] at hbits
      cases hsel : m.selects w i with
      | false => rfl
      | true => cases hflag : flags.selects w i <;> simp [hsel, hflag] at hbits
    · rintro ⟨hlen, hnone⟩ f hf rfl
      exact (rightAt_update hf).mpr ⟨hlen, fun i hi => by simp [hnone i hi]⟩

/-- A call leaves a base-two text. -/
theorem isBits_step (hf : IsBits f.flags) {op : Op} {f' : FlagBit} (h : step f op = .ok f') :
    IsBits f'.flags := by
  obtain ⟨⟨f'', answer⟩, hrun, heq⟩ := Outcome.bind_eq_ok.mp h
  cases heq
  cases op with
  | isSet | allSet | noneSet =>
    cases hrun
    exact hf
  | isSetFlags m | allSetFlags m | noneSetFlags m =>
    obtain ⟨b, -, heq⟩ := Outcome.bind_eq_ok.mp hrun
    cases heq
    exact hf
  | clear =>
    cases hrun
    exact (clear_leaves f).2.1
  | clearFlags m =>
    obtain ⟨f'', hf'', heq⟩ := Outcome.bind_eq_ok.mp hrun
    cases heq
    exact (clearFlags_leaves hf hf'').2.1
  | setFlags m =>
    obtain ⟨f'', hf'', heq⟩ := Outcome.bind_eq_ok.mp hrun
    cases heq
    exact (setFlags_leaves hf hf'').2.1
  | setVal m val =>
    obtain ⟨f'', hf'', heq⟩ := Outcome.bind_eq_ok.mp hrun
    cases heq
    exact (setVal_leaves hf hf'').2.1
  | update flags m =>
    obtain ⟨f'', hf'', heq⟩ := Outcome.bind_eq_ok.mp hrun
    cases heq
    exact (update_leaves hf hf'').2.1

/-- A right call keeps the width. -/
theorem RightAt.width_step {op : Op} (h : RightAt f op) {f' : FlagBit} (hstep : step f op = .ok f') :
    f'.width = f.width := by
  obtain ⟨f'', answer, hrun, hwidth, -, -⟩ := h
  rw [step, hrun] at hstep
  cases hstep
  exact hwidth

/-- **The calls of a set are right along all runs** exactly when each of them fits the width. -/
theorem meetsSpec_iff (w : ℕ) (O : Set Op) : MeetsSpec w O ↔ ∀ op ∈ O, op.Fits w := by
  constructor
  · intro h op hop
    refine (fits_iff w op).mp fun f hf hw => ?_
    exact (h f hf hw [op] (by simpa using hop)).1
  · intro h f hf hw ops hops
    induction ops generalizing f with
    | nil => trivial
    | cons op ops ih =>
      have hright : RightAt f op :=
        (fits_iff w op).mpr (h op (hops op List.mem_cons_self)) f hf hw
      refine ⟨hright, fun f' hf' => ?_⟩
      exact ih f' (isBits_step hf hf') ((hright.width_step hf').trans hw)
        fun op' hop' => hops op' (List.mem_cons_of_mem op hop')

/-! ### Numbers and flags -/

/-- Below a byte that is not zero, every byte of the number is at least 128. -/
def Padded (x : UInt64) : Prop := (getBytes x).Pairwise fun low high => high ≠ 0 → 128 ≤ low

instance (x : UInt64) : Decidable (Padded x) :=
  inferInstanceAs (Decidable ((getBytes x).Pairwise fun low high => high ≠ 0 → 128 ≤ low))

/-- The number comes back from the flags made of it, and so do flags from the number they stand for. -/
def RoundTrips (x : UInt64) : Prop := (ofMask (.uint64 x)).toUInt64 = .ok x

def ComesBack (f : FlagBit) : Prop := ∃ x, f.toUInt64 = .ok x ∧ ofMask (.uint64 x) = f

theorem value_uint64 (x : UInt64) : value (Mask.uint64 x).tostring = x.toNat ↔ Padded x := by
  rw [← number_getBytes x]
  exact value_byteText_eq_iff (getBytes x)

theorem tostring_uint64_ne_nil (x : UInt64) : (Mask.uint64 x).tostring ≠ [] := by
  have hbyte : byteText (getBytes x) =
      byteText (bytes 7 (x.toNat / 256)) ++ toString2 (UInt8.ofNat x.toNat) := byteText_cons _ _
  rw [Mask.tostring, hbyte]
  intro hnil
  exact absurd (List.append_eq_nil_iff.mp hnil).2 (Nat.toDigits_ne_nil)

/-- **A number comes back exactly when its bytes are padded.** -/
theorem roundTrips_iff (x : UInt64) : RoundTrips x ↔ Padded x := by
  have hle : value (Mask.uint64 x).tostring ≤ x.toNat := by
    rw [← number_getBytes x]
    exact value_byteText_le (getBytes x)
  have hlt : value (Mask.uint64 x).tostring < 2 ^ 64 := hle.trans_lt x.toNat_lt
  have hread : (ofMask (.uint64 x)).toUInt64 = .ok (UInt64.ofNat (value (Mask.uint64 x).tostring)) := by
    rw [toUInt64, ofMask, CSharp.toUInt64, if_neg (tostring_uint64_ne_nil x),
      if_neg (not_not.mpr (isBits_tostring _)), if_neg hlt.not_ge]
  rw [RoundTrips, hread, Except.ok.injEq, ← value_uint64, ← UInt64.toNat_inj,
    UInt64.toNat_ofNat_of_lt' hlt]

/-- Flags come back exactly when they are made of a padded number. -/
theorem comesBack_iff (f : FlagBit) : ComesBack f ↔ ∃ x, Padded x ∧ f = ofMask (.uint64 x) := by
  constructor
  · rintro ⟨x, hx, rfl⟩
    exact ⟨x, (roundTrips_iff x).mp hx, rfl⟩
  · rintro ⟨x, hx, rfl⟩
    exact ⟨x, (roundTrips_iff x).mpr hx, rfl⟩

end FlagBit

end PIMSim
