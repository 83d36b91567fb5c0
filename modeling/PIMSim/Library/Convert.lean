import Mathlib.Algebra.Group.Int.Defs
import Mathlib.Algebra.Group.Nat.Defs
import PIMSim.Library.Text

/-!
# Values of texts

The conversions of the managed runtime from texts to numbers and truth values.

## Main definitions

* `parseInteger lo hi s`: the number of a text, for an integer type with the values from `lo` to `hi`
* `parseBool s`: the truth value of a text

## Main results

* `parseInteger_remove`, `parseBool_remove`: a text stands for the same without its blanks
* `mem_of_parseInteger`, `mem_of_parseBool`: the characters of numbers and truth values
-/

namespace CSharp

/-- `Parse` of an integer type with the values from `lo` to `hi`. -/
def parseInteger (lo hi : Int) (s : List Char) : Outcome Int :=
  let (negative, s) := takeSign (s.dropWhile isNumberWhite)
  let digits := s.takeWhile Char.isDigit
  let rest := (s.dropWhile Char.isDigit).dropWhile isNumberWhite
  if digits = [] ∨ (rest.any fun c => c != Char.ofNat 0) then .error .format
  else
    let n : Int := Nat.ofDigitChars 10 digits 0
    let v := if negative then -n else n
    if v < lo ∨ hi < v then .error .overflow else .ok v

/-- `UInt32.Parse(s)`. -/
def parseUInt32 (s : List Char) : Outcome UInt32 :=
  (parseInteger 0 (2 ^ 32 - 1) s).map fun n => UInt32.ofNat n.toNat

/-- What `Boolean.Parse` leaves out at the ends. -/
def isBoolWhite (c : Char) : Bool := isWhiteSpace c || c == Char.ofNat 0

/-- `Boolean.Parse(s)`. -/
def parseBool (s : List Char) : Outcome Bool :=
  let word := ((s.dropWhile isBoolWhite).rdropWhile isBoolWhite).map Char.toLower
  if word = "true".toList then .ok true
  else if word = "false".toList then .ok false
  else .error .format

/-! ### Blanks -/

variable {s : List Char}

/-- Leaving out a character. -/
theorem remove_singleton (x : Char) (s : List Char) : remove [x] s = s.filter fun c => c ≠ x := by
  unfold remove
  induction s with
  | nil => rfl
  | cons c s ih =>
    have hfront : [x].isPrefixOf (c :: s) = (x == c) := by simp [List.isPrefixOf]
    rw [removeFrom, hfront, List.filter_cons]
    by_cases hx : x = c
    · rw [if_pos (beq_iff_eq.mpr hx), if_neg (by simp [hx])]
      exact ih
    · rw [if_neg (by simp [hx]), if_pos (by simp [Ne.symm hx]), ih]

/-- What is dropped from the front of a text, when some of it is left out before. -/
theorem dropWhile_filter {p q : Char → Bool} (h : ∀ c, q c = false → p c = true) (s : List Char) :
    (s.filter q).dropWhile p = (s.dropWhile p).filter q := by
  induction s with
  | nil => rfl
  | cons c s ih =>
    by_cases hp : p c = true
    · rw [List.dropWhile_cons_of_pos hp, ← ih]
      by_cases hq : q c = true
      · rw [List.filter_cons_of_pos hq, List.dropWhile_cons_of_pos hp]
      · rw [List.filter_cons_of_neg hq]
    · have hq : q c = true := by
        by_contra hq
        exact hp (h c (Bool.eq_false_iff.mpr hq))
      rw [List.dropWhile_cons_of_neg hp, List.filter_cons_of_pos hq, List.dropWhile_cons_of_neg hp]

theorem isDigit_of_white {c : Char} (h : isNumberWhite c = true) : c.isDigit = false := by
  rw [Bool.eq_false_iff]
  intro hdigit
  rw [Char.isDigit_iff_toNat] at hdigit
  have hblank : c ≠ ' ' := fun hx => absurd (hx ▸ hdigit.1) (by decide)
  have hzero : '0'.toNat = 48 := rfl
  simp [isNumberWhite, hblank] at h
  omega

/-- A sign is found when the blanks behind the first character are left out. -/
theorem takeSign_filter {q : Char → Bool} (h : ∀ c ∈ s.head?, q c = true) :
    takeSign (s.filter q) = ((takeSign s).1, (takeSign s).2.filter q) := by
  cases s with
  | nil => rfl
  | cons c s =>
    have hq : q c = true := h c rfl
    rw [List.filter_cons_of_pos hq, takeSign, takeSign]
    split_ifs
    · rfl
    · rfl
    · rw [List.filter_cons_of_pos hq]

/-- The digits in front of a text do not change when something else is left out. -/
theorem digits_filter {q : Char → Bool} (hdigit : ∀ c, c.isDigit = true → q c = true)
    (hrest : ∀ c ∈ s.dropWhile Char.isDigit, c.isDigit = false) :
    (s.filter q).takeWhile Char.isDigit = s.takeWhile Char.isDigit ∧
      (s.filter q).dropWhile Char.isDigit = (s.dropWhile Char.isDigit).filter q := by
  have hfront : ∀ c ∈ s.takeWhile Char.isDigit, c.isDigit = true := fun c hc =>
    List.mem_takeWhile_imp hc
  have hback : ∀ c ∈ (s.dropWhile Char.isDigit).filter q, c.isDigit = false := fun c hc =>
    hrest c (List.mem_of_mem_filter hc)
  have hfilter : s.filter q = s.takeWhile Char.isDigit ++ (s.dropWhile Char.isDigit).filter q := by
    conv_lhs => rw [← List.takeWhile_append_dropWhile (p := Char.isDigit) (l := s)]
    rw [List.filter_append, List.filter_eq_self.mpr fun c hc => hdigit c (hfront c hc)]
  rw [hfilter]
  generalize hr : (s.dropWhile Char.isDigit).filter q = r at hback ⊢
  constructor
  · rw [List.takeWhile_append_of_pos hfront]
    cases r with
    | nil => simp
    | cons c r => simp [hback c List.mem_cons_self]
  · rw [List.dropWhile_append_of_pos hfront]
    cases r with
    | nil => rfl
    | cons c r => simp [hback c List.mem_cons_self]

/-- Nothing but white space and null characters is behind the digits of a number. -/
theorem not_digit_of_rest {rest : List Char}
    (h : (rest.dropWhile isNumberWhite).any (fun c => c != Char.ofNat 0) = false) :
    ∀ c ∈ rest, c.isDigit = false := by
  intro c hc
  rw [← List.takeWhile_append_dropWhile (p := isNumberWhite) (l := rest), List.mem_append] at hc
  rcases hc with hc | hc
  · exact isDigit_of_white (List.mem_takeWhile_imp hc)
  · have hnull : c = Char.ofNat 0 := by simpa using List.any_eq_false.mp h c hc
    rw [hnull]
    decide

theorem isNumberWhite_of_blank : ∀ c : Char, decide (c ≠ ' ') = false → isNumberWhite c = true := by
  intro c hc
  have hc : c = ' ' := by simpa using hc
  subst hc
  decide

/-- **The blanks of a number** do not matter. -/
theorem parseInteger_remove {lo hi v : Int} (h : parseInteger lo hi s = .ok v) :
    parseInteger lo hi (remove [' '] s) = .ok v := by
  have hhead : ∀ c ∈ (s.dropWhile isNumberWhite).head?, decide (c ≠ ' ') = true := by
    intro c hc
    have hwhite := List.head?_dropWhile_not isNumberWhite s
    rw [Option.mem_def.mp hc] at hwhite
    rw [decide_eq_true_iff]
    rintro rfl
    cases hwhite
  have hdigit : ∀ c : Char, c.isDigit = true → decide (c ≠ ' ') = true := by
    intro c hc
    rw [decide_eq_true_iff]
    rintro rfl
    cases hc
  unfold parseInteger at h ⊢
  rw [remove_singleton, dropWhile_filter isNumberWhite_of_blank, takeSign_filter hhead]
  dsimp only at h ⊢
  generalize takeSign (s.dropWhile isNumberWhite) = signed at h ⊢
  obtain ⟨negative, u⟩ := signed
  dsimp only at h ⊢
  by_cases hformat : u.takeWhile Char.isDigit = [] ∨
      ((u.dropWhile Char.isDigit).dropWhile isNumberWhite).any (fun c => c != Char.ofNat 0) = true
  · rw [if_pos hformat] at h
    cases h
  · rw [if_neg hformat] at h
    obtain ⟨hne, hnull⟩ := not_or.mp hformat
    have hrest := not_digit_of_rest (Bool.eq_false_iff.mpr hnull)
    obtain ⟨htake, hdrop⟩ := digits_filter (q := fun c => decide (c ≠ ' ')) hdigit hrest
    rw [htake, hdrop, dropWhile_filter isNumberWhite_of_blank, if_neg]
    · exact h
    · refine not_or.mpr ⟨hne, ?_⟩
      rw [Bool.not_eq_true, List.any_eq_false] at hnull ⊢
      exact fun c hc => hnull c (List.mem_of_mem_filter hc)

/-- The characters of a number. -/
theorem mem_of_parseInteger {lo hi v : Int} (h : parseInteger lo hi s = .ok v) {c : Char} (hc : c ∈ s) :
    isNumberWhite c = true ∨ c = '-' ∨ c = '+' ∨ c.isDigit = true ∨ c = Char.ofNat 0 := by
  rw [← List.takeWhile_append_dropWhile (p := isNumberWhite) (l := s), List.mem_append] at hc
  rcases hc with hc | hc
  · exact Or.inl (List.mem_takeWhile_imp hc)
  · have hsign : c = '-' ∨ c = '+' ∨ c ∈ (takeSign (s.dropWhile isNumberWhite)).2 := by
      cases hs : s.dropWhile isNumberWhite with
      | nil =>
        rw [hs] at hc
        cases hc
      | cons d t =>
        rw [hs] at hc
        rw [takeSign]
        split_ifs with hminus hplus
        · rcases List.mem_cons.mp hc with rfl | hc
          · exact Or.inl hminus
          · exact Or.inr (Or.inr hc)
        · rcases List.mem_cons.mp hc with rfl | hc
          · exact Or.inr (Or.inl hplus)
          · exact Or.inr (Or.inr hc)
        · exact Or.inr (Or.inr hc)
    rcases hsign with hminus | hplus | hc
    · exact Or.inr (Or.inl hminus)
    · exact Or.inr (Or.inr (Or.inl hplus))
    · unfold parseInteger at h
      dsimp only at h
      generalize takeSign (s.dropWhile isNumberWhite) = signed at h hc
      obtain ⟨negative, u⟩ := signed
      dsimp only at h hc
      split_ifs at h with hformat
      all_goals
        obtain ⟨-, hnull⟩ := not_or.mp hformat
        rw [Bool.not_eq_true, List.any_eq_false] at hnull
        rw [← List.takeWhile_append_dropWhile (p := Char.isDigit) (l := u), List.mem_append,
          ← List.takeWhile_append_dropWhile (p := isNumberWhite) (l := u.dropWhile Char.isDigit),
          List.mem_append] at hc
        rcases hc with hc | hc | hc
        · exact Or.inr (Or.inr (Or.inr (Or.inl (List.mem_takeWhile_imp hc))))
        · exact Or.inl (List.mem_takeWhile_imp hc)
        · exact Or.inr (Or.inr (Or.inr (Or.inr (by simpa using hnull c hc))))

/-! ### Truth values -/

theorem isBoolWhite_of_blank : ∀ c : Char, decide (c ≠ ' ') = false → isBoolWhite c = true := by
  intro c hc
  have hc : c = ' ' := by simpa using hc
  subst hc
  decide

/-- The word of a text without blanks. -/
theorem word_remove (s : List Char) :
    ((remove [' '] s).dropWhile isBoolWhite).rdropWhile isBoolWhite =
      remove [' '] ((s.dropWhile isBoolWhite).rdropWhile isBoolWhite) := by
  rw [remove_singleton, remove_singleton, List.rdropWhile, List.rdropWhile,
    dropWhile_filter isBoolWhite_of_blank, ← List.filter_reverse, dropWhile_filter isBoolWhite_of_blank,
    ← List.filter_reverse]

/-- The word of a truth value. -/
theorem word_of_parseBool {b : Bool} (h : parseBool s = .ok b) :
    ((s.dropWhile isBoolWhite).rdropWhile isBoolWhite).map Char.toLower = "true".toList ∨
      ((s.dropWhile isBoolWhite).rdropWhile isBoolWhite).map Char.toLower = "false".toList := by
  unfold parseBool at h
  dsimp only at h
  split_ifs at h with htrue hfalse
  · exact Or.inl htrue
  · exact Or.inr hfalse

/-- **The blanks of a truth value** do not matter. -/
theorem parseBool_remove {b : Bool} (h : parseBool s = .ok b) : parseBool (remove [' '] s) = .ok b := by
  have hblank : ' ' ∉ (s.dropWhile isBoolWhite).rdropWhile isBoolWhite := by
    intro hmem
    have hlower := List.mem_map_of_mem (f := Char.toLower) hmem
    rcases word_of_parseBool h with hword | hword
    · rw [hword] at hlower
      exact absurd hlower (by decide)
    · rw [hword] at hlower
      exact absurd hlower (by decide)
  have hsame : remove [' '] ((s.dropWhile isBoolWhite).rdropWhile isBoolWhite) =
      (s.dropWhile isBoolWhite).rdropWhile isBoolWhite := by
    rw [remove_singleton, List.filter_eq_self]
    intro c hc
    rw [decide_eq_true_iff]
    rintro rfl
    exact hblank hc
  unfold parseBool at h ⊢
  rw [word_remove, hsame]
  exact h

/-- The characters of a truth value. -/
theorem mem_of_parseBool {b : Bool} (h : parseBool s = .ok b) {c : Char} (hc : c ∈ s) :
    isBoolWhite c = true ∨ c.toLower ∈ "true".toList ∨ c.toLower ∈ "false".toList := by
  rw [← List.takeWhile_append_dropWhile (p := isBoolWhite) (l := s), List.mem_append] at hc
  rcases hc with hc | hc
  · exact Or.inl (List.mem_takeWhile_imp hc)
  · rw [← List.rdropWhile_append_rtakeWhile (p := isBoolWhite) (l := s.dropWhile isBoolWhite),
      List.mem_append] at hc
    rcases hc with hc | hc
    · have hlower := List.mem_map_of_mem (f := Char.toLower) hc
      rcases word_of_parseBool h with hword | hword
      · exact Or.inr (Or.inl (hword ▸ hlower))
      · exact Or.inr (Or.inr (hword ▸ hlower))
    · exact Or.inl (List.mem_rtakeWhile_imp hc)

end CSharp
