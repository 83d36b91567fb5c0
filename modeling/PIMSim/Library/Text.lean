import Mathlib.Algebra.Group.Nat.Defs
import Mathlib.Data.List.DropRight
import Mathlib.Data.List.Infix
import PIMSim.Library.Outcome

/-!
# Texts

Operations of the managed runtime on texts: blanks at the ends, parts between separators, parts that
are left out, and numbers. A text is the list of its characters.

## Main definitions

* `trim s`: the text without white space at its ends
* `remove p s`: the text without the occurrences of `p`
* `parseUInt64 s`, `parseHexUInt64 s`: the numbers of a text
* `appendLast x parts`: the parts with a character behind the last one

## Main results

* `mem_iff_splitOn`: the characters of a text and of its parts
* `splitOn_append_singleton`: the parts of a text with another character behind it
* `remove_append_singleton`: leaving out is not affected by a character that is not in the pattern
* `parseUInt64_append`, `parseHexUInt64_append`: a character that no number contains
* `parseUInt64_digits`, `parseHexUInt64_digits`: texts of digits
-/

namespace CSharp

variable {s t p : List Char} {x sep : Char}

/-- `char.IsWhiteSpace(c)`. -/
def isWhiteSpace (c : Char) : Bool :=
  let n := c.toNat
  (decide (0x9 ≤ n) && decide (n ≤ 0xD)) || (decide (0x2000 ≤ n) && decide (n ≤ 0x200A)) ||
    [0x20, 0x85, 0xA0, 0x1680, 0x2028, 0x2029, 0x202F, 0x205F, 0x3000].contains n

/-- The white space that a number may have at its ends. -/
def isNumberWhite (c : Char) : Bool :=
  c == ' ' || (decide (0x9 ≤ c.toNat) && decide (c.toNat ≤ 0xD))

theorem isWhiteSpace_blank : isWhiteSpace ' ' = true := rfl

/-- `s.TrimEnd()`. -/
def trimEnd (s : List Char) : List Char := s.rdropWhile isWhiteSpace

/-- `s.Trim()`. -/
def trim (s : List Char) : List Char := trimEnd (s.dropWhile isWhiteSpace)

/-- What is left of a text without the first `k` characters, when the occurrences of `p` behind them
are left out. -/
def removeFrom (p : List Char) : ℕ → List Char → List Char
  | _, [] => []
  | k + 1, _ :: s => removeFrom p k s
  | 0, c :: s =>
    if p.isPrefixOf (c :: s) then removeFrom p (p.length - 1) s else c :: removeFrom p 0 s

/-- `s.Replace(p, "")`. -/
def remove (p s : List Char) : List Char := removeFrom p 0 s

/-- The value of a base-sixteen digit. -/
def hexValue (c : Char) : Option ℕ :=
  if '0' ≤ c ∧ c ≤ '9' then some (c.toNat - '0'.toNat)
  else if 'a' ≤ c ∧ c ≤ 'f' then some (c.toNat - 'a'.toNat + 10)
  else if 'A' ≤ c ∧ c ≤ 'F' then some (c.toNat - 'A'.toNat + 10)
  else none

/-- The value of base-sixteen digits behind the value `v`. -/
def hexNumber (v : ℕ) : List Char → ℕ
  | [] => v
  | c :: s => hexNumber (v * 16 + (hexValue c).getD 0) s

/-- The number that `digits` with the text `rest` behind them stand for. Null characters may follow. -/
def readNumber (v : ℕ) (digits rest : List Char) : Outcome UInt64 :=
  if digits = [] ∨ (rest.any fun c => c != Char.ofNat 0) then .error .format
  else if 2 ^ 64 ≤ v then .error .overflow
  else .ok (UInt64.ofNat v)

/-- `UInt64.Parse(s, NumberStyles.AllowHexSpecifier)`. -/
def parseHexUInt64 (s : List Char) : Outcome UInt64 :=
  let digits := s.takeWhile fun c => (hexValue c).isSome
  readNumber (hexNumber 0 digits) digits (s.dropWhile fun c => (hexValue c).isSome)

/-- The sign in front of a number, and what is behind it. -/
def takeSign : List Char → Bool × List Char
  | [] => (false, [])
  | c :: s => if c = '-' then (true, s) else if c = '+' then (false, s) else (false, c :: s)

/-- `UInt64.Parse(s)`. -/
def parseUInt64 (s : List Char) : Outcome UInt64 := do
  let (negative, s) := takeSign (s.dropWhile isNumberWhite)
  let digits := s.takeWhile Char.isDigit
  let rest := (s.dropWhile Char.isDigit).dropWhile isNumberWhite
  let v ← readNumber (Nat.ofDigitChars 10 digits 0) digits rest
  if negative ∧ v ≠ 0 then .error .overflow
  return v

/-! ### A character behind a text -/

/-- The parts with a character behind the last one. -/
def appendLast (x : Char) : List (List Char) → List (List Char)
  | [] => []
  | [s] => [s ++ [x]]
  | s :: t :: parts => s :: appendLast x (t :: parts)

theorem length_appendLast (x : Char) (parts : List (List Char)) :
    (appendLast x parts).length = parts.length := by
  induction parts with
  | nil => rfl
  | cons s parts ih =>
    cases parts with
    | nil => rfl
    | cons t parts => simpa [appendLast] using ih

theorem appendLast_modifyHead (x : Char) (f : List Char → List Char)
    (hf : ∀ s, f (s ++ [x]) = f s ++ [x]) (parts : List (List Char)) :
    appendLast x (parts.modifyHead f) = (appendLast x parts).modifyHead f := by
  cases parts with
  | nil => rfl
  | cons s parts =>
    cases parts with
    | nil => simp [appendLast, hf]
    | cons t parts => rfl

/-- **The parts of a text** with another character behind it. -/
theorem splitOn_append_singleton (hx : x ≠ sep) (s : List Char) :
    (s ++ [x]).splitOn sep = appendLast x (s.splitOn sep) := by
  induction s with
  | nil => simp [List.splitOn_cons_eq_if_modifyHead, hx, appendLast]
  | cons c s ih =>
    rw [List.cons_append, List.splitOn_cons_eq_if_modifyHead, List.splitOn_cons_eq_if_modifyHead, ih]
    split_ifs
    · cases hparts : s.splitOn sep with
      | nil => exact absurd hparts (List.splitOn_ne_nil sep s)
      | cons t parts => rfl
    · exact (appendLast_modifyHead x _ (fun _ => rfl) _).symm

/-- The characters of a text are those of its parts, and the separator. -/
theorem mem_iff_splitOn (hx : x ≠ sep) : x ∈ s ↔ ∃ part ∈ s.splitOn sep, x ∈ part := by
  induction s with
  | nil => simp
  | cons c s ih =>
    rw [List.splitOn_cons_eq_if_modifyHead, List.mem_cons, ih]
    split_ifs with hsep
    · have hne : x ≠ c := fun h => hx (h.trans (beq_iff_eq.mp hsep))
      simp [hne]
    · obtain ⟨first, parts, hparts⟩ := List.exists_cons_of_ne_nil (List.splitOn_ne_nil sep s)
      simp [hparts, or_assoc]

theorem prefix_splitOn (hp : sep ∉ p) (h : p <+: s) :
    ∃ first rest, s.splitOn sep = first :: rest ∧ p <+: first := by
  induction s generalizing p with
  | nil => exact ⟨[], [], List.splitOn_nil sep, h⟩
  | cons c s ih =>
    cases p with
    | nil =>
      obtain ⟨first, rest, hsplit⟩ := List.exists_cons_of_ne_nil (List.splitOn_ne_nil sep (c :: s))
      exact ⟨first, rest, hsplit, List.nil_prefix⟩
    | cons d p =>
      obtain ⟨rfl, hfront⟩ := List.cons_prefix_cons.mp h
      have hne : d ≠ sep := fun heq => hp (heq ▸ List.mem_cons_self)
      obtain ⟨first, rest, hsplit, hfirst⟩ := ih (fun hin => hp (List.mem_cons_of_mem d hin)) hfront
      refine ⟨d :: first, rest, ?_, List.cons_prefix_cons.mpr ⟨rfl, hfirst⟩⟩
      rw [List.splitOn_cons_eq_if_modifyHead, if_neg (by simpa using hne), hsplit]
      rfl

/-- A pattern without the separator occurs in one of the parts. -/
theorem infix_splitOn (hp : sep ∉ p) (h : p <:+: s) : ∃ part ∈ s.splitOn sep, p <:+: part := by
  induction s with
  | nil => exact ⟨[], by simp, h⟩
  | cons c s ih =>
    rcases List.infix_cons_iff.mp h with hfront | hinfix
    · obtain ⟨first, rest, hsplit, hfirst⟩ := prefix_splitOn hp hfront
      exact ⟨first, by simp [hsplit], hfirst.isInfix⟩
    · obtain ⟨part, hpart, hin⟩ := ih hinfix
      rw [List.splitOn_cons_eq_if_modifyHead]
      split_ifs
      · exact ⟨part, List.mem_cons_of_mem [] hpart, hin⟩
      · obtain ⟨first, rest, hsplit⟩ := List.exists_cons_of_ne_nil (List.splitOn_ne_nil sep s)
        rw [hsplit] at hpart ⊢
        rcases List.mem_cons.mp hpart with rfl | hpart
        · exact ⟨c :: part, by simp, List.infix_cons hin⟩
        · exact ⟨part, List.mem_cons_of_mem _ hpart, hin⟩

theorem length_splitOn (sep : Char) (s : List Char) :
    (s.splitOn sep).length = s.count sep + 1 := by
  induction s with
  | nil => rfl
  | cons c s ih =>
    rw [List.splitOn_cons_eq_if_modifyHead, List.count_cons]
    split_ifs with hsep
    · rw [List.length_cons, ih]
    · rw [List.length_modifyHead, ih]

theorem dropWhile_append_singleton {q : Char → Bool} (hx : q x = false) (s : List Char) :
    (s ++ [x]).dropWhile q = s.dropWhile q ++ [x] := by
  induction s with
  | nil => simp [hx]
  | cons c s ih =>
    rw [List.cons_append, List.dropWhile_cons, List.dropWhile_cons, ih]
    split_ifs <;> rfl

theorem trim_append_singleton (hx : isWhiteSpace x = false) (s : List Char) :
    trim (s ++ [x]) = s.dropWhile isWhiteSpace ++ [x] := by
  rw [trim, dropWhile_append_singleton hx, trimEnd]
  exact List.rdropWhile_concat_neg _ _ _ (by simp [hx])

/-- The ends of a text without white space hold no other character. -/
theorem count_trim (hx : isWhiteSpace x = false) (s : List Char) : (trim s).count x = s.count x := by
  have hdrop : ∀ s : List Char, (s.dropWhile isWhiteSpace).count x = s.count x := by
    intro s
    induction s with
    | nil => rfl
    | cons c s ih =>
      rw [List.dropWhile_cons]
      split_ifs with hc
      · have hne : c ≠ x := fun h => by simp [h, hx] at hc
        rw [ih, List.count_cons_of_ne hne]
      · rfl
  rw [trim, trimEnd, List.rdropWhile, List.count_reverse, hdrop, List.count_reverse, hdrop]

theorem mem_of_mem_trim (h : x ∈ trim s) : x ∈ s :=
  (List.dropWhile_suffix isWhiteSpace).subset ((List.rdropWhile_prefix isWhiteSpace _).subset h)

/-- A pattern without the character behind a text does not reach it. -/
theorem infix_append_singleton (hx : x ∉ p) (hp : p ≠ []) : p <:+: s ++ [x] ↔ p <:+: s := by
  constructor
  · intro h
    rcases List.infix_concat_iff.mp h with hsuffix | hinfix
    · obtain ⟨q, hq⟩ := hsuffix
      obtain ⟨p', y, rfl⟩ : ∃ p' y, p = p' ++ [y] := (List.eq_nil_or_concat' p).resolve_left hp
      have hy : y = x := by
        rw [← List.append_assoc] at hq
        exact (List.append_inj' hq rfl).2 |> List.singleton_inj.mp
      exact absurd (by simp [hy]) hx
    · exact hinfix
  · exact fun h => h.trans (List.infix_append' [] s [x])

theorem isPrefixOf_append_singleton (hx : x ∉ p) (s : List Char) :
    p.isPrefixOf (s ++ [x]) = p.isPrefixOf s := by
  rw [Bool.eq_iff_iff, List.isPrefixOf_iff_prefix, List.isPrefixOf_iff_prefix]
  constructor
  · intro h
    rcases List.prefix_concat_iff.mp h with heq | hfront
    · exact absurd (heq ▸ by simp) hx
    · exact hfront
  · exact fun h => h.trans (List.prefix_append s [x])

theorem removeFrom_append_singleton (hx : x ∉ p) (hp : p ≠ []) {k : ℕ} (hk : k ≤ s.length) :
    removeFrom p k (s ++ [x]) = removeFrom p k s ++ [x] := by
  induction s generalizing k with
  | nil =>
    obtain rfl : k = 0 := Nat.le_zero.mp hk
    have hnot : p.isPrefixOf [x] = false := by
      have h := isPrefixOf_append_singleton hx []
      rw [List.nil_append] at h
      rw [h]
      cases p with
      | nil => exact absurd rfl hp
      | cons c p => rfl
    simp [removeFrom, hnot]
  | cons c s ih =>
    cases k with
    | succ k => exact ih (Nat.le_of_succ_le_succ hk)
    | zero =>
      have hfront := isPrefixOf_append_singleton hx (c :: s)
      rw [List.cons_append] at hfront ⊢
      rw [removeFrom, removeFrom, hfront]
      split_ifs with h
      · refine ih ?_
        have hlen := (List.isPrefixOf_iff_prefix.mp h).length_le
        rw [List.length_cons] at hlen
        omega
      · rw [ih (Nat.zero_le _), List.cons_append]

/-- **Leaving out a pattern** is not affected by a character that the pattern does not contain. -/
theorem remove_append_singleton (hx : x ∉ p) (hp : p ≠ []) (s : List Char) :
    remove p (s ++ [x]) = remove p s ++ [x] :=
  removeFrom_append_singleton hx hp (Nat.zero_le _)

theorem readNumber_append (hx : x ≠ Char.ofNat 0) (v : ℕ) (digits rest : List Char) :
    readNumber v digits (rest ++ [x]) = .error .format := by
  unfold readNumber
  rw [if_pos]
  right
  simp [hx]

/-- **A character that no number contains** makes a text fail to parse. -/
theorem parseHexUInt64_append (hx : hexValue x = none) (hzero : x ≠ Char.ofNat 0) (s : List Char) :
    parseHexUInt64 (s ++ [x]) = .error .format := by
  unfold parseHexUInt64
  rw [dropWhile_append_singleton (by simp [hx])]
  exact readNumber_append hzero _ _ _

theorem takeSign_append (hx : x ≠ '-' ∧ x ≠ '+') (s : List Char) :
    takeSign (s ++ [x]) = ((takeSign s).1, (takeSign s).2 ++ [x]) := by
  cases s with
  | nil => simp [takeSign, hx]
  | cons c s =>
    rw [List.cons_append, takeSign, takeSign]
    split_ifs <;> rfl

theorem parseUInt64_append (hx : x ≠ '-' ∧ x ≠ '+') (hdigit : x.isDigit = false)
    (hwhite : isNumberWhite x = false) (hzero : x ≠ Char.ofNat 0) (s : List Char) :
    parseUInt64 (s ++ [x]) = .error .format := by
  unfold parseUInt64
  rw [dropWhile_append_singleton hwhite, takeSign_append hx]
  dsimp only
  rw [dropWhile_append_singleton hdigit, dropWhile_append_singleton hwhite, readNumber_append hzero]
  rfl

/-! ### Texts that are no numbers -/

theorem readNumber_error {v : ℕ} {digits rest : List Char} {e : Fault}
    (h : readNumber v digits rest = .error e) : e = .format ∨ e = .overflow := by
  unfold readNumber at h
  split_ifs at h
  · cases h
    exact .inl rfl
  · cases h
    exact .inr rfl

theorem parseHexUInt64_error {e : Fault} (h : parseHexUInt64 s = .error e) :
    e = .format ∨ e = .overflow :=
  readNumber_error h

theorem parseUInt64_error {e : Fault} (h : parseUInt64 s = .error e) :
    e = .format ∨ e = .overflow := by
  unfold parseUInt64 at h
  dsimp only at h
  cases hread : readNumber (Nat.ofDigitChars 10
      ((takeSign (s.dropWhile isNumberWhite)).2.takeWhile Char.isDigit) 0)
      ((takeSign (s.dropWhile isNumberWhite)).2.takeWhile Char.isDigit)
      (((takeSign (s.dropWhile isNumberWhite)).2.dropWhile Char.isDigit).dropWhile isNumberWhite) with
  | error e' =>
    rw [hread] at h
    cases h
    exact readNumber_error hread
  | ok v =>
    rw [hread, Outcome.ok_bind] at h
    split_ifs at h
    · cases h
      exact .inr rfl
    · cases h

/-! ### Texts of words and digits -/

/-- Leaving out a pattern that does not occur. -/
theorem remove_of_absent (h : ¬ p <:+: s) : remove p s = s := by
  unfold remove
  induction s with
  | nil => rfl
  | cons c s ih =>
    have hfront : p.isPrefixOf (c :: s) = false := by
      rw [Bool.eq_false_iff, ne_eq, List.isPrefixOf_iff_prefix]
      exact fun hp => h hp.isInfix
    rw [removeFrom, if_neg (by simp [hfront]), ih fun hs => h (List.infix_cons hs)]

/-- Leaving out a pattern in front of a text in which it does not occur. -/
theorem remove_append (hp : p ≠ []) (h : ¬ p <:+: s) : remove p (p ++ s) = s := by
  have hskip : ∀ (q r : List Char), removeFrom p q.length (q ++ r) = removeFrom p 0 r := by
    intro q r
    induction q with
    | nil => rfl
    | cons c q ih => exact ih
  obtain ⟨c, q, rfl⟩ := List.exists_cons_of_ne_nil hp
  have hfront : (c :: q).isPrefixOf (c :: (q ++ s)) = true :=
    List.isPrefixOf_iff_prefix.mpr (List.prefix_append (c :: q) s)
  rw [remove, List.cons_append, removeFrom, if_pos hfront]
  exact (hskip q s).trans (remove_of_absent h)

/-- White space around a text. -/
theorem trim_append {front back : List Char} (hfront : ∀ c ∈ front, isWhiteSpace c = true)
    (hback : ∀ c ∈ back, isWhiteSpace c = true) (s : List Char) :
    trim (front ++ s ++ back) = trim s := by
  have hdrop : ∀ s : List Char, (front ++ s).dropWhile isWhiteSpace = s.dropWhile isWhiteSpace := by
    intro s
    rw [List.dropWhile_append, List.dropWhile_eq_nil_iff.mpr hfront]
    rfl
  have hend : ∀ s : List Char, trimEnd (s ++ back) = trimEnd s := by
    intro s
    rw [trimEnd, trimEnd, List.rdropWhile, List.rdropWhile, List.reverse_append,
      List.dropWhile_append,
      List.dropWhile_eq_nil_iff.mpr fun c hc => hback c (List.mem_reverse.mp hc)]
    rfl
  rw [List.append_assoc, trim, hdrop, List.dropWhile_append]
  split_ifs with hnil
  · have hs : s.dropWhile isWhiteSpace = [] := by simpa using hnil
    rw [List.dropWhile_eq_nil_iff.mpr hback, trim, hs]
  · rw [hend, trim]

theorem trim_of_forall (h : ∀ c ∈ s, isWhiteSpace c = false) : trim s = s := by
  have hdrop : ∀ s : List Char, (∀ c ∈ s, isWhiteSpace c = false) → s.dropWhile isWhiteSpace = s := by
    intro s hs
    cases s with
    | nil => rfl
    | cons c s => rw [List.dropWhile_cons, if_neg (by simp [hs c List.mem_cons_self])]
  rw [trim, hdrop s h, trimEnd, List.rdropWhile,
    hdrop s.reverse fun c hc => h c (List.mem_reverse.mp hc), List.reverse_reverse]

theorem takeWhile_dropWhile_of_forall {q : Char → Bool} (h : ∀ c ∈ s, q c = true) :
    s.takeWhile q = s ∧ s.dropWhile q = [] :=
  ⟨List.takeWhile_eq_self_iff.mpr h, List.dropWhile_eq_nil_iff.mpr h⟩

/-- **A text of digits** stands for its value. -/
theorem parseUInt64_digits (hne : s ≠ []) (h : ∀ c ∈ s, c.isDigit = true)
    (hlt : Nat.ofDigitChars 10 s 0 < 2 ^ 64) :
    parseUInt64 s = .ok (UInt64.ofNat (Nat.ofDigitChars 10 s 0)) := by
  obtain ⟨c, s, rfl⟩ := List.exists_cons_of_ne_nil hne
  have hc := h c List.mem_cons_self
  have hwhite : isNumberWhite c = false := by
    rw [Char.isDigit_iff_toNat] at hc
    have hblank : c ≠ ' ' := fun hx => absurd (hx ▸ hc.1) (by decide)
    have hzero : '0'.toNat = 48 := rfl
    simp [isNumberWhite, hblank]
    omega
  have hsign : c ≠ '-' ∧ c ≠ '+' := by
    constructor <;> rintro rfl <;> exact absurd hc (by decide)
  obtain ⟨htake, hdrop⟩ := takeWhile_dropWhile_of_forall h
  unfold parseUInt64
  rw [List.dropWhile_cons, if_neg (by simp [hwhite]), takeSign, if_neg hsign.1, if_neg hsign.2]
  dsimp only
  rw [htake, hdrop, readNumber, if_neg (by simp), if_neg (by omega), Outcome.ok_bind, if_neg (by simp)]
  rfl

/-- **A text of base-sixteen digits** stands for its value. -/
theorem parseHexUInt64_digits (hne : s ≠ []) (h : ∀ c ∈ s, (hexValue c).isSome = true)
    (hlt : hexNumber 0 s < 2 ^ 64) : parseHexUInt64 s = .ok (UInt64.ofNat (hexNumber 0 s)) := by
  obtain ⟨htake, hdrop⟩ := takeWhile_dropWhile_of_forall h
  unfold parseHexUInt64
  dsimp only
  rw [htake, hdrop, readNumber, if_neg (by simpa using hne), if_neg (by omega)]

end CSharp
