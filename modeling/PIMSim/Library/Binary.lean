import Mathlib.Tactic
import PIMSim.Library.Outcome

/-!
# Base-two strings

The text of a number in base two, as the managed runtime writes and reads it. A string is the list
of its characters.

## Main definitions

* `getBytes i`: the eight bytes of a 64-bit number, the lowest first
* `toString2 n`: the base-two text of a byte, without leading zeros
* `padLeft n c s`: `s` with `c`s in front, up to the length `n`
* `substring s i`: what is left of `s` from the index `i`
* `digits64 i`: the 64 digits of a number
* `toUInt64 s`: the number a base-two text stands for
* `value s`, `IsBits s`: the number, and whether every character is a digit

## Main results

* `value_append`: the value of a text from those of its parts
* `value_drop`: dropping leading digits reduces the value modulo a power of two
* `toUInt64_eq`: reading a non-empty text of at most 64 digits gives its value
-/

namespace CSharp

/-- The lowest `n` bytes of `v`, the lowest first. -/
def bytes : ℕ → ℕ → List UInt8
  | 0, _ => []
  | n + 1, v => UInt8.ofNat v :: bytes n (v / 256)

/-- `BitConverter.GetBytes(i)`: the eight bytes of a 64-bit number, the lowest first. -/
def getBytes (i : UInt64) : List UInt8 := bytes 8 i.toNat

/-- `Convert.ToString(b, 2)`: the base-two text of a byte, without leading zeros. -/
def toString2 (b : UInt8) : List Char := Nat.toDigits 2 b.toNat

/-- `s.PadLeft(n, c)`: `s` with `c`s in front, up to the length `n`. -/
def padLeft (n : ℕ) (c : Char) (s : List Char) : List Char := List.replicate (n - s.length) c ++ s

/-- The 64 base-two digits of `i`, byte after byte. -/
def digits64 (i : UInt64) : List Char :=
  (getBytes i).foldl (fun s item => padLeft 8 '0' (toString2 item) ++ s) []

/-- `s.Substring(i)`: what is left of `s` from the index `i`. -/
def substring (s : List Char) (i : Int) : Outcome (List Char) :=
  if i < 0 ∨ s.length < i then .error .argumentOutOfRange else .ok (s.drop i.toNat)

/-- The number a text of base-two digits stands for. -/
def value (s : List Char) : ℕ := Nat.ofDigitChars 2 s 0

/-- Every character is a base-two digit. -/
def IsBits (s : List Char) : Prop := ∀ c ∈ s, c = '0' ∨ c = '1'

instance (s : List Char) : Decidable (IsBits s) :=
  List.decidableBAll (fun c => c = '0' ∨ c = '1') s

/-- `Convert.ToUInt64(s, 2)`: the number a base-two text stands for. -/
def toUInt64 (s : List Char) : Outcome UInt64 :=
  if s = [] then .error .argumentOutOfRange
  else if ¬ IsBits s then .error .format
  else if 2 ^ 64 ≤ value s then .error .overflow
  else .ok (UInt64.ofNat (value s))

@[simp] theorem value_nil : value [] = 0 := rfl

theorem ofDigitChars_two (s : List Char) (init : ℕ) :
    Nat.ofDigitChars 2 s init = init * 2 ^ s.length + value s := by
  induction s generalizing init with
  | nil => simp
  | cons c s ih =>
    rw [value, Nat.ofDigitChars_cons, Nat.ofDigitChars_cons, ih, ih (2 * 0 + _), List.length_cons]
    ring

theorem value_append (s t : List Char) : value (s ++ t) = value s * 2 ^ t.length + value t := by
  rw [value, Nat.ofDigitChars_append, ofDigitChars_two]
  rfl

theorem value_cons (c : Char) (s : List Char) :
    value (c :: s) = value [c] * 2 ^ s.length + value s :=
  value_append [c] s

theorem value_replicate_zero (n : ℕ) : value (List.replicate n '0') = 0 := by
  simp [value]

@[simp] theorem value_toString2 (b : UInt8) : value (toString2 b) = b.toNat :=
  Nat.ofDigitChars_toDigits (by decide) (by decide)

theorem isBits_append {s t : List Char} : IsBits (s ++ t) ↔ IsBits s ∧ IsBits t := by
  simp only [IsBits, List.mem_append, or_imp, forall_and]

theorem isBits_replicate_zero (n : ℕ) : IsBits (List.replicate n '0') :=
  fun _ hc => .inl (List.eq_of_mem_replicate hc)

theorem IsBits.drop {s : List Char} (h : IsBits s) (n : ℕ) : IsBits (s.drop n) :=
  fun c hc => h c (List.mem_of_mem_drop hc)

theorem isBits_toDigits (n : ℕ) : IsBits (Nat.toDigits 2 n) := by
  induction n using Nat.base_induction 2 (by decide) with
  | single m hm =>
    rw [Nat.toDigits_of_lt_base hm]
    interval_cases m <;> simp [IsBits]
  | digit m k hk hm ih =>
    rw [← Nat.toDigits_append_toDigits (by decide) hm hk, Nat.toDigits_of_lt_base hk, isBits_append]
    refine ⟨ih, ?_⟩
    interval_cases k <;> simp [IsBits]

/-- A text of `n` digits stands for a number below `2 ^ n`. -/
theorem value_lt {s : List Char} (h : IsBits s) : value s < 2 ^ s.length := by
  induction s with
  | nil => simp
  | cons c s ih =>
    have hc : value [c] ≤ 1 := by
      rcases h c (by simp) with rfl | rfl <;> decide
    have hs := ih fun d hd => h d (by simp [hd])
    calc value (c :: s) = value [c] * 2 ^ s.length + value s := value_cons c s
      _ ≤ 1 * 2 ^ s.length + value s := by gcongr
      _ < 2 ^ (c :: s).length := by
        rw [List.length_cons, Nat.pow_succ]
        omega

/-- **Dropping leading digits** reduces the value modulo a power of two. -/
theorem value_drop {s : List Char} (h : IsBits s) {w : ℕ} (hw : w ≤ s.length) :
    value (s.drop (s.length - w)) = value s % 2 ^ w := by
  have hl : (s.drop (s.length - w)).length = w := by
    rw [List.length_drop]
    omega
  have hlt := value_lt (h.drop (s.length - w))
  have hs : value s = value (s.take (s.length - w)) * 2 ^ w + value (s.drop (s.length - w)) := by
    conv_lhs => rw [← List.take_append_drop (s.length - w) s, value_append, hl]
  rw [hl] at hlt
  rw [hs, Nat.mul_comm, Nat.mul_add_mod, Nat.mod_eq_of_lt hlt]

@[simp] theorem value_padLeft (n : ℕ) (s : List Char) : value (padLeft n '0' s) = value s := by
  simp [padLeft, value_append, value_replicate_zero]

theorem length_padLeft {n : ℕ} {c : Char} {s : List Char} (h : s.length ≤ n) :
    (padLeft n c s).length = n := by
  rw [padLeft, List.length_append, List.length_replicate]
  omega

theorem isBits_padLeft {s : List Char} (h : IsBits s) (n : ℕ) : IsBits (padLeft n '0' s) :=
  isBits_append.mpr ⟨isBits_replicate_zero _, h⟩

theorem length_toString2_le (b : UInt8) : (toString2 b).length ≤ 8 :=
  (Nat.length_toDigits_le_iff (by decide) (by decide)).mpr b.toNat_lt

@[simp] theorem bytes_zero (v : ℕ) : bytes 0 v = [] := rfl

@[simp] theorem bytes_succ (n v : ℕ) : bytes (n + 1) v = UInt8.ofNat v :: bytes n (v / 256) := rfl

theorem foldl_bytes (n v : ℕ) (s : List Char) (hs : IsBits s) :
    let t := (bytes n v).foldl (fun s item => padLeft 8 '0' (toString2 item) ++ s) s
    t.length = 8 * n + s.length ∧ IsBits t ∧ value t = v % 256 ^ n * 2 ^ s.length + value s := by
  induction n generalizing v s with
  | zero => simp [hs, Nat.mod_one]
  | succ n ih =>
    have hlen : (padLeft 8 '0' (toString2 (UInt8.ofNat v))).length = 8 :=
      length_padLeft (length_toString2_le _)
    have hbits := isBits_padLeft (isBits_toDigits (UInt8.ofNat v).toNat) 8
    obtain ⟨h1, h2, h3⟩ := ih (v / 256) _ (isBits_append.mpr ⟨hbits, hs⟩)
    refine ⟨?_, h2, ?_⟩
    · rw [bytes_succ, List.foldl_cons]
      refine h1.trans ?_
      rw [List.length_append, ← toString2, hlen]
      ring
    · rw [bytes_succ, List.foldl_cons]
      refine h3.trans ?_
      rw [List.length_append, value_append, ← toString2, hlen, value_padLeft, value_toString2,
        UInt8.toNat_ofNat', Nat.pow_succ' (n := n), Nat.mod_mul]
      ring

theorem length_digits64 (i : UInt64) : (digits64 i).length = 64 :=
  (foldl_bytes 8 i.toNat [] (by simp [IsBits])).1

theorem isBits_digits64 (i : UInt64) : IsBits (digits64 i) :=
  (foldl_bytes 8 i.toNat [] (by simp [IsBits])).2.1

theorem value_digits64 (i : UInt64) : value (digits64 i) = i.toNat := by
  refine (foldl_bytes 8 i.toNat [] (by simp [IsBits])).2.2.trans ?_
  simp [Nat.mod_eq_of_lt i.toNat_lt]

/-- Reading a non-empty text of at most 64 digits gives its value. -/
theorem toUInt64_eq {s : List Char} (hne : s ≠ []) (h : IsBits s) (hl : s.length ≤ 64) :
    toUInt64 s = .ok (UInt64.ofNat (value s)) := by
  have hlt : value s < 2 ^ 64 := (value_lt h).trans_le (Nat.pow_le_pow_right (by decide) hl)
  rw [toUInt64, if_neg hne, if_neg (not_not.mpr h), if_neg (by omega)]

end CSharp
