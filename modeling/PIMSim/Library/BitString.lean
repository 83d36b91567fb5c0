import PIMSim.Library.Binary

/-!
# Digitwise operations on base-two texts

Texts of the digits `'0'` and `'1'` that are combined digit by digit, in a loop that stops the program
when one of them is too short.

## Main definitions

* `digit s i`: whether the character at an index is a one
* `Digitwise op g`: an operation on characters that computes `g` on digits
* `zipChars op n s t`: the loop that combines the first `n` characters of two texts
* `byteText bs`: the texts of bytes one after the other, without leading zeros

## Main results

* `zipChars_eq_ok`: the loop returns when no text is shorter than its range
* `Digitwise.zipChars`: the length and the digits of what it returns
* `eq_of_digit`: a base-two text is its length and its digits
* `value_byteText_eq_iff`: the bytes whose texts stand for their number
-/

namespace CSharp

variable {op : Char → Char → Char} {g : Bool → Bool → Bool} {n i : ℕ} {s t u : List Char}

/-- Whether the character at an index is a one. -/
def digit (s : List Char) (i : ℕ) : Bool := s[i]? == some '1'

@[simp] theorem digit_nil (i : ℕ) : digit [] i = false := rfl

@[simp] theorem digit_cons_zero (c : Char) (s : List Char) : digit (c :: s) 0 = (c == '1') := rfl

@[simp] theorem digit_cons_succ (c : Char) (s : List Char) (i : ℕ) :
    digit (c :: s) (i + 1) = digit s i := rfl

theorem digit_of_length_le (h : s.length ≤ i) : digit s i = false := by
  simp [digit, List.getElem?_eq_none h]

theorem IsBits.of_cons {c : Char} (h : IsBits (c :: s)) : (c = '0' ∨ c = '1') ∧ IsBits s :=
  ⟨h c List.mem_cons_self, fun d hd => h d (List.mem_cons_of_mem c hd)⟩

theorem isBits_cons {c : Char} (hc : c = '0' ∨ c = '1') (h : IsBits s) : IsBits (c :: s) := by
  intro d hd
  rcases List.mem_cons.mp hd with rfl | hd
  · exact hc
  · exact h d hd

theorem isBits_map {α : Type} {f : α → Char} (h : ∀ x, f x = '0' ∨ f x = '1') (l : List α) :
    IsBits (l.map f) := by
  intro c hc
  obtain ⟨x, -, rfl⟩ := List.mem_map.mp hc
  exact h x

/-- **Extensionality**: a base-two text is its length and its digits. -/
theorem eq_of_digit (hs : IsBits s) (ht : IsBits t) (hlen : s.length = t.length)
    (h : ∀ i < s.length, digit s i = digit t i) : s = t := by
  induction s generalizing t with
  | nil => exact (List.length_eq_zero_iff.mp hlen.symm).symm
  | cons c s ih =>
    cases t with
    | nil => cases hlen
    | cons d t =>
      obtain ⟨hc, hs⟩ := hs.of_cons
      obtain ⟨hd, ht⟩ := ht.of_cons
      have hrest : s = t := by
        refine ih hs ht (Nat.succ.inj hlen) fun i hi => ?_
        simpa using h (i + 1) (Nat.succ_lt_succ hi)
      have hfirst : (c == '1') = (d == '1') := h 0 (Nat.succ_pos _)
      rw [hrest]
      rcases hc with rfl | rfl <;> rcases hd with rfl | rfl
      · rfl
      · cases hfirst
      · cases hfirst
      · rfl

/-- A text that has the digits of a function. -/
theorem digit_map_range (p : ℕ → Bool) (n i : ℕ) :
    digit ((List.range n).map fun i => if p i then '1' else '0') i = (decide (i < n) && p i) := by
  by_cases hi : i < n
  · cases hp : p i <;> simp [digit, hi, hp]
  · simp [digit, hi]

/-- A text and a character replaced by it, at an index. -/
theorem digit_map {f : Char → Char} (hi : i < s.length) :
    ∃ c ∈ s, digit s i = (c == '1') ∧ digit (s.map f) i = (f c == '1') := by
  refine ⟨s[i], List.getElem_mem hi, ?_, ?_⟩ <;> simp [digit, hi]

/-! ### The loop -/

/-- `for (int i = 0; i < n; i++) sb.Append(op(s[i], t[i]))`. -/
def zipChars (op : Char → Char → Char) : ℕ → List Char → List Char → Outcome (List Char)
  | 0, _, _ => .ok []
  | n + 1, a :: s, b :: t => do
    let rest ← zipChars op n s t
    return op a b :: rest
  | _ + 1, _, _ => .error .indexOutOfRange

/-- The operation computes `g` on digits. -/
def Digitwise (op : Char → Char → Char) (g : Bool → Bool → Bool) : Prop :=
  ∀ a b, (a = '0' ∨ a = '1') → (b = '0' ∨ b = '1') →
    (op a b = '0' ∨ op a b = '1') ∧ (op a b == '1') = g (a == '1') (b == '1')

/-- **The loop returns** when no text is shorter than its range. -/
theorem zipChars_eq_ok :
    zipChars op n s t = .ok u ↔
      n ≤ s.length ∧ n ≤ t.length ∧ u = List.zipWith op (s.take n) (t.take n) := by
  induction n generalizing s t u with
  | zero => simp [zipChars, eq_comm]
  | succ n ih =>
    cases s with
    | nil => simp [zipChars]
    | cons a s =>
      cases t with
      | nil => simp [zipChars]
      | cons b t =>
        rw [zipChars, Outcome.bind_eq_ok]
        constructor
        · rintro ⟨rest, hrest, heq⟩
          cases heq
          obtain ⟨hs, ht, rfl⟩ := ih.mp hrest
          exact ⟨Nat.succ_le_succ hs, Nat.succ_le_succ ht, by simp⟩
        · rintro ⟨hs, ht, rfl⟩
          exact ⟨_, ih.mpr ⟨Nat.le_of_succ_le_succ hs, Nat.le_of_succ_le_succ ht, rfl⟩, by simp; rfl⟩

theorem zipChars_returns (op : Char → Char → Char) (hs : n ≤ s.length) (ht : n ≤ t.length) :
    ∃ u, zipChars op n s t = .ok u :=
  ⟨_, zipChars_eq_ok.mpr ⟨hs, ht, rfl⟩⟩

/-- **What the loop returns**: a base-two text with the digits of the two texts combined. -/
theorem Digitwise.zipChars (hop : Digitwise op g) (hs : IsBits s) (ht : IsBits t)
    (h : zipChars op n s t = .ok u) :
    u.length = n ∧ IsBits u ∧ ∀ i < n, digit u i = g (digit s i) (digit t i) := by
  induction n generalizing s t u with
  | zero =>
    cases h
    exact ⟨rfl, fun c hc => absurd hc List.not_mem_nil, fun i hi => absurd hi (Nat.not_lt_zero i)⟩
  | succ n ih =>
    cases s with
    | nil => cases h
    | cons a s =>
      cases t with
      | nil => cases h
      | cons b t =>
        obtain ⟨rest, hrest, heq⟩ := Outcome.bind_eq_ok.mp h
        cases heq
        obtain ⟨ha, hs⟩ := hs.of_cons
        obtain ⟨hb, ht⟩ := ht.of_cons
        obtain ⟨hlen, hbits, hdigit⟩ := ih hs ht hrest
        obtain ⟨hab, heq⟩ := hop a b ha hb
        refine ⟨by rw [List.length_cons, hlen], isBits_cons hab hbits, fun i hi => ?_⟩
        cases i with
        | zero => exact heq
        | succ i => exact hdigit i (Nat.lt_of_succ_lt_succ hi)

/-! ### Texts of bytes -/

/-- The number of bytes, the lowest first. -/
def number : List UInt8 → ℕ
  | [] => 0
  | b :: bs => number bs * 256 + b.toNat

/-- The texts of bytes one after the other, the highest first, without leading zeros. -/
def byteText (bs : List UInt8) : List Char := bs.reverse.flatMap toString2

theorem byteText_cons (b : UInt8) (bs : List UInt8) :
    byteText (b :: bs) = byteText bs ++ toString2 b := by
  simp [byteText]

theorem isBits_byteText (bs : List UInt8) : IsBits (byteText bs) := by
  intro c hc
  obtain ⟨b, -, hb⟩ := List.mem_flatMap.mp hc
  exact isBits_toDigits b.toNat c hb

theorem length_toString2_eq_iff (b : UInt8) : (toString2 b).length = 8 ↔ 128 ≤ b := by
  have h7 : (toString2 b).length ≤ 7 ↔ b.toNat < 2 ^ 7 :=
    Nat.length_toDigits_le_iff (by decide) (by decide)
  have h8 := length_toString2_le b
  have hle : 128 ≤ b ↔ 128 ≤ b.toNat := UInt8.le_iff_toNat_le
  rw [hle]
  omega

theorem number_eq_zero_iff (bs : List UInt8) : number bs = 0 ↔ ∀ b ∈ bs, b = 0 := by
  induction bs with
  | nil => simp [number]
  | cons b bs ih =>
    have hb : b.toNat = 0 ↔ b = 0 := UInt8.toNat_inj (b := 0)
    rw [number, List.forall_mem_cons, ← ih, ← hb]
    omega

theorem number_bytes (n v : ℕ) : number (bytes n v) = v % 256 ^ n := by
  induction n generalizing v with
  | zero => simp [number, Nat.mod_one]
  | succ n ih =>
    rw [bytes_succ, number, ih, UInt8.toNat_ofNat', Nat.pow_succ' (n := n), Nat.mod_mul]
    ring

theorem number_getBytes (x : UInt64) : number (getBytes x) = x.toNat :=
  (number_bytes 8 x.toNat).trans (Nat.mod_eq_of_lt x.toNat_lt)

theorem value_byteText_le (bs : List UInt8) : value (byteText bs) ≤ number bs := by
  induction bs with
  | nil => rfl
  | cons b bs ih =>
    have hpow : 2 ^ (toString2 b).length ≤ 2 ^ 8 :=
      Nat.pow_le_pow_right (by decide) (length_toString2_le b)
    rw [byteText_cons, value_append, value_toString2, number]
    exact Nat.add_le_add_right (Nat.mul_le_mul ih hpow) _

/-- **The texts of bytes stand for their number** exactly when below a byte that is not zero every byte
has its eight digits. -/
theorem value_byteText_eq_iff (bs : List UInt8) :
    value (byteText bs) = number bs ↔ bs.Pairwise fun low high => high ≠ 0 → 128 ≤ low := by
  induction bs with
  | nil => exact iff_of_true rfl List.Pairwise.nil
  | cons b bs ih =>
    have hle := value_byteText_le bs
    have hpow : 2 ^ (toString2 b).length ≤ 2 ^ 8 :=
      Nat.pow_le_pow_right (by decide) (length_toString2_le b)
    rw [byteText_cons, value_append, value_toString2, number, List.pairwise_cons, ← ih,
      Nat.add_right_cancel_iff]
    constructor
    · intro heq
      have hvalue : value (byteText bs) = number bs := by
        refine hle.antisymm (Nat.le_of_mul_le_mul_right ?_ (show 0 < 256 by decide))
        exact heq.symm.le.trans (Nat.mul_le_mul_left _ hpow)
      refine ⟨fun c hc hne => ?_, hvalue⟩
      have hpos : 0 < number bs := by
        refine Nat.pos_of_ne_zero fun hzero => hne ?_
        exact (number_eq_zero_iff bs).mp hzero c hc
      -- the higher bytes are shifted by eight digits
      rw [hvalue] at heq
      have heq : 2 ^ (toString2 b).length = 2 ^ 8 := Nat.eq_of_mul_eq_mul_left hpos heq
      exact (length_toString2_eq_iff b).mp (Nat.pow_right_injective le_rfl heq)
    · rintro ⟨hfull, hvalue⟩
      rw [hvalue]
      by_cases hzero : number bs = 0
      · simp [hzero]
      · obtain ⟨c, hc, hne⟩ : ∃ c ∈ bs, c ≠ 0 := by
          by_contra hnone
          push Not at hnone
          exact hzero ((number_eq_zero_iff bs).mpr hnone)
        rw [(length_toString2_eq_iff b).mpr (hfull c hc hne), show 2 ^ 8 = 256 from rfl]

end CSharp
