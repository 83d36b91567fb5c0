import Mathlib.Data.UInt
import PIMSim.General

/-!
# The decoders of a trace word

A word of a PC trace holds an address in its low 63 bits and tells writes from reads by its top bit.
Three methods decode it. Two of them read the digits of the word; `ActualAddress` reads the name of
the type of the digit array instead, and throws.

## Main definitions

* `PCTrace.getProcRequestFromTrace`, `PCTrace.actualAddress`: two of the decoders
* `PCTrace.isWrite`, `PCTrace.lowBits`: the operation and the address of a word
* `PCTrace.DecodersAgree`: all three decoders decode a word

## Main results

* `PCTrace.parsetoIns_eq`, `PCTrace.getProcRequestFromTrace_eq`: the first two decode every word
* `PCTrace.not_decodersAgree`: the third one throws at every word
-/

namespace PIMSim

open CSharp

namespace PCTrace

variable (t : PCTrace)

/-- The processor request of a trace line. -/
def getProcRequestFromTrace : Outcome ProcRequest := do
  let combine := toBinary t.combination
  let type := if combine[0]? = some '1' then RequestType.write else .read
  let actualAddr ← toUInt64 (combine.set 0 '0')
  return { type, pc := t.pc, ifMem := true, pid := t.id, actualAddr }

/-- The text of an array of characters is the name of its type. -/
def charArrayText : List Char :=
  ['S', 'y', 's', 't', 'e', 'm', '.', 'C', 'h', 'a', 'r', '[', ']']

/-- `ActualAddress`. The array of the digits is turned into text by `combine.ToString()`. -/
def actualAddress : Outcome UInt64 :=
  let _combine := (toBinary t.combination).set 0 '0'
  toUInt64 charArrayText

/-- The top bit of the word. -/
def isWrite : Bool := decide (2 ^ 63 ≤ t.combination.toNat)

/-- The low 63 bits of the word. -/
def lowBits : UInt64 := UInt64.ofNat (t.combination.toNat % 2 ^ 63)

/-- **The decoders agree**: none of them throws, the operation is a write exactly when the top bit is
set, and the address is the low 63 bits. -/
def DecodersAgree : Prop :=
  ∃ req ins addr, t.getProcRequestFromTrace = .ok req ∧ t.parsetoIns = .ok ins ∧
    t.actualAddress = .ok addr ∧
      req.type = (if t.isWrite then .write else .read) ∧ req.actualAddr = t.lowBits ∧
      ins.type = (if t.isWrite then .write else .read) ∧ ins.address = t.lowBits ∧ addr = t.lowBits

/-! ### The digits of a word -/

/-- The first digit of a text of 64 digits, and the value of the other ones. -/
theorem digits_cons : ∃ d s, toBinary t.combination = d :: s ∧ s.length = 63 ∧ IsBits s ∧
    (d = '0' ∨ d = '1') ∧ t.combination.toNat = value [d] * 2 ^ 63 + value s := by
  have hlength := length_digits64 t.combination
  have hbits := isBits_digits64 t.combination
  have hvalue := value_digits64 t.combination
  unfold toBinary
  cases hdigits : digits64 t.combination with
  | nil =>
    rw [hdigits] at hlength
    cases hlength
  | cons d s =>
    rw [hdigits] at hlength hbits hvalue
    have hs : s.length = 63 := by simpa using hlength
    refine ⟨d, s, rfl, hs, fun c hc => hbits c (List.mem_cons_of_mem d hc),
      hbits d List.mem_cons_self, ?_⟩
    rw [← hvalue, value_cons, hs]

/-- The first digit tells the operation. -/
theorem first_digit : (toBinary t.combination)[0]? = some '1' ↔ t.isWrite = true := by
  obtain ⟨d, s, hdigits, hlength, hbits, hd, hword⟩ := t.digits_cons
  have hlt := value_lt hbits
  rw [hlength] at hlt
  rw [hdigits, isWrite, decide_eq_true_iff, hword]
  rcases hd with rfl | rfl
  · have hzero : value ['0'] = 0 := by decide
    simpa [hzero] using hlt
  · have hone : value ['1'] = 1 := by decide
    simp [hone]

/-- The other digits tell the address. -/
theorem toUInt64_digits : toUInt64 ((toBinary t.combination).set 0 '0') = .ok t.lowBits := by
  obtain ⟨d, s, hdigits, hlength, hbits, hd, hword⟩ := t.digits_cons
  have hlt := value_lt hbits
  rw [hlength] at hlt
  have hzero : value ['0'] = 0 := by decide
  have hall : IsBits ('0' :: s) := fun c hc =>
    (List.mem_cons.mp hc).elim (fun h => .inl h) (hbits c)
  rw [hdigits, List.set_cons_zero, toUInt64_eq (List.cons_ne_nil '0' s) hall (by simp [hlength])]
  rw [value_cons, hzero, lowBits, hword, Nat.zero_mul, Nat.zero_add, Nat.mul_comm,
    Nat.mul_add_mod, Nat.mod_eq_of_lt hlt]

/-! ### The decoders -/

/-- **The instruction** of every word. -/
theorem parsetoIns_eq : t.parsetoIns = .ok {
    type := if t.isWrite then .write else .read
    pc := t.pc, isMem := true, pid := t.id, address := t.lowBits } := by
  simp only [parsetoIns, toUInt64_digits, Outcome.ok_bind, first_digit]
  rfl

/-- **The request** of every word. -/
theorem getProcRequestFromTrace_eq : t.getProcRequestFromTrace = .ok {
    type := if t.isWrite then .write else .read
    pc := t.pc, ifMem := true, pid := t.id, actualAddr := t.lowBits } := by
  simp only [getProcRequestFromTrace, toUInt64_digits, Outcome.ok_bind, first_digit]
  rfl

/-- **The address property throws** at every word, so that the decoders agree at none. -/
theorem not_decodersAgree : ¬ t.DecodersAgree := by
  rintro ⟨req, ins, addr, -, -, haddr, -⟩
  have hthrows : t.actualAddress = .error .format := rfl
  rw [hthrows] at haddr
  cases haddr

/-- A write of address 64 has a request and an instruction, and no actual address. -/
theorem actualAddress_throws_write :
    (PCTrace.mk 16 (2 ^ 63 + 64) 0).actualAddress = .error .format ∧
      ¬ (PCTrace.mk 16 (2 ^ 63 + 64) 0).DecodersAgree := by
  have hthrows : (PCTrace.mk 16 (2 ^ 63 + 64) 0).actualAddress = .error .format := rfl
  refine ⟨hthrows, ?_⟩
  rintro ⟨req, ins, addr, -, -, haddr, -⟩
  rw [hthrows] at haddr
  cases haddr

end PCTrace

end PIMSim
