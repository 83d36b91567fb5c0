import Mathlib.Data.List.Basic

/-!
# Outcomes of calls that check as they go

A call returns a value, or the program stops: an assertion fails, a vector is accessed past its end,
a division by zero is executed, a freed object is used, or the program gives up.

## Main definitions

* `Fault`: the ways a call stops the program
* `Outcome α`: a value, or a fault
* `assert p`, `vectorAt f xs i`: an assertion, and the access `xs[i]` in the function `f`

## Main results

* `Outcome.bind_eq_ok`, `Outcome.bind_eq_error`: how a sequence of calls returns and how it stops
-/

namespace Cpp

/-- The ways a call stops the program. -/
inductive Fault
  | assertion
  | outOfRange (function : String)
  | divideByZero
  | dangling
  | fatal
deriving DecidableEq, Repr

/-- A value, or the fault that stops the program. -/
abbrev Outcome := Except Fault

section Sequence

variable {α β : Type} {x : Outcome α} {f : α → Outcome β}

theorem Outcome.bind_eq_ok {b : β} : (x >>= f) = .ok b ↔ ∃ a, x = .ok a ∧ f a = .ok b := by
  cases x <;> simp [bind, Except.bind]

theorem Outcome.bind_eq_error {e : Fault} :
    (x >>= f) = .error e ↔ x = .error e ∨ ∃ a, x = .ok a ∧ f a = .error e := by
  cases x <;> simp [bind, Except.bind]

@[simp] theorem Outcome.pure_eq_ok {a b : α} : (pure a : Outcome α) = .ok b ↔ a = b := by
  simp [pure, Except.pure]

@[simp] theorem Outcome.pure_ne_error {a : α} {e : Fault} : (pure a : Outcome α) ≠ .error e := by
  simp [pure, Except.pure]

/-- A call whose result maps to a value returns. -/
theorem Outcome.exists_of_map_eq_ok {g : α → β} {b : β} (h : x.map g = .ok b) :
    ∃ a, x = .ok a ∧ g a = b := by
  cases x with
  | error e => cases h
  | ok a => exact ⟨a, rfl, Except.ok.inj h⟩

end Sequence

/-- The assertion of `p`. -/
def assert (p : Prop) [Decidable p] : Outcome Unit :=
  if p then .ok () else .error .assertion

@[simp] theorem assert_eq_ok {p : Prop} [Decidable p] {u : Unit} : assert p = .ok u ↔ p := by
  simp [assert]

@[simp] theorem assert_eq_error {p : Prop} [Decidable p] {e : Fault} :
    assert p = .error e ↔ ¬ p ∧ e = .assertion := by
  by_cases hp : p <;> simp [assert, hp, eq_comm]

/-- The access `xs[i]` in the function `function`. -/
def vectorAt {α : Type} (function : String) (xs : List α) (i : ℕ) : Outcome α :=
  match xs[i]? with
  | some x => .ok x
  | none => .error (.outOfRange function)

section Access

variable {α : Type} {function : String} {xs : List α} {i : ℕ}

@[simp] theorem vectorAt_eq_ok {x : α} : vectorAt function xs i = .ok x ↔ xs[i]? = some x := by
  unfold vectorAt
  cases xs[i]? <;> simp

@[simp] theorem vectorAt_eq_error {e : Fault} :
    vectorAt function xs i = .error e ↔ xs.length ≤ i ∧ e = .outOfRange function := by
  unfold vectorAt
  cases h : xs[i]? with
  | none =>
    have hle := List.getElem?_eq_none_iff.mp h
    simp [hle, eq_comm]
  | some x =>
    have hlt := (List.getElem?_eq_some_iff.mp h).1
    simp [Nat.not_le.mpr hlt]

end Access

end Cpp
