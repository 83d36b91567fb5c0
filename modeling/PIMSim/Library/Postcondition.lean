import PIMSim.Library.Loop
import PIMSim.Library.Run

/-!
# Postconditions of calls that may throw

A call ensures a postcondition, up to a set of faults it must not end in, when it does not end in one
of these and what it returns meets the postcondition. Other faults are left open.

## Main definitions

* `Ensures bad x Q`: the call `x` does not end in a `bad` fault, and its value meets `Q`
* `Harmless bad x`: the call `x` does not end in a `bad` fault
* `Yields x Q`: the value `x` returns meets `Q`, whatever faults it may end in
* `Unaffected bad x Q`: the call `x` ensures `Q` and does not depend on the fault that it is given

## Main results

* `Ensures.bind`: a sequence of calls
* `doWhile_harmless`, `foldlM_ensures`, `mapM_harmless`: loops
* `exec_ensures`: runs
* `Unaffected.bind`, `Unaffected.foldlM_range`, `Unaffected.doWhile`: the same for calls that are given a fault
-/

namespace CSharp

open Transition

variable {α β : Type} {bad : Fault → Prop}

/-- The call does not end in a bad fault, and the value it returns meets `Q`. -/
def Ensures (bad : Fault → Prop) (x : Outcome α) (Q : α → Prop) : Prop :=
  (∀ a, x = .ok a → Q a) ∧ ∀ e, x = .error e → ¬bad e

/-- The call does not end in a bad fault. -/
def Harmless (bad : Fault → Prop) (x : Outcome α) : Prop := Ensures bad x fun _ => True

/-- The value the call returns meets `Q`, when it returns one. -/
abbrev Yields (x : Outcome α) (Q : α → Prop) : Prop := Ensures (fun _ => False) x Q

theorem yields_iff {x : Outcome α} {Q : α → Prop} : Yields x Q ↔ ∀ a, x = .ok a → Q a :=
  ⟨fun h => h.1, fun h => ⟨h, fun _ _ => id⟩⟩

theorem ensures_ok {a : α} {Q : α → Prop} (h : Q a) : Ensures bad (.ok a) Q := by
  refine ⟨fun b hb => ?_, nofun⟩
  cases hb
  exact h

theorem ensures_error {e : Fault} {Q : α → Prop} (h : ¬bad e) : Ensures bad (.error e) Q := by
  refine ⟨nofun, fun e' he' => ?_⟩
  cases he'
  exact h

theorem harmless_ok (a : α) : Harmless bad (.ok a) := ensures_ok trivial

theorem harmless_error {e : Fault} (h : ¬bad e) : Harmless bad (.error e : Outcome α) :=
  ensures_error h

theorem Ensures.bind {x : Outcome α} {f : α → Outcome β} {P : α → Prop} {Q : β → Prop}
    (hx : Ensures bad x P) (hf : ∀ a, P a → Ensures bad (f a) Q) : Ensures bad (x >>= f) Q := by
  cases x with
  | error e => exact ensures_error (hx.2 e rfl)
  | ok a => exact hf a (hx.1 a rfl)

theorem Harmless.bind {x : Outcome α} {f : α → Outcome β} {Q : β → Prop} (hx : Harmless bad x)
    (hf : ∀ a, x = .ok a → Ensures bad (f a) Q) : Ensures bad (x >>= f) Q := by
  cases x with
  | error e => exact ensures_error (hx.2 e rfl)
  | ok a => exact hf a rfl

theorem Ensures.mono {x : Outcome α} {P Q : α → Prop} (h : Ensures bad x P)
    (hPQ : ∀ a, P a → Q a) : Ensures bad x Q :=
  ⟨fun a ha => hPQ a (h.1 a ha), h.2⟩

theorem Ensures.and {x : Outcome α} {P Q : α → Prop} (h : Ensures bad x P)
    (hQ : ∀ a, x = .ok a → Q a) : Ensures bad x fun a => P a ∧ Q a :=
  ⟨fun a ha => ⟨h.1 a ha, hQ a ha⟩, h.2⟩

/-- A specification of the values that are returned. -/
theorem Harmless.ensures {x : Outcome α} {Q : α → Prop} (h : Harmless bad x)
    (hQ : ∀ a, x = .ok a → Q a) : Ensures bad x Q :=
  ⟨hQ, h.2⟩

theorem harmless_listAt (h : ¬bad .argumentOutOfRange) (xs : List α) (i : Int) :
    Harmless bad (listAt xs i) := by
  unfold listAt
  split_ifs
  · exact harmless_error h
  · split
    · exact harmless_ok _
    · exact harmless_error h

theorem doWhile_harmless (h : ¬bad .nonTermination) {body : α → Outcome (α × Bool)}
    (hbody : ∀ s, Harmless bad (body s)) (fuel : ℕ) (s : α) :
    Harmless bad (doWhile body fuel s) := by
  induction fuel generalizing s with
  | zero => exact harmless_error h
  | succ fuel ih =>
    refine (hbody s).bind fun r _ => ?_
    obtain ⟨t, again⟩ := r
    cases again with
    | true => exact ih t
    | false => exact harmless_ok t

theorem mapM_harmless {f : α → Outcome β} (hf : ∀ a, Harmless bad (f a)) (xs : List α) :
    Harmless bad (xs.mapM f) := by
  induction xs with
  | nil => exact harmless_ok []
  | cons x xs ih =>
    rw [List.mapM_cons]
    exact (hf x).bind fun b _ => ih.bind fun bs _ => harmless_ok (b :: bs)

theorem foldlM_ensures {f : β → α → Outcome β} {I : β → Prop} {xs : List α}
    (hf : ∀ s, ∀ a ∈ xs, I s → Ensures bad (f s a) I) {s : β} (hs : I s) :
    Ensures bad (xs.foldlM f s) I := by
  induction xs generalizing s with
  | nil => exact ensures_ok hs
  | cons x xs ih =>
    rw [List.foldlM_cons]
    refine (hf s x List.mem_cons_self hs).bind fun t ht => ?_
    exact ih (fun t a ha => hf t a (List.mem_cons_of_mem x ha)) ht

/-- A run from its first step. -/
theorem exec_cons_ensures {step : α → β → Outcome α} {P Q : α → Prop} {s : α} {e : β} {es : List β}
    (hstep : Ensures bad (step s e) P) (hrest : ∀ t, P t → Ensures bad (exec step t es) Q) :
    Ensures bad (exec step s (e :: es)) Q := by
  unfold exec
  cases h : step s e with
  | error f => exact ensures_error (hstep.2 f h)
  | ok t => exact hrest t (hstep.1 t h)

/-- **The run rule**: when every step from a state in `I` ensures `I`, so does every run. -/
theorem exec_ensures {step : α → β → Outcome α} {I : α → Prop}
    (hstep : ∀ s e, I s → Ensures bad (step s e) I) {s : α} (hs : I s) (es : List β) :
    Ensures bad (exec step s es) I := by
  induction es generalizing s with
  | nil => exact ensures_ok hs
  | cons e es ih => exact exec_cons_ensures (hstep s e hs) fun t ht => ih ht

/-! ### A fault as a parameter -/

/-- The call does not depend on the fault that it is given, does not end in a bad one, and its value meets
`Q`. -/
structure Unaffected (bad : Fault → Prop) (x : Fault → Outcome α) (Q : α → Prop) : Prop where
  same : ∀ e e', x e = x e'
  ensures : ∀ e, Ensures bad (x e) Q

namespace Unaffected

variable {x : Fault → Outcome α} {Q : α → Prop}

/-- A call that is given no fault. -/
theorem of_ensures {x : Outcome α} (h : Ensures bad x Q) : Unaffected bad (fun _ => x) Q :=
  ⟨fun _ _ => rfl, fun _ => h⟩

theorem ok {a : α} (h : Q a) : Unaffected bad (fun _ => .ok a) Q := of_ensures (ensures_ok h)

theorem bind {f : Fault → α → Outcome β} {P : α → Prop} {Q : β → Prop} (hx : Unaffected bad x P)
    (hf : ∀ a, P a → Unaffected bad (fun e => f e a) Q) : Unaffected bad (fun e => x e >>= f e) Q where
  same := by
    intro e e'
    have hsame := hx.same e e'
    cases h : x e' with
    | error f => rw [hsame, h, Outcome.error_bind, Outcome.error_bind]
    | ok a =>
      rw [hsame, h, Outcome.ok_bind, Outcome.ok_bind]
      exact (hf a ((hx.ensures e').1 a h)).same e e'
  ensures := fun e => (hx.ensures e).bind fun a ha => (hf a ha).ensures e

theorem mono {P : α → Prop} (h : Unaffected bad x P) (hPQ : ∀ a, P a → Q a) : Unaffected bad x Q :=
  ⟨h.same, fun e => (h.ensures e).mono hPQ⟩

/-- A loop over the numbers below `n`. -/
theorem foldlM_range {f : Fault → β → ℕ → Outcome β} {I : ℕ → β → Prop} {n : ℕ}
    (hf : ∀ s, ∀ k < n, I k s → Unaffected bad (fun e => f e s k) (I (k + 1))) {s : β} (hs : I 0 s) :
    Unaffected bad (fun e => (List.range n).foldlM (f e) s) (I n) := by
  induction n with
  | zero => exact .ok hs
  | succ n ih =>
    simp only [List.range_succ, List.foldlM_append, List.foldlM_cons, List.foldlM_nil, bind_pure]
    exact (ih fun t k hk => hf t k (Nat.lt_succ_of_lt hk)).bind fun t ht => hf t n (Nat.lt_succ_self n) ht

/-- **The rule of a loop** whose rounds but the last one lower a measure. -/
theorem doWhile {body : Fault → α → Outcome (α × Bool)} {I J : α → Prop} {μ : α → ℕ}
    (hbody : ∀ s, I s → Unaffected bad (fun e => body e s) fun r =>
      if r.2 then I r.1 ∧ μ r.1 < μ s else J r.1) {fuel : ℕ} {s : α} (hs : I s) (hfuel : μ s < fuel) :
    Unaffected bad (fun e => CSharp.doWhile (body e) fuel s) J := by
  induction fuel generalizing s with
  | zero => exact absurd hfuel (Nat.not_lt_zero _)
  | succ fuel ih =>
    refine (hbody s hs).bind fun r hr => ?_
    obtain ⟨t, again⟩ := r
    cases again with
    | true => exact ih hr.1 (Nat.lt_of_lt_of_le hr.2 (Nat.lt_succ_iff.mp hfuel))
    | false => exact .ok hr

end Unaffected

end CSharp
