import PIMSim.Library.Outcome

/-!
# Loops with the test at the end

## Main definitions

* `doWhile body fuel s`: the loop `do body while (again)`

## Main results

* `doWhile_rule`: what every round keeps, and what the last one establishes
-/

namespace CSharp

variable {σ : Type}

/-- The loop `do body while (again)`, for at most `fuel` rounds. -/
def doWhile (body : σ → Outcome (σ × Bool)) : ℕ → σ → Outcome σ
  | 0, _ => .error .nonTermination
  | fuel + 1, s => do
    let (t, again) ← body s
    if again then doWhile body fuel t else return t

/-- **The loop rule**: the rounds keep `I`, and the last one establishes `J`. -/
theorem doWhile_rule {body : σ → Outcome (σ × Bool)} {I J : σ → Prop}
    (hround : ∀ s t again, I s → body s = .ok (t, again) → if again then I t else J t) {fuel : ℕ}
    {s t : σ} (hs : I s) (h : doWhile body fuel s = .ok t) : J t := by
  induction fuel generalizing s with
  | zero => cases h
  | succ fuel ih =>
    obtain ⟨⟨s', again⟩, hbody, h⟩ := Outcome.bind_eq_ok.mp h
    have hs' := hround s s' again hs hbody
    cases again with
    | true => exact ih hs' h
    | false =>
      cases h
      exact hs'

end CSharp
