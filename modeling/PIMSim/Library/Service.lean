import PIMSim.Library.Outcome
import Mathlib.Data.List.TakeWhile

/-!
# Queues served from the head

A loop serves the head of a queue while it is due, and does not leave the queue before it is empty. A
head that is not due keeps it there for ever.

## Main definitions

* `serveQueue due act queue s`: the loop

## Main results

* `all_of_serveQueue`: a loop that ends found every entry due
* `serveQueue_eq_ok`, `serveQueue_stuck`: it serves a queue whose entries are all due, and never ends
  otherwise
* `serveQueue_iff`: it ends and takes the due entries at the head if and only if all entries are due
-/

namespace CSharp

variable {ρ σ : Type} {due : σ → ρ → Bool} {act : ρ → List ρ → σ → Outcome σ}

/-- The loop `while (the queue is not empty)` that serves a due head and does nothing otherwise. -/
def serveQueue (due : σ → ρ → Bool) (act : ρ → List ρ → σ → Outcome σ) : List ρ → σ → Outcome σ
  | [], s => .ok s
  | r :: queue, s => do
    if due s r then
      serveQueue due act queue (← act r queue s)
    else
      .error .nonTermination

section Rules

-- The service does not change what is due.
variable (hdue : ∀ r queue s s', act r queue s = .ok s' → due s' = due s)

include hdue

/-- **A loop that ends** found every entry due. -/
theorem all_of_serveQueue {queue : List ρ} {s s' : σ} (h : serveQueue due act queue s = .ok s') :
    ∀ r ∈ queue, due s r = true := by
  induction queue generalizing s with
  | nil => exact fun r hr => absurd hr List.not_mem_nil
  | cons r queue ih =>
    rw [serveQueue] at h
    split_ifs at h with hr
    obtain ⟨t, hact, h⟩ := Outcome.bind_eq_ok.mp h
    intro r' hr'
    rcases List.mem_cons.mp hr' with rfl | hr'
    · exact hr
    · rw [← hdue r queue s t hact]
      exact ih h r' hr'

-- What the services of a queue need, they establish for the rest of it.
variable {I : List ρ → σ → Prop}
  (hact : ∀ r queue s, I (r :: queue) s → ∃ s', act r queue s = .ok s' ∧ I queue s')

include hact

/-- **A queue whose entries are all due** is served. -/
theorem serveQueue_eq_ok {queue : List ρ} {s : σ} (hs : I queue s)
    (hall : ∀ r ∈ queue, due s r = true) : ∃ s', serveQueue due act queue s = .ok s' ∧ I [] s' := by
  induction queue generalizing s with
  | nil => exact ⟨s, rfl, hs⟩
  | cons r queue ih =>
    obtain ⟨t, ht, hI⟩ := hact r queue s hs
    obtain ⟨s', hserve, hI'⟩ := ih hI fun r' hr' => by
      rw [hdue r queue s t ht]
      exact hall r' (List.mem_cons_of_mem r hr')
    refine ⟨s', ?_, hI'⟩
    rw [serveQueue, if_pos (hall r List.mem_cons_self), ht]
    exact hserve

/-- **A queue with an entry that is not due** is never left. -/
theorem serveQueue_stuck {queue : List ρ} {s : σ} (hs : I queue s)
    (hnot : ∃ r ∈ queue, due s r = false) : serveQueue due act queue s = .error .nonTermination := by
  induction queue generalizing s with
  | nil =>
    obtain ⟨r, hr, -⟩ := hnot
    exact absurd hr List.not_mem_nil
  | cons r queue ih =>
    rw [serveQueue]
    split_ifs with hr
    · obtain ⟨t, ht, hI⟩ := hact r queue s hs
      rw [ht]
      apply ih hI
      rw [hdue r queue s t ht]
      obtain ⟨r', hr', hnot⟩ := hnot
      rcases List.mem_cons.mp hr' with rfl | hr'
      · exact absurd hr (by simp [hnot])
      · exact ⟨r', hr', hnot⟩
    · rfl

/-- **The loop ends, having taken the due entries** at the head, if and only if all are due. -/
theorem serveQueue_iff {left : σ → List ρ} (hleft : ∀ s, I [] s → left s = []) {queue : List ρ}
    {s : σ} (hs : I queue s) :
    (∃ s', serveQueue due act queue s = .ok s' ∧ left s' = queue.dropWhile (due s)) ↔
      ∀ r ∈ queue, due s r = true := by
  constructor
  · rintro ⟨s', hserve, -⟩
    exact all_of_serveQueue hdue hserve
  · intro hall
    obtain ⟨s', hserve, hI⟩ := serveQueue_eq_ok hdue hact hs hall
    exact ⟨s', hserve, (hleft s' hI).trans (List.dropWhile_eq_nil_iff.mpr hall).symm⟩

end Rules

end CSharp
