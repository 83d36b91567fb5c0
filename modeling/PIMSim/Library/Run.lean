import Mathlib.Data.List.Basic
import Mathlib.Tactic.Tauto

/-!
# Runs of a machine

A machine answers each event with its next state or an error. A run is the machine on a list of
events; it ends at the first error.

## Main definitions

* `exec step s es`: the state after the events `es`
* `Along step good s es`: every step taken along the run meets `good`

## Main results

* `exec_invariant`: what every step preserves holds after every run
* `exec_along`: what the steps meeting a condition preserve holds after every run whose steps all
  meet it
* `exec_along_error`: what is true of the errors of these steps is true of a run's error
* `exec_simulation`: a machine whose steps another one follows runs as the other one does
* `exec_append_eq_ok`, `exec_append_eq_error`, `along_append`: runs compose
* `exec_flag`: a flag that is raised exactly by the steps failing a condition
* `exec_exact`: what a step keeps exactly when it meets a condition
* `exec_rests`: a part of the state that changes only downwards comes to rest
-/

namespace Transition

variable {σ ε φ : Type}

/-- The state after the events `es`. -/
def exec (step : σ → ε → Except φ σ) : σ → List ε → Except φ σ
  | s, [] => .ok s
  | s, e :: es =>
    match step s e with
    | .ok s' => exec step s' es
    | .error f => .error f

/-- Every step taken along the run meets `good`. -/
def Along (step : σ → ε → Except φ σ) (good : σ → ε → Prop) : σ → List ε → Prop
  | _, [] => True
  | s, e :: es => good s e ∧ ∀ s', step s e = .ok s' → Along step good s' es

/-- `Along` can be checked by running the machine. -/
instance Along.decide (step : σ → ε → Except φ σ) (good : σ → ε → Prop)
    [∀ s e, Decidable (good s e)] : ∀ s es, Decidable (Along step good s es)
  | _, [] => .isTrue trivial
  | s, e :: es =>
    match h : step s e with
    | .error _ => decidable_of_iff (good s e) ⟨fun hg => ⟨hg, by simp [h]⟩, And.left⟩
    | .ok s' =>
      have := Along.decide step good s' es
      decidable_of_iff (good s e ∧ Along step good s' es) (by simp [Along, h])

variable {step : σ → ε → Except φ σ}

@[simp] theorem exec_nil (s : σ) : exec step s [] = .ok s := rfl

theorem exec_cons_eq_ok {s t : σ} {e : ε} {es : List ε} :
    exec step s (e :: es) = .ok t ↔ ∃ s', step s e = .ok s' ∧ exec step s' es = .ok t := by
  cases h : step s e <;> simp [exec, h]

/-- Runs compose. -/
theorem exec_append_eq_ok {s t : σ} {es fs : List ε} :
    exec step s (es ++ fs) = .ok t ↔ ∃ s', exec step s es = .ok s' ∧ exec step s' fs = .ok t := by
  induction es generalizing s with
  | nil => simp
  | cons e es ih =>
    simp only [List.cons_append, exec_cons_eq_ok, ih]
    constructor
    · rintro ⟨u, hu, v, hv, ht⟩
      exact ⟨v, ⟨u, hu, hv⟩, ht⟩
    · rintro ⟨v, ⟨u, hu, hv⟩, ht⟩
      exact ⟨u, hu, v, hv, ht⟩

/-- A run ends in an error in its first part, or after it. -/
theorem exec_append_eq_error {s : σ} {es fs : List ε} {f : φ} :
    exec step s (es ++ fs) = .error f ↔
      exec step s es = .error f ∨ ∃ s', exec step s es = .ok s' ∧ exec step s' fs = .error f := by
  induction es generalizing s with
  | nil => simp
  | cons e es ih => cases h : step s e <;> simp [exec, h, ih]

/-- The steps of two runs in a row. -/
theorem along_append {good : σ → ε → Prop} {s : σ} {es fs : List ε} :
    Along step good s (es ++ fs) ↔
      Along step good s es ∧ ∀ s', exec step s es = .ok s' → Along step good s' fs := by
  induction es generalizing s with
  | nil => simp [Along]
  | cons e es ih =>
    simp only [List.cons_append, Along, exec_cons_eq_ok, ih]
    constructor
    · intro h
      refine ⟨⟨h.1, fun s' hs' => (h.2 s' hs').1⟩, ?_⟩
      rintro t ⟨s', hs', ht⟩
      exact (h.2 s' hs').2 t ht
    · intro h
      refine ⟨h.1.1, fun s' hs' => ⟨h.1.2 s' hs', fun t ht => h.2 t ⟨s', hs', ht⟩⟩⟩

theorem Along.mono {good good' : σ → ε → Prop} (h : ∀ s e, good s e → good' s e) {s : σ} {es : List ε}
    (hs : Along step good s es) : Along step good' s es := by
  induction es generalizing s with
  | nil => trivial
  | cons e es ih => exact ⟨h s e hs.1, fun s' hs' => ih (hs.2 s' hs')⟩

/-- Under an invariant, `Along` depends on a condition only where the invariant holds. -/
theorem along_congr {good good' : σ → ε → Prop} {I : σ → Prop}
    (hstep : ∀ s e s', I s → step s e = .ok s' → I s')
    (h : ∀ s e, I s → (good s e ↔ good' s e)) {s : σ} {es : List ε} (hs : I s) :
    Along step good s es ↔ Along step good' s es := by
  induction es generalizing s with
  | nil => exact Iff.rfl
  | cons e es ih =>
    apply and_congr (h s e hs)
    constructor
    · intro hrun s' hs'
      exact (ih (hstep s e s' hs hs')).mp (hrun s' hs')
    · intro hrun s' hs'
      exact (ih (hstep s e s' hs hs')).mpr (hrun s' hs')

/-- **The guarded run rule**: what the steps meeting `good` preserve holds after every run whose
steps all meet `good`. -/
theorem exec_along {good : σ → ε → Prop} {I : σ → Prop}
    (hstep : ∀ s e s', I s → good s e → step s e = .ok s' → I s') :
    ∀ {s : σ} {es : List ε} {t : σ}, I s → Along step good s es → exec step s es = .ok t → I t := by
  intro s es
  induction es generalizing s with
  | nil =>
    intro t hs _ ht
    cases ht
    exact hs
  | cons e es ih =>
    intro t hs hgood ht
    obtain ⟨s', hs', ht⟩ := exec_cons_eq_ok.mp ht
    exact ih (hstep s e s' hs hgood.1 hs') (hgood.2 s' hs') ht

/-- **The guarded error rule**: what holds of every error of a step meeting `good` holds of the error
that ends a run whose steps all meet it. -/
theorem exec_along_error {good : σ → ε → Prop} {I : σ → Prop} {P : φ → Prop}
    (hstep : ∀ s e s', I s → good s e → step s e = .ok s' → I s')
    (herror : ∀ s e f, I s → good s e → step s e = .error f → P f) :
    ∀ {s : σ} {es : List ε} {f : φ}, I s → Along step good s es → exec step s es = .error f → P f := by
  intro s es
  induction es generalizing s with
  | nil =>
    intro f _ _ hf
    cases hf
  | cons e es ih =>
    intro f hs hgood hf
    unfold exec at hf
    cases h : step s e with
    | ok s' =>
      rw [h] at hf
      exact ih (hstep s e s' hs hgood.1 h) (hgood.2 s' h) hf
    | error f' =>
      rw [h] at hf
      cases hf
      exact herror s e f hs hgood.1 h

/-- **The run rule**: what every step preserves holds after every run. -/
theorem exec_invariant {I : σ → Prop} (hstep : ∀ s e s', I s → step s e = .ok s' → I s')
    {s : σ} {es : List ε} {t : σ} (hs : I s) (ht : exec step s es = .ok t) : I t := by
  induction es generalizing s with
  | nil =>
    cases ht
    exact hs
  | cons e es ih =>
    obtain ⟨s', hs', ht⟩ := exec_cons_eq_ok.mp ht
    exact ih (hstep s e s' hs hs') ht

/-- **The simulation rule**: when the steps meeting `good` are followed by the machine `step'`, a run
whose steps all meet it is a run of that machine. -/
theorem exec_simulation {α ψ : Type} {step' : α → ε → Except ψ α} {good : σ → ε → Prop}
    {R : σ → α → Prop}
    (hstep : ∀ s a e s', R s a → good s e → step s e = .ok s' →
      ∃ a', step' a e = .ok a' ∧ R s' a') :
    ∀ {s : σ} {a : α} {es : List ε} {t : σ}, R s a → Along step good s es → exec step s es = .ok t →
      ∃ b, exec step' a es = .ok b ∧ R t b := by
  intro s a es
  induction es generalizing s a with
  | nil =>
    intro t hs _ ht
    cases ht
    exact ⟨a, rfl, hs⟩
  | cons e es ih =>
    intro t hs hgood ht
    obtain ⟨s', hs', ht⟩ := exec_cons_eq_ok.mp ht
    obtain ⟨a', ha', hs''⟩ := hstep s a e s' hs hgood.1 hs'
    obtain ⟨b, hb, ht⟩ := ih hs'' (hgood.2 s' hs') ht
    exact ⟨b, exec_cons_eq_ok.mpr ⟨a', ha', hb⟩, ht⟩

/-- **The flag rule**: a flag that a step raises exactly when it fails `good` is up after a run
exactly when it was up before, or not all steps of the run meet `good`. -/
theorem exec_flag {good : σ → ε → Prop} {B : σ → Prop}
    (hstep : ∀ s e s', step s e = .ok s' → (B s' ↔ B s ∨ ¬ good s e)) {s : σ} {es : List ε} {t : σ}
    (ht : exec step s es = .ok t) : B t ↔ B s ∨ ¬ Along step good s es := by
  induction es generalizing s with
  | nil =>
    cases ht
    simp [Along]
  | cons e es ih =>
    obtain ⟨s', hs', ht⟩ := exec_cons_eq_ok.mp ht
    have hrest : Along step good s (e :: es) ↔ good s e ∧ Along step good s' es := by
      simp [Along, hs']
    rw [ih ht, hstep s e s' hs', hrest]
    tauto

/-- **The exact run rule**: what a step keeps exactly when it meets `good` holds all along a run
exactly when all steps of the run meet `good`. -/
theorem exec_exact {good : σ → ε → Prop} {I J : σ → Prop}
    (hkeep : ∀ s e s', J s → step s e = .ok s' → J s')
    (hstep : ∀ s e s', J s → I s → step s e = .ok s' → (I s' ↔ good s e)) {s : σ} {es : List ε}
    {t : σ} (hJ : J s) (hI : I s) (ht : exec step s es = .ok t) :
    (∀ k s', exec step s (es.take k) = .ok s' → I s') ↔ Along step good s es := by
  induction es generalizing s with
  | nil =>
    refine iff_of_true (fun k s' hs' => ?_) trivial
    rw [List.take_nil] at hs'
    cases hs'
    exact hI
  | cons e es ih =>
    obtain ⟨s', hs', ht⟩ := exec_cons_eq_ok.mp ht
    have hrest : Along step good s (e :: es) ↔ good s e ∧ Along step good s' es := by
      simp [Along, hs']
    rw [hrest]
    constructor
    · intro h
      have hI' : I s' := h 1 s' (exec_cons_eq_ok.mpr ⟨s', hs', rfl⟩)
      refine ⟨(hstep s e s' hJ hI hs').mp hI', ?_⟩
      refine (ih (hkeep s e s' hJ hs') hI' ht).mp fun k u hu => ?_
      exact h (k + 1) u (exec_cons_eq_ok.mpr ⟨s', hs', hu⟩)
    · rintro ⟨hgood, hrun⟩ k u hu
      have hI' := (hstep s e s' hJ hI hs').mpr hgood
      cases k with
      | zero =>
        cases hu
        exact hI
      | succ k =>
        obtain ⟨s'', hs'', hu⟩ := exec_cons_eq_ok.mp hu
        cases hs'.symm.trans hs''
        exact (ih (hkeep s e s' hJ hs') hI' ht).mpr hrun k u hu

/-- **The rest rule**: when every step leaves a part of the state as it is or makes it smaller, a run
leads to a state from which on that part stays. -/
theorem exec_rests {β : Type} {μ : β → ℕ} {I : σ → Prop} (view : σ → β)
    (hstep : ∀ s e s', I s → step s e = .ok s' →
      I s' ∧ (view s' = view s ∨ μ (view s') < μ (view s))) {s : σ} (hs : I s) :
    ∃ es t, exec step s es = .ok t ∧ I t ∧
      ∀ fs u, exec step t fs = .ok u → view u = view t := by
  have hrun : ∀ {s : σ} {es : List ε} {t : σ}, I s → exec step s es = .ok t →
      I t ∧ (view t = view s ∨ μ (view t) < μ (view s)) := by
    intro s es t hs ht
    refine exec_invariant (I := fun t => I t ∧ (view t = view s ∨ μ (view t) < μ (view s)))
      (fun t e t' ht hstep' => ?_) ⟨hs, .inl rfl⟩ ht
    obtain ⟨hI, hview⟩ := hstep t e t' ht.1 hstep'
    refine ⟨hI, ?_⟩
    rcases hview with hview | hview
    · rw [hview]
      exact ht.2
    · rcases ht.2 with heq | hlt
      · exact .inr (heq ▸ hview)
      · exact .inr (Nat.lt_trans hview hlt)
  -- on the measure: a run that changes the part makes it smaller
  induction hn : μ (view s) using Nat.strongRecOn generalizing s with
  | ind n ih =>
    by_cases hrest : ∀ fs u, exec step s fs = .ok u → view u = view s
    · exact ⟨[], s, rfl, hs, hrest⟩
    · push Not at hrest
      obtain ⟨fs, u, hu, hne⟩ := hrest
      obtain ⟨hI, heq | hlt⟩ := hrun hs hu
      · exact absurd heq hne
      · obtain ⟨es, t, ht, hrest⟩ := ih (μ (view u)) (hn ▸ hlt) hI rfl
        exact ⟨fs ++ es, t, exec_append_eq_ok.mpr ⟨u, hu, ht⟩, hrest⟩

end Transition
