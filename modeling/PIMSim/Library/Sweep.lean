import PIMSim.Library.Outcome

/-!
# Sweeping a list in place

A loop over the indices of a list visits each entry, carries a state, and removes the entries it
is done with as it goes: `for (i = 0; i < xs.Count; i++)`, with `xs.RemoveAt(i); i--` at a removal.
Every entry is visited exactly once, in order, and the entries not removed stay in order.

## Main definitions

* `scanFrom visit removes n s xs i`: the loop from index `i`, for at most `n` rounds
* `scan visit removes s xs`: the loop
* `visits visit s xs`: the verdicts of the visits, each entry visited once in order
* `kept removes vs`, `removed removes vs`: the entries the verdicts keep, and remove

## Main results

* `scan_eq_visits`: the loop is its visits, and leaves what they keep
* `visits_rule`: what each visit preserves holds when the sweep is over
* `visits_returns`: a sweep returns when each visit does
* `kept_removed_perm`: every visited entry is kept or removed, exactly one of both
-/

namespace Sweep

variable {σ α β φ : Type}

/-- The loop from index `i`, for at most `n` rounds. -/
def scanFrom (visit : σ → α → Except φ (σ × β)) (removes : β → Bool) :
    ℕ → σ → List α → ℕ → Except φ (σ × List α)
  | 0, s, xs, _ => .ok (s, xs)
  | n + 1, s, xs, i =>
    match xs[i]? with
    | none => .ok (s, xs)
    | some x =>
      match visit s x with
      | .error e => .error e
      | .ok (s', b) =>
        if removes b then scanFrom visit removes n s' (xs.eraseIdx i) i
        else scanFrom visit removes n s' xs (i + 1)

/-- The loop. Each round shortens what is left to visit by one, so the list's length is enough
rounds. -/
def scan (visit : σ → α → Except φ (σ × β)) (removes : β → Bool) (s : σ) (xs : List α) :
    Except φ (σ × List α) :=
  scanFrom visit removes xs.length s xs 0

/-- The verdicts of the visits, each entry visited once in order. -/
def visits (visit : σ → α → Except φ (σ × β)) : σ → List α → Except φ (σ × List (α × β))
  | s, [] => .ok (s, [])
  | s, x :: xs =>
    match visit s x with
    | .error e => .error e
    | .ok (s', b) =>
      match visits visit s' xs with
      | .error e => .error e
      | .ok (t, vs) => .ok (t, (x, b) :: vs)

/-- The entries the verdicts keep. -/
def kept (removes : β → Bool) (vs : List (α × β)) : List α :=
  (vs.filter fun v => !removes v.2).map Prod.fst

/-- The entries the verdicts remove. -/
def removed (removes : β → Bool) (vs : List (α × β)) : List α :=
  (vs.filter fun v => removes v.2).map Prod.fst

@[simp] theorem kept_nil (removes : β → Bool) : kept removes ([] : List (α × β)) = [] := rfl

@[simp] theorem removed_nil (removes : β → Bool) : removed removes ([] : List (α × β)) = [] := rfl

theorem kept_cons (removes : β → Bool) (v : α × β) (vs : List (α × β)) :
    kept removes (v :: vs) = if removes v.2 then kept removes vs else v.1 :: kept removes vs := by
  cases h : removes v.2 <;> simp [kept, h]

theorem removed_cons (removes : β → Bool) (v : α × β) (vs : List (α × β)) :
    removed removes (v :: vs) =
      if removes v.2 then v.1 :: removed removes vs else removed removes vs := by
  cases h : removes v.2 <;> simp [removed, h]

variable {visit : σ → α → Except φ (σ × β)} {removes : β → Bool}

theorem visits_cons_eq_ok {s t : σ} {x : α} {xs : List α} {ws : List (α × β)} :
    visits visit s (x :: xs) = .ok (t, ws) ↔
      ∃ s' b vs, visit s x = .ok (s', b) ∧ visits visit s' xs = .ok (t, vs) ∧ ws = (x, b) :: vs := by
  cases h : visit s x with
  | error e => simp [visits, h]
  | ok r =>
    obtain ⟨s', b⟩ := r
    cases h' : visits visit s' xs with
    | error e => simp [visits, h, h']
    | ok r' =>
      obtain ⟨u, us⟩ := r'
      simp only [visits, h, h', Except.ok.injEq, Prod.mk.injEq]
      constructor
      · rintro ⟨rfl, rfl⟩
        exact ⟨s', b, us, ⟨rfl, rfl⟩, h', rfl⟩
      · rintro ⟨_, _, _, ⟨rfl, rfl⟩, hv, rfl⟩
        rw [h'] at hv
        cases hv
        exact ⟨rfl, rfl⟩

/-- The visits are of the list's entries, in order. -/
theorem visits_map_fst {s t : σ} {xs : List α} {vs : List (α × β)}
    (h : visits visit s xs = .ok (t, vs)) : vs.map Prod.fst = xs := by
  induction xs generalizing s vs with
  | nil =>
    cases h
    rfl
  | cons x xs ih =>
    obtain ⟨s', b, us, -, hus, rfl⟩ := visits_cons_eq_ok.mp h
    simp [ih hus]

/-- Visits that look at a part of the entries are the visits of the parts. -/
theorem visits_map {γ : Type} (f : γ → α) (s : σ) (xs : List γ) :
    visits visit s (xs.map f) = (visits (fun s x => visit s (f x)) s xs).map fun r =>
      (r.1, r.2.map fun v => (f v.1, v.2)) := by
  induction xs generalizing s with
  | nil => rfl
  | cons x xs ih =>
    rw [List.map_cons, visits, visits]
    cases visit s (f x) with
    | error e => rfl
    | ok r =>
      dsimp only
      rw [ih r.1]
      cases visits (fun s x => visit s (f x)) r.1 xs <;> rfl

theorem kept_map {γ : Type} (f : γ → α) (vs : List (γ × β)) :
    kept removes (vs.map fun v => (f v.1, v.2)) = (kept removes vs).map f := by
  simp [kept, List.filter_map, Function.comp_def]

/-- The loop from the entries after `pre`, which earlier rounds kept. -/
theorem scanFrom_eq_visits (s : σ) (pre xs : List α) :
    scanFrom visit removes xs.length s (pre ++ xs) pre.length =
      (visits visit s xs).map fun r => (r.1, pre ++ kept removes r.2) := by
  induction xs generalizing s pre with
  | nil => simp [scanFrom, visits, Except.map]
  | cons x xs ih =>
    simp only [List.length_cons, scanFrom, visits]
    rw [List.getElem?_append_right (Nat.le_refl _), Nat.sub_self, List.getElem?_cons_zero]
    dsimp only
    cases hv : visit s x with
    | error e => rfl
    | ok r =>
      obtain ⟨s', b⟩ := r
      cases hb : removes b with
      | true =>
        have he : (pre ++ x :: xs).eraseIdx pre.length = pre ++ xs := by
          rw [List.eraseIdx_append_of_length_le (Nat.le_refl _), Nat.sub_self, List.eraseIdx_cons_zero]
        simp only [hb, if_true, he, ih s' pre]
        cases visits visit s' xs <;> simp [Except.map, kept_cons, hb]
      | false =>
        have hp : pre ++ x :: xs = (pre ++ [x]) ++ xs := by simp
        have hl : pre.length + 1 = (pre ++ [x]).length := by simp
        simp only [hb, Bool.false_eq_true, if_false]
        rw [hp, hl, ih s' (pre ++ [x])]
        cases visits visit s' xs <;> simp [Except.map, kept_cons, hb]

/-- **The loop is its visits**: it visits every entry once, in order, and leaves the entries the
verdicts keep. -/
theorem scan_eq_visits (s : σ) (xs : List α) :
    scan visit removes s xs = (visits visit s xs).map fun r => (r.1, kept removes r.2) := by
  have h : scanFrom visit removes xs.length s ([] ++ xs) [].length = _ :=
    scanFrom_eq_visits s [] xs
  simpa [scan] using h

theorem scan_eq_ok {s t : σ} {xs ys : List α} :
    scan visit removes s xs = .ok (t, ys) ↔
      ∃ vs, visits visit s xs = .ok (t, vs) ∧ ys = kept removes vs := by
  rw [scan_eq_visits]
  cases h : visits visit s xs with
  | error e => simp [Except.map]
  | ok r =>
    obtain ⟨u, us⟩ := r
    simp only [Except.map, Except.ok.injEq, Prod.mk.injEq]
    constructor
    · rintro ⟨rfl, rfl⟩
      exact ⟨us, ⟨rfl, rfl⟩, rfl⟩
    · rintro ⟨vs, ⟨rfl, rfl⟩, rfl⟩
      exact ⟨rfl, rfl⟩

/-- **Nothing is lost or doubled**: the kept and the removed entries are the visited ones. -/
theorem kept_removed_perm (removes : β → Bool) (vs : List (α × β)) :
    (removed removes vs ++ kept removes vs).Perm (vs.map Prod.fst) := by
  rw [removed, kept, ← List.map_append]
  exact (List.filter_append_perm _ vs).map _

theorem kept_sublist (removes : β → Bool) (vs : List (α × β)) :
    (kept removes vs).Sublist (vs.map Prod.fst) :=
  List.filter_sublist.map _

/-- The entries that a scan keeps were there before. -/
theorem scan_sublist {removes : β → Bool} {s t : σ} {xs ys : List α}
    (h : scan visit removes s xs = .ok (t, ys)) : ys.Sublist xs := by
  obtain ⟨vs, hvs, rfl⟩ := scan_eq_ok.mp h
  have hkept := kept_sublist removes vs
  rwa [visits_map_fst hvs] at hkept

theorem mem_kept {removes : β → Bool} {vs : List (α × β)} {x : α} :
    x ∈ kept removes vs ↔ ∃ b, (x, b) ∈ vs ∧ removes b = false := by
  simp [kept]

theorem mem_removed {removes : β → Bool} {vs : List (α × β)} {x : α} :
    x ∈ removed removes vs ↔ ∃ b, (x, b) ∈ vs ∧ removes b = true := by
  simp [removed]

/-- **The sweep rule**: what each visit preserves, of the state, the entries still to visit and
the verdicts so far, holds when the sweep is over. -/
theorem visits_rule {P : σ → List α → List (α × β) → Prop}
    (hvisit : ∀ s x xs us s' b, P s (x :: xs) us → visit s x = .ok (s', b) →
      P s' xs (us ++ [(x, b)])) {s t : σ} {xs : List α} {us vs : List (α × β)}
    (hP : P s xs us) (h : visits visit s xs = .ok (t, vs)) : P t [] (us ++ vs) := by
  induction xs generalizing s us vs with
  | nil =>
    cases h
    simpa using hP
  | cons x xs ih =>
    obtain ⟨s', b, ws, hv, hws, rfl⟩ := visits_cons_eq_ok.mp h
    simpa using ih (hvisit s x xs us s' b hP hv) hws

/-- The sweep rule for what does not look at the verdicts. -/
theorem visits_rest_rule {P : σ → List α → Prop}
    (hvisit : ∀ s x xs s' b, P s (x :: xs) → visit s x = .ok (s', b) → P s' xs) {s t : σ}
    {xs : List α} {vs : List (α × β)} (hP : P s xs) (h : visits visit s xs = .ok (t, vs)) :
    P t [] := by
  have hrule := @visits_rule _ _ _ _ visit (fun s xs _ => P s xs)
    (fun s x xs _ s' b => hvisit s x xs s' b) s t xs [] vs
  exact hrule hP h

/-- Every verdict comes from a visit in a state that meets what the visits preserve. -/
theorem visits_verdict {I : σ → Prop}
    (hI : ∀ s x s' b, I s → visit s x = .ok (s', b) → I s') {s t : σ} {xs : List α}
    {vs : List (α × β)} (hs : I s) (h : visits visit s xs = .ok (t, vs)) :
    ∀ v ∈ vs, ∃ u u', I u ∧ visit u v.1 = .ok (u', v.2) := by
  induction xs generalizing s vs with
  | nil =>
    cases h
    intro v hv
    cases hv
  | cons x xs ih =>
    obtain ⟨s', b, us, hv, hus, rfl⟩ := visits_cons_eq_ok.mp h
    intro v hmem
    rcases List.mem_cons.mp hmem with rfl | hmem
    · exact ⟨s, s', hs, hv⟩
    · exact ih (hI s x s' b hs hv) hus v hmem

/-- The visits return when each of them does, in every state that meets what they preserve. -/
theorem visits_returns {I : σ → Prop} {xs : List α}
    (hI : ∀ s, I s → ∀ x ∈ xs, ∃ s' b, visit s x = .ok (s', b) ∧ I s') {s : σ} (hs : I s) :
    ∃ t vs, visits visit s xs = .ok (t, vs) := by
  induction xs generalizing s with
  | nil => exact ⟨s, [], rfl⟩
  | cons x xs ih =>
    obtain ⟨s', b, hv, hs'⟩ := hI s hs x (by simp)
    obtain ⟨t, vs, hvs⟩ := ih (fun u hu y hy => hI u hu y (by simp [hy])) hs'
    exact ⟨t, (x, b) :: vs, visits_cons_eq_ok.mpr ⟨s', b, vs, hv, hvs, rfl⟩⟩

end Sweep
