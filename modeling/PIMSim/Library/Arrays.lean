import PIMSim.Library.Outcome

/-!
# Tables of a fixed size

An access past the end of an array and one past the end of a list throw different exceptions, so the
accesses are told which one.

## Main definitions

* `access e xs i`, `replace e xs i x`: the access `xs[i]`, and the assignment `xs[i] = x`
* `copy e read l xs`: the loop that assigns `xs[i] = read i` for the indices of a list
* `assign xs i x`, `assignAll read l xs`: the same for an array of any length
* `deref r`: the use of a reference

## Main results

* `access_eq_ok`: an access returns when its index is in range
* `copy_eq_ok`: a loop whose indices are in range, and what the table holds after it
* `copy_ne_ok`: a loop with an index out of range
* `assignAll_returns`: a loop on an array of any length returns when its indices are in range
-/

namespace CSharp

variable {α : Type} {n : ℕ} {e : Fault}

/-- The access `xs[i]`, which throws `e`. -/
def access (e : Fault) (xs : Vector α n) (i : ℕ) : Outcome α :=
  if h : i < n then .ok xs[i] else .error e

/-- The assignment `xs[i] = x`, which throws `e`. -/
def replace (e : Fault) (xs : Vector α n) (i : ℕ) (x : α) : Outcome (Vector α n) :=
  if h : i < n then .ok (xs.set i x) else .error e

/-- The loop that assigns `xs[i] = read i` for the indices of a list. -/
def copy (e : Fault) (read : ℕ → Outcome α) (l : List ℕ) (xs : Vector α n) : Outcome (Vector α n) :=
  l.foldlM (fun xs i => do replace e xs i (← read i)) xs

variable {xs : Vector α n} {i : ℕ} {x : α}

theorem access_of_lt (h : i < n) : access e xs i = .ok xs[i] := dif_pos h

theorem access_of_le (h : n ≤ i) : access e xs i = .error e := dif_neg (Nat.not_lt.mpr h)

/-- An access returns when its index is in range. -/
theorem access_eq_ok : access e xs i = .ok x ↔ ∃ h : i < n, xs[i] = x := by
  by_cases h : i < n
  · rw [access_of_lt h]
    constructor
    · intro heq
      exact ⟨h, Except.ok.inj heq⟩
    · rintro ⟨-, rfl⟩
      rfl
  · rw [access_of_le (Nat.not_lt.mp h)]
    constructor
    · intro heq
      cases heq
    · rintro ⟨h', -⟩
      exact absurd h' h

theorem replace_of_lt (h : i < n) : replace e xs i x = .ok (xs.set i x) := dif_pos h

theorem replace_of_le (h : n ≤ i) : replace e xs i x = .error e := dif_neg (Nat.not_lt.mpr h)

/-- An assignment returns when its index is in range. -/
theorem replace_returns : (∃ ys, replace e xs i x = .ok ys) ↔ i < n := by
  by_cases h : i < n
  · exact iff_of_true ⟨_, replace_of_lt h⟩ h
  · refine iff_of_false ?_ h
    rintro ⟨ys, hys⟩
    rw [replace_of_le (Nat.not_lt.mp h)] at hys
    cases hys

theorem copy_cons {read : ℕ → Outcome α} {l : List ℕ} (hread : read i = .ok x) (h : i < n) :
    copy e read (i :: l) xs = copy e read l (xs.set i x) := by
  unfold copy
  rw [List.foldlM_cons, hread, Outcome.ok_bind, replace_of_lt h, Outcome.ok_bind]

/-- **A loop whose indices are in range** returns, and the table holds what it has read. -/
theorem copy_eq_ok (xs : Vector α n) {read : ℕ → Outcome α} {f : ℕ → α} {l : List ℕ}
    (hl : ∀ i ∈ l, i < n ∧ read i = .ok (f i)) :
    ∃ ys : Vector α n, copy e read l xs = .ok ys ∧
      ∀ i (h : i < n), ys[i] = if i ∈ l then f i else xs[i] := by
  induction l generalizing xs with
  | nil => exact ⟨xs, rfl, fun i h => (if_neg List.not_mem_nil).symm⟩
  | cons j l ih =>
    obtain ⟨hj, hread⟩ := hl j List.mem_cons_self
    obtain ⟨ys, hys, hvalues⟩ :=
      ih (xs.set j (f j)) fun i hi => hl i (List.mem_cons_of_mem j hi)
    refine ⟨ys, (copy_cons hread hj).trans hys, ?_⟩
    intro i h
    rw [hvalues i h]
    by_cases hmem : i ∈ l
    · rw [if_pos hmem, if_pos (List.mem_cons_of_mem j hmem)]
    · by_cases hij : i = j
      · subst hij
        rw [if_neg hmem, if_pos List.mem_cons_self, Vector.getElem_set_self]
      · rw [if_neg hmem, if_neg (by simp [hij, hmem]), Vector.getElem_set_ne hj h (Ne.symm hij)]

/-- **A loop with an index out of range** does not return. -/
theorem copy_ne_ok {read : ℕ → Outcome α} {l : List ℕ} (hi : i ∈ l) (h : n ≤ i)
    (ys : Vector α n) : copy e read l xs ≠ .ok ys := by
  induction l generalizing xs with
  | nil => cases hi
  | cons j l ih =>
    unfold copy
    rw [List.foldlM_cons]
    intro heq
    obtain ⟨zs, hzs, heq⟩ := Outcome.bind_eq_ok.mp heq
    rcases List.mem_cons.mp hi with rfl | hi
    · obtain ⟨x, -, hx⟩ := Outcome.bind_eq_ok.mp hzs
      rw [replace_of_le h] at hx
      cases hx
    · exact ih hi heq

/-! ### Arrays of any length -/

/-- The assignment `xs[i] = x` to an array. -/
def assign (xs : List α) (i : ℕ) (x : α) : Outcome (List α) :=
  if i < xs.length then .ok (xs.set i x) else .error .indexOutOfRange

/-- The loop that assigns `xs[i] = read i` to an array. -/
def assignAll (read : ℕ → Outcome α) (l : List ℕ) (xs : List α) : Outcome (List α) :=
  l.foldlM (fun xs i => do assign xs i (← read i)) xs

/-- **A loop on an array** returns when its indices are in range. -/
theorem assignAll_returns {read : ℕ → Outcome α} {f : ℕ → α} {l : List ℕ} {xs : List α}
    (hread : ∀ i ∈ l, read i = .ok (f i)) :
    (∃ ys, assignAll read l xs = .ok ys) ↔ ∀ i ∈ l, i < xs.length := by
  induction l generalizing xs with
  | nil => exact iff_of_true ⟨xs, rfl⟩ fun i hi => absurd hi List.not_mem_nil
  | cons j l ih =>
    unfold assignAll
    rw [List.foldlM_cons, hread j List.mem_cons_self, Outcome.ok_bind]
    unfold assign
    by_cases hj : j < xs.length
    · rw [if_pos hj, Outcome.ok_bind]
      have hrest := @ih (xs.set j (f j)) fun i hi => hread i (List.mem_cons_of_mem j hi)
      unfold assignAll assign at hrest
      rw [hrest, List.forall_mem_cons, List.length_set]
      exact (and_iff_right hj).symm
    · rw [if_neg hj, List.forall_mem_cons]
      refine iff_of_false ?_ fun h => hj h.1
      rintro ⟨ys, h⟩
      cases h

/-- **A loop on an array** that returns leaves what it has read. -/
theorem getElem?_assignAll {read : ℕ → Outcome α} {f : ℕ → α} {l : List ℕ} {xs ys : List α}
    (hread : ∀ i ∈ l, read i = .ok (f i)) (h : assignAll read l xs = .ok ys) (i : ℕ) :
    ys[i]? = if i ∈ l then some (f i) else xs[i]? := by
  induction l generalizing xs with
  | nil =>
    cases h
    exact (if_neg List.not_mem_nil).symm
  | cons j l ih =>
    unfold assignAll at h
    rw [List.foldlM_cons, hread j List.mem_cons_self, Outcome.ok_bind] at h
    obtain ⟨zs, hzs, h⟩ := Outcome.bind_eq_ok.mp h
    unfold assign at hzs
    split_ifs at hzs with hj
    cases hzs
    rw [ih (fun i hi => hread i (List.mem_cons_of_mem j hi)) h]
    by_cases hmem : i ∈ l
    · rw [if_pos hmem, if_pos (List.mem_cons_of_mem j hmem)]
    · by_cases hij : i = j
      · subst hij
        rw [if_neg hmem, if_pos List.mem_cons_self, List.getElem?_set_self hj]
      · rw [if_neg hmem, if_neg (by simp [hij, hmem]), List.getElem?_set_ne (Ne.symm hij)]

/-- A reference that is used. -/
def deref {β : Type} : Option β → Outcome β
  | some x => .ok x
  | none => .error .nullReference

end CSharp
