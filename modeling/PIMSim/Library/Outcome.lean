import Mathlib.Data.List.Basic

/-!
# Outcomes of calls that may throw

A call of a managed-code method returns a value or stops the program: it throws, exits, or loops
for ever. List and array accesses with an index out of range throw.

## Main definitions

* `Fault`: the ways a call fails to return
* `Outcome α`: a value, or a fault
* `Avoids e x`: a call does not end in the fault `e`
* `listAt xs i`, `arrayAt xs i`: the list access and the array access `xs[i]`

## Main results

* `Avoids.bind`: a sequence of calls avoids a fault when each of them does
* `Outcome.bind_eq_ok`: a sequence of calls returns when each of them does
* `Outcome.mapM_eq_ok`: so do the calls on the elements of a list
* `listAt_eq_ok`: a list access returns the element at an index in range
* `listAt_set`: the accesses of a list with one element replaced
-/

namespace CSharp

/-- The ways a call fails to return. -/
inductive Fault
  | divideByZero
  | argumentOutOfRange
  | indexOutOfRange
  | nullReference
  | argument
  | outOfMemory
  | invalidOperation
  | keyNotFound
  | format
  | overflow
  | exit (code : Int) (message : String := "")
  | nonTermination
deriving DecidableEq, Repr

/-- A value, or the fault that stops the program. -/
abbrev Outcome := Except Fault

theorem Outcome.bind_eq_ok {α β : Type} {x : Outcome α} {f : α → Outcome β} {b : β} :
    (x >>= f) = .ok b ↔ ∃ a, x = .ok a ∧ f a = .ok b := by
  cases x <;> simp [bind, Except.bind]

@[simp] theorem Outcome.ok_bind {α β : Type} (a : α) (f : α → Outcome β) :
    ((Except.ok a : Outcome α) >>= f) = f a := rfl

@[simp] theorem Outcome.error_bind {α β : Type} (e : Fault) (f : α → Outcome β) :
    ((Except.error e : Outcome α) >>= f) = .error e := rfl

/-- A call whose result maps to a value returns. -/
theorem Outcome.exists_of_map_eq_ok {α β : Type} {x : Outcome α} {f : α → β} {b : β}
    (h : x.map f = .ok b) : ∃ a, x = .ok a ∧ f a = b := by
  cases x with
  | error e => cases h
  | ok a => exact ⟨a, rfl, Except.ok.inj h⟩

/-- A call whose result maps to a fault ends in it. -/
theorem Outcome.eq_error_of_map {α β : Type} {x : Outcome α} {f : α → β} {e : Fault}
    (h : x.map f = .error e) : x = .error e := by
  cases x with
  | error e' =>
    cases h
    rfl
  | ok a => cases h

/-- The calls on the elements of a list return when each of them does. -/
theorem Outcome.mapM_eq_ok {α β : Type} {f : α → Outcome β} {g : α → β} {l : List α}
    (h : ∀ x ∈ l, f x = .ok (g x)) : l.mapM f = .ok (l.map g) := by
  induction l with
  | nil => rfl
  | cons x l ih =>
    rw [List.mapM_cons, h x List.mem_cons_self, ih fun y hy => h y (List.mem_cons_of_mem x hy)]
    rfl

/-- The call does not end in the fault `e`. -/
def Avoids (e : Fault) {α : Type} (x : Outcome α) : Prop := x ≠ .error e

@[simp] theorem avoids_ok {e : Fault} {α : Type} (a : α) : Avoids e (.ok a : Outcome α) := nofun

@[simp] theorem avoids_pure {e : Fault} {α : Type} (a : α) : Avoids e (pure a : Outcome α) := nofun

@[simp] theorem avoids_error {e e' : Fault} {α : Type} :
    Avoids e (.error e' : Outcome α) ↔ e' ≠ e := by
  simp [Avoids]

/-- A sequence of calls avoids a fault when each of them does. -/
theorem Avoids.bind {e : Fault} {α β : Type} {x : Outcome α} {f : α → Outcome β}
    (hx : Avoids e x) (hf : ∀ a, x = .ok a → Avoids e (f a)) : Avoids e (x >>= f) := by
  cases x with
  | error e' => exact fun h => hx (by cases h; rfl)
  | ok a => exact hf a rfl

/-- The list access `xs[i]`. -/
def listAt {α : Type} (xs : List α) (i : Int) : Outcome α :=
  if i < 0 then .error .argumentOutOfRange
  else match xs[i.toNat]? with
    | some x => .ok x
    | none => .error .argumentOutOfRange

theorem listAt_eq_ok {α : Type} {xs : List α} {i : Int} {x : α} :
    listAt xs i = .ok x ↔ 0 ≤ i ∧ xs[i.toNat]? = some x := by
  unfold listAt
  by_cases hi : i < 0
  · simp [hi, Int.not_le.mpr hi]
  · cases hx : xs[i.toNat]? <;> simp [hi, Int.not_lt.mp hi]

theorem listAt_natCast {α : Type} {xs : List α} {n : ℕ} {x : α} :
    listAt xs (n : Int) = .ok x ↔ xs[n]? = some x := by
  simp [listAt_eq_ok]

/-- The accesses of a list with one element replaced. -/
theorem listAt_set {α : Type} {xs : List α} {i j : Int} {x y : α} (h : listAt xs i = .ok x) :
    listAt (xs.set i.toNat y) j = if j = i then .ok y else listAt xs j := by
  obtain ⟨hi, hx⟩ := listAt_eq_ok.mp h
  have hlt : i.toNat < xs.length := (List.getElem?_eq_some_iff.mp hx).1
  by_cases hij : j = i
  · rw [if_pos hij, hij]
    exact listAt_eq_ok.mpr ⟨hi, List.getElem?_set_self hlt⟩
  · rw [if_neg hij]
    unfold listAt
    by_cases hj : j < 0
    · rw [if_pos hj, if_pos hj]
    · have hne : i.toNat ≠ j.toNat := by omega
      rw [if_neg hj, if_neg hj, List.getElem?_set_ne hne]

theorem avoids_listAt {e : Fault} (he : e ≠ .argumentOutOfRange) {α : Type} (xs : List α)
    (i : Int) : Avoids e (listAt xs i) := by
  unfold listAt
  split_ifs
  · exact avoids_error.mpr he.symm
  · split
    · exact avoids_ok _
    · exact avoids_error.mpr he.symm

/-- What a list of accesses returns is in the list. -/
theorem mem_of_mapM_listAt {α : Type} {xs ys : List α} {is : List Int}
    (h : is.mapM (listAt xs) = .ok ys) : ∀ y ∈ ys, y ∈ xs := by
  induction is generalizing ys with
  | nil =>
    cases h
    intro y hy
    cases hy
  | cons i is ih =>
    rw [List.mapM_cons] at h
    obtain ⟨x, hx, h⟩ := Outcome.bind_eq_ok.mp h
    obtain ⟨zs, hzs, heq⟩ := Outcome.bind_eq_ok.mp h
    cases heq
    intro y hy
    rcases List.mem_cons.mp hy with rfl | hy
    · exact List.mem_of_getElem? (listAt_eq_ok.mp hx).2
    · exact ih hzs y hy

/-- The array access `xs[i]`. -/
def arrayAt {α : Type} (xs : List α) (i : Int) : Outcome α :=
  if i < 0 then .error .indexOutOfRange
  else match xs[i.toNat]? with
    | some x => .ok x
    | none => .error .indexOutOfRange

theorem arrayAt_eq_ok {α : Type} {xs : List α} {i : Int} {x : α} :
    arrayAt xs i = .ok x ↔ 0 ≤ i ∧ xs[i.toNat]? = some x := by
  unfold arrayAt
  by_cases hi : i < 0
  · simp [hi, Int.not_le.mpr hi]
  · cases hx : xs[i.toNat]? <;> simp [hi, Int.not_lt.mp hi]

theorem avoids_arrayAt {e : Fault} (he : e ≠ .indexOutOfRange) {α : Type} (xs : List α)
    (i : Int) : Avoids e (arrayAt xs i) := by
  unfold arrayAt
  split_ifs
  · exact avoids_error.mpr he.symm
  · split
    · exact avoids_ok _
    · exact avoids_error.mpr he.symm

end CSharp
