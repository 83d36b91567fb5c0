import Mathlib.Data.List.Nodup
import Mathlib.Data.List.Infix

/-!
# Positions of first touches

The distinct values of a sequence in the order of their first occurrence. A table that gives a
value something at its first touch, and never changes it, gives it by its position here.

## Main definitions

* `touch seen x`: `seen` after a touch of `x`
* `touched seen xs`: `seen` after the touches of `xs` in order

## Main results

* `nodup_touched`, `mem_touched`: no value is there twice, and exactly the touched ones are there
* `idxOf_touched`: a later touch moves no position
-/

namespace FirstTouch

variable {α : Type} [DecidableEq α]

/-- `seen` after a touch of `x`. -/
def touch (seen : List α) (x : α) : List α := if x ∈ seen then seen else seen ++ [x]

/-- `seen` after the touches of `xs` in order. -/
def touched (seen xs : List α) : List α := xs.foldl touch seen

@[simp] theorem touched_nil (seen : List α) : touched seen [] = seen := rfl

@[simp] theorem touched_cons (seen : List α) (x : α) (xs : List α) :
    touched seen (x :: xs) = touched (touch seen x) xs := rfl

theorem prefix_touch (seen : List α) (x : α) : seen <+: touch seen x := by
  unfold touch
  split
  · exact List.prefix_refl seen
  · exact List.prefix_append seen [x]

theorem prefix_touched (seen xs : List α) : seen <+: touched seen xs := by
  induction xs generalizing seen with
  | nil => exact List.prefix_refl seen
  | cons x xs ih => exact (prefix_touch seen x).trans (ih _)

theorem mem_touch {seen : List α} {x y : α} : y ∈ touch seen x ↔ y ∈ seen ∨ y = x := by
  unfold touch
  split
  · next h =>
    constructor
    · exact .inl
    · rintro (hy | rfl)
      · exact hy
      · exact h
  · simp

theorem mem_touched {seen xs : List α} {y : α} : y ∈ touched seen xs ↔ y ∈ seen ∨ y ∈ xs := by
  induction xs generalizing seen with
  | nil => simp
  | cons x xs ih => simp [ih, mem_touch, or_assoc]

theorem nodup_touch {seen : List α} (h : seen.Nodup) (x : α) : (touch seen x).Nodup := by
  unfold touch
  split
  · exact h
  · next hx => exact List.nodup_append.mpr ⟨h, List.nodup_singleton x, by grind⟩

theorem nodup_touched {seen : List α} (h : seen.Nodup) (xs : List α) :
    (touched seen xs).Nodup := by
  induction xs generalizing seen with
  | nil => exact h
  | cons x xs ih => exact ih (nodup_touch h x)

theorem idxOf_touch {seen : List α} {x y : α} (h : y ∈ seen) :
    (touch seen x).idxOf y = seen.idxOf y := by
  obtain ⟨t, ht⟩ := prefix_touch seen x
  rw [← ht, List.idxOf_append_of_mem h]

/-- A later touch moves no position. -/
theorem idxOf_touched {seen : List α} (xs : List α) {y : α} (h : y ∈ seen) :
    (touched seen xs).idxOf y = seen.idxOf y := by
  obtain ⟨t, ht⟩ := prefix_touched seen xs
  rw [← ht, List.idxOf_append_of_mem h]

/-- A value touched for the first time stands last. -/
theorem idxOf_touch_self {seen : List α} {x : α} (h : x ∉ seen) :
    (touch seen x).idxOf x = seen.length := by
  rw [touch, if_neg h, List.idxOf_append_of_notMem h]
  simp

theorem length_touch {seen : List α} {x : α} (h : x ∉ seen) :
    (touch seen x).length = seen.length + 1 := by
  rw [touch, if_neg h, List.length_append, List.length_singleton]

end FirstTouch
