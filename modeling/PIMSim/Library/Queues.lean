import Mathlib.Data.List.Basic
import Mathlib.Data.List.Perm.Basic

/-!
# Lists of queues

What a list of queues holds altogether, when one of them changes.

## Main results

* `flatten_set_perm`: one queue is replaced
* `flatten_grow_perm`, `flatten_shrink_perm`: entries are added to a queue, or taken from it
* `flatten_push_perm`, `flatten_pop_perm`: an entry is added to a queue, or taken from its head
-/

namespace Queues

variable {α : Type}

/-- One queue of a list of queues is replaced. -/
theorem flatten_set_perm {queues : List (List α)} {k : ℕ} {q : List α}
    (h : queues[k]? = some q) (q' : List α) :
    (q ++ (queues.set k q').flatten).Perm (q' ++ queues.flatten) := by
  induction queues generalizing k with
  | nil => cases h
  | cons r queues ih =>
    cases k with
    | zero =>
      cases h
      rw [List.set_cons_zero, List.flatten_cons, List.flatten_cons, ← List.append_assoc,
        ← List.append_assoc]
      exact List.perm_append_comm.append_right _
    | succ k =>
      rw [List.set_cons_succ, List.flatten_cons, List.flatten_cons]
      refine (List.perm_append_comm_assoc ..).trans (.trans ?_ (List.perm_append_comm_assoc ..))
      exact (ih h).append_left r

/-- Entries are added to one of the queues. -/
theorem flatten_grow_perm {queues : List (List α)} {k : ℕ} {q q' r : List α}
    (h : queues[k]? = some q) (hq : q'.Perm (r ++ q)) :
    (queues.set k q').flatten.Perm (r ++ queues.flatten) := by
  apply (List.perm_append_left_iff q).mp
  refine (flatten_set_perm h q').trans ((hq.append_right _).trans ?_)
  rw [← List.append_assoc]
  exact List.perm_append_comm.append_right _

/-- Entries are taken from one of the queues. -/
theorem flatten_shrink_perm {queues : List (List α)} {k : ℕ} {q q' r : List α}
    (h : queues[k]? = some q) (hq : q.Perm (r ++ q')) :
    queues.flatten.Perm (r ++ (queues.set k q').flatten) := by
  apply (List.perm_append_left_iff q').mp
  refine (flatten_set_perm h q').symm.trans ((hq.append_right _).trans ?_)
  rw [← List.append_assoc]
  exact List.perm_append_comm.append_right _

/-- An entry is added to one of the queues. -/
theorem flatten_push_perm {queues : List (List α)} {k : ℕ} {q : List α}
    (h : queues[k]? = some q) (m : α) :
    (queues.set k (q ++ [m])).flatten.Perm (m :: queues.flatten) :=
  flatten_grow_perm (r := [m]) h (List.perm_append_singleton m q)

/-- The head of one of the queues is taken. -/
theorem flatten_pop_perm {queues : List (List α)} {k : ℕ} {q : List α} {m : α}
    (h : queues[k]? = some (m :: q)) : queues.flatten.Perm (m :: (queues.set k q).flatten) :=
  flatten_shrink_perm (r := [m]) h (List.Perm.refl _)

end Queues
