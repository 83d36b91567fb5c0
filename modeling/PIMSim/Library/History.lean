import Mathlib.Data.List.DropRight

/-!
# Histories

A history is the list of what happened, the latest at its end. An ordering law says of each event what
must precede it, often since the last event that opened a new episode.

## Main definitions

* `Admitted`: each event is admissible after what precedes it
* `since`: the part of a history after the last event that opens an episode

## Main results

* `admitted_append`: how a history that meets an ordering law is continued
* `since_append`: an episode goes on until an event opens the next one
-/

namespace History

variable {α : Type}

/-- Each event is admissible after what precedes it. -/
def Admitted (admissible : List α → α → Prop) (h : List α) : Prop :=
  ∀ pre e post, h = pre ++ e :: post → admissible pre e

variable {admissible : List α → α → Prop} {h hs : List α} {e : α}

theorem admitted_nil : Admitted admissible [] := by
  intro pre e post heq
  cases pre <;> cases heq

/-- A history goes on with events that are admissible one after the other. -/
theorem admitted_append (hh : Admitted admissible h)
    (hhs : ∀ pre e post, hs = pre ++ e :: post → admissible (h ++ pre) e) :
    Admitted admissible (h ++ hs) := by
  intro pre e post heq
  rcases List.append_eq_append_iff.mp heq with ⟨mid, rfl, hmid⟩ | ⟨mid, rfl, hmid⟩
  · exact hhs mid e post hmid
  · cases mid with
    | nil =>
      have hnew := hhs [] e post hmid.symm
      rwa [List.append_nil, List.append_nil] at hnew
    | cons f mid =>
      obtain ⟨rfl, -⟩ := List.cons.inj hmid
      exact hh pre e mid rfl

theorem admitted_concat (hh : Admitted admissible h) (he : admissible h e) :
    Admitted admissible (h ++ [e]) := by
  apply admitted_append hh
  intro pre f post heq
  cases pre with
  | nil =>
    obtain ⟨rfl, -⟩ := List.cons.inj heq
    rwa [List.append_nil]
  | cons g pre =>
    obtain ⟨-, htail⟩ := List.cons.inj heq
    cases pre <;> cases htail

/-- The part of a history after the last event that opens an episode. -/
def since (opens : α → Bool) (h : List α) : List α := h.rtakeWhile fun e => !opens e

variable {opens : α → Bool}

/-- An episode goes on until an event opens the next one. -/
theorem since_append (hhs : ∀ e ∈ hs, opens e = false) :
    since opens (h ++ hs) = since opens h ++ hs := by
  induction hs using List.reverseRecOn with
  | nil => rw [List.append_nil, List.append_nil]
  | append_singleton hs e ih =>
    have he : (!opens e) = true := by
      rw [hhs e (by simp)]
      rfl
    have hgo : since opens (h ++ hs ++ [e]) = since opens (h ++ hs) ++ [e] :=
      List.rtakeWhile_concat_pos _ _ _ he
    rw [← List.append_assoc, hgo, ih fun e he => hhs e (List.mem_append_left _ he),
      List.append_assoc]

theorem since_concat_opens (he : opens e = true) : since opens (h ++ [e]) = [] := by
  unfold since
  apply List.rtakeWhile_concat_neg
  rw [he]
  exact Bool.false_ne_true

end History
