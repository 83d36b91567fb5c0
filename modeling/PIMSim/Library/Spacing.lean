import Mathlib.Data.List.Chain
import Mathlib.Data.Nat.Notation

/-!
# Thinning a list

A sweep takes the entries of one kind out of a list, and passes over the entry behind each one it
takes. It takes them all if and only if no two of them are neighbours. Sweeps for one kind after the
other take all repetitions if those of a kind are apart once the earlier kinds have left.

## Main definitions

* `thin p xs`: what the sweep for the entries with `p` leaves
* `Apart p xs`: no two neighbours have `p`
* `Spaced same xs`: the repetitions of every kind are apart when the kinds in front of it are left out

## Main results

* `thin_eq_filter_iff`: the sweep takes all entries if and only if they are apart
* `spaced_cons`: the sweep for the first kind, and the remaining ones
* `spaced_of_pairwise`: a list without repetitions
-/

namespace Spacing

variable {α : Type} {p : α → Bool} {same : α → α → Bool}

/-- The entries with `p` are taken out, and the entry behind each of them stays. -/
def thin (p : α → Bool) : List α → List α
  | [] => []
  | [y] => if p y then [] else [y]
  | y :: z :: xs => if p y then z :: thin p xs else y :: thin p (z :: xs)

/-- No two neighbours of the list have `p`. -/
def Apart (p : α → Bool) (xs : List α) : Prop := xs.IsChain fun y z => p y = true → p z = false

/-- The entries whose kind is none of those in `seen`. -/
def unseen (same : α → α → Bool) (seen xs : List α) : List α :=
  xs.filter fun y => seen.all fun z => !same z y

/-- **Repetitions are apart**: behind an entry `x`, no two neighbours are of its kind when the kinds
in front of `x` are left out. -/
def Spaced (same : α → α → Bool) (xs : List α) : Prop :=
  ∀ seen x rest, xs = seen ++ x :: rest → Apart (same x) (unseen same seen rest)

/-! ### One sweep -/

theorem thin_sublist (xs : List α) : (thin p xs).Sublist xs := by
  fun_induction thin p xs with
  | case1 => exact .refl _
  | case2 => exact List.nil_sublist _
  | case3 => exact .refl _
  | case4 y z xs _ ih => exact (ih.cons_cons z).cons y
  | case5 y z xs _ ih => exact ih.cons_cons y

theorem apart_of_forall {xs : List α} (h : ∀ y ∈ xs, p y = false) : Apart p xs :=
  List.isChain_iff_getElem.mpr fun _ _ _ => h _ (List.getElem_mem _)

/-- **A sweep takes all entries** with `p` if and only if they are apart. -/
theorem thin_eq_filter_iff {xs : List α} : thin p xs = xs.filter (! p ·) ↔ Apart p xs := by
  unfold Apart
  fun_induction thin p xs with
  | case1 => simp
  | case2 y h => simp [h]
  | case3 y h => simp [h]
  | case4 y z xs h ih =>
    simp only [h, List.filter_cons, Bool.not_true, Bool.false_eq_true, if_false,
      List.isChain_cons_cons, true_imp_iff]
    cases hz : p z with
    | false =>
      simp only [Bool.not_false, if_true, List.cons.injEq, true_and, ih, List.isChain_cons]
      simp [hz]
    | true =>
      -- `z` stays, although it has `p`.
      simp only [Bool.not_true, Bool.false_eq_true, if_false, Bool.true_eq_false, false_and,
        iff_false]
      intro heq
      have hmem : z ∈ xs.filter (! p ·) := heq ▸ List.mem_cons_self
      exact absurd (List.of_mem_filter hmem) (by simp [hz])
  | case5 y z xs h ih =>
    rw [Bool.not_eq_true] at h
    rw [List.filter_cons, List.isChain_cons_cons]
    simp [h, ih]

/-- The sweep takes no entry without `p`. -/
theorem mem_thin {y : α} {xs : List α} (h : y ∈ xs) (hy : p y = false) : y ∈ thin p xs := by
  fun_induction thin p xs with
  | case1 => exact h
  | case2 z hz =>
    obtain rfl := List.mem_singleton.mp h
    exact absurd hz (by simp [hy])
  | case3 => exact h
  | case4 z w xs hz ih =>
    rcases List.mem_cons.mp h with rfl | h
    · exact absurd hz (by simp [hy])
    · rcases List.mem_cons.mp h with rfl | h
      · exact List.mem_cons_self
      · exact List.mem_cons_of_mem _ (ih h)
  | case5 z w xs hz ih =>
    rcases List.mem_cons.mp h with rfl | h
    · exact List.mem_cons_self
    · exact List.mem_cons_of_mem _ (ih h)

/-- A sweep that leaves no entry with `p` takes them all. -/
theorem apart_of_thin {xs : List α} (h : ∀ y ∈ thin p xs, p y = false) : Apart p xs := by
  apply thin_eq_filter_iff.mp
  fun_induction thin p xs with
  | case1 => rfl
  | case2 y hy => simp [hy]
  | case3 y hy => simp [hy]
  | case4 y z xs hy ih =>
    have hz := h z List.mem_cons_self
    rw [ih fun w hw => h w (List.mem_cons_of_mem _ hw)]
    simp [hy, hz]
  | case5 y z xs hy ih =>
    rw [ih fun w hw => h w (List.mem_cons_of_mem _ hw)]
    simp [hy]

/-! ### One sweep after the other -/

theorem Spaced.head {x : α} {xs : List α} (h : Spaced same (x :: xs)) : Apart (same x) xs := by
  simpa [unseen] using h [] x xs rfl

theorem unseen_cons (x : α) (seen xs : List α) :
    unseen same (x :: seen) xs = (unseen same seen xs).filter (! same x ·) := by
  simp only [unseen, List.filter_filter, List.all_cons]

section Kinds

variable (htrans : ∀ x y z, same x y → same y z → same x z)

include htrans

/-- What an entry does to the later ones does not depend on the entries of the kind of `x`, when
those are left out. -/
theorem unseen_filter (x : α) (seen xs : List α) :
    unseen same (seen.filter (! same x ·)) (xs.filter (! same x ·)) = unseen same (x :: seen) xs := by
  rw [unseen_cons]
  simp only [unseen, List.filter_filter]
  apply List.filter_congr
  intro y _
  rw [Bool.and_comm]
  cases hy : same x y with
  | true => rfl
  | false =>
    simp only [Bool.not_false, Bool.true_and]
    rw [Bool.eq_iff_iff]
    simp only [List.all_eq_true, List.mem_filter, Bool.not_eq_true', and_imp]
    constructor
    · intro h z hz
      cases hxz : same x z with
      | false => exact h z hz hxz
      | true =>
        rw [Bool.eq_false_iff]
        intro hzy
        exact absurd (htrans x z y hxz hzy) (by simp [hy])
    · exact fun h z hz _ => h z hz

/-- **The repetitions of a list are apart** if and only if those of its first entry are, and those of
the list without its kind. -/
theorem spaced_cons {x : α} {xs : List α} :
    Spaced same (x :: xs) ↔ Apart (same x) xs ∧ Spaced same (xs.filter (! same x ·)) := by
  constructor
  · intro h
    refine ⟨h.head, fun seen y rest heq => ?_⟩
    obtain ⟨seen', more, rfl, rfl, hmore⟩ := List.filter_eq_append_iff.mp heq
    obtain ⟨between, rest', rfl, hbetween, -, rfl⟩ := List.filter_eq_cons_iff.mp hmore
    have hapart := h (x :: (seen' ++ between)) y rest' (by simp)
    rw [← unseen_filter htrans, List.filter_append, List.filter_eq_nil_iff.mpr hbetween,
      List.append_nil] at hapart
    exact hapart
  · rintro ⟨hx, hlater⟩ seen y rest heq
    cases seen with
    | nil =>
      obtain ⟨rfl, rfl⟩ := List.cons.inj heq
      simpa [unseen] using hx
    | cons w seen =>
      rw [List.cons_append, List.cons.injEq] at heq
      obtain ⟨rfl, rfl⟩ := heq
      cases hy : same x y with
      | true =>
        -- No entry of the kind of `x` is left, and `y` is of that kind.
        rw [unseen_cons]
        apply apart_of_forall
        intro z hz
        rw [Bool.eq_false_iff]
        intro hsame
        exact absurd (List.of_mem_filter hz) (by simp [htrans x y z hy hsame])
      | false =>
        rw [← unseen_filter htrans]
        apply hlater
        simp [hy]

theorem spaced_of_pairwise {xs : List α} (h : xs.Pairwise fun x y => same x y = false) :
    Spaced same xs := by
  induction xs with
  | nil => exact fun seen x rest heq => absurd heq (by simp)
  | cons x xs ih =>
    obtain ⟨hx, hxs⟩ := List.pairwise_cons.mp h
    have hfilter : xs.filter (! same x ·) = xs := List.filter_eq_self.mpr (by simpa using hx)
    rw [spaced_cons htrans, hfilter]
    exact ⟨apart_of_forall hx, ih hxs⟩

end Kinds

end Spacing
