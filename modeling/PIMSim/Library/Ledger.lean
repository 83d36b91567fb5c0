import PIMSim.Library.Sweep
import Mathlib.Data.List.Range

/-!
# The ledger of a swept queue

A queue is filled at its end and emptied by sweeps: each sweep visits every waiting entry once, in
order, and removes the entries its verdicts remove. The ledger numbers the entries as they arrive,
and keeps the verdicts of all sweeps.

## Main definitions

* `Ledger`, `push`, `sweep`: the accepted entries, the waiting ones, and the sweeps
* `placed removes L`: the removed entries, in the order of their removal
* `Sound removes L`: what holds of every ledger

## Main results

* `sound_push`, `sound_sweep`: both operations keep a ledger sound, so that every accepted entry is
  removed at most once, waits otherwise, and is overtaken only in a sweep that keeps it
-/

open Sweep

/-- The accepted entries and the waiting ones, each with its number, and the verdicts of every
sweep with a label. -/
structure Ledger (α β κ : Type) where
  accepted : List (ℕ × α) := []
  waiting : List (ℕ × α) := []
  sweeps : List (κ × List ((ℕ × α) × β)) := []

namespace Ledger

variable {α β κ : Type}

/-- An entry arrives. -/
def push (L : Ledger α β κ) (x : α) : Ledger α β κ :=
  { L with
    accepted := L.accepted ++ [(L.accepted.length, x)]
    waiting := L.waiting ++ [(L.accepted.length, x)] }

/-- A sweep with the verdicts `vs` on the waiting entries. -/
def sweep (removes : β → Bool) (L : Ledger α β κ) (label : κ) (vs : List ((ℕ × α) × β)) :
    Ledger α β κ :=
  { L with waiting := kept removes vs, sweeps := L.sweeps ++ [(label, vs)] }

/-- The removed entries, in the order of their removal. -/
def placed (removes : β → Bool) (L : Ledger α β κ) : List (ℕ × α) :=
  L.sweeps.flatMap fun s => removed removes s.2

/-- The entries `e` and `f` are in one sweep, which keeps `e` and removes `f`. -/
def Overtaken (removes : β → Bool) (s : κ × List ((ℕ × α) × β)) (e f : ℕ × α) (b : β) : Prop :=
  (e, b) ∈ s.2 ∧ removes b = false ∧ ∃ b', (f, b') ∈ s.2 ∧ removes b' = true

/-- What holds of every ledger: the entries are numbered in the order of acceptance, each one is
removed once or waits, the waiting ones are in the order of acceptance, and the removed ones are in
that order but for the entries that were kept while a later one was removed. -/
structure Sound (removes : β → Bool) (L : Ledger α β κ) : Prop where
  numbered : L.accepted.map Prod.fst = List.range L.accepted.length
  conserved : (L.placed removes ++ L.waiting).Perm L.accepted
  waits : L.waiting.Sublist L.accepted
  ordered : ∀ e ∈ L.accepted, ∀ f ∈ L.placed removes, e.1 < f.1 →
    [e, f].Sublist (L.placed removes) ∨ ∃ s ∈ L.sweeps, ∃ b, Overtaken removes s e f b

@[simp] theorem placed_push (removes : β → Bool) (L : Ledger α β κ) (x : α) :
    (L.push x).placed removes = L.placed removes := rfl

theorem placed_sweep (removes : β → Bool) (L : Ledger α β κ) (label : κ)
    (vs : List ((ℕ × α) × β)) :
    (L.sweep removes label vs).placed removes = L.placed removes ++ removed removes vs := by
  simp [placed, sweep]

theorem sound_empty (removes : β → Bool) : Sound removes ({} : Ledger α β κ) :=
  ⟨rfl, .nil, .slnil, by simp⟩

theorem Sound.number_lt {removes : β → Bool} {L : Ledger α β κ} (h : Sound removes L) {e : ℕ × α}
    (he : e ∈ L.accepted) : e.1 < L.accepted.length := by
  have := List.mem_map_of_mem (f := Prod.fst) he
  rwa [h.numbered, List.mem_range] at this

theorem sound_push {removes : β → Bool} {L : Ledger α β κ} (h : Sound removes L) (x : α) :
    Sound removes (L.push x) where
  numbered := by
    simp [push, h.numbered, List.range_succ]
  conserved := by
    rw [placed_push, push, ← List.append_assoc]
    exact h.conserved.append_right _
  waits := h.waits.append_right _
  ordered := by
    intro e he f hf hlt
    rcases List.mem_append.mp he with he | he
    · exact h.ordered e he f hf hlt
    · -- The new entry has the greatest number.
      rw [List.mem_singleton] at he
      subst he
      have := h.number_lt (h.conserved.mem_iff.mp (List.mem_append_left _ hf))
      exact absurd hlt (by simp only; omega)

/-- In the order of acceptance, a smaller number comes first. -/
theorem Sound.pair_sublist {removes : β → Bool} {L : Ledger α β κ} (h : Sound removes L)
    {e f : ℕ × α} {l : List (ℕ × α)} (hl : l.Sublist L.accepted) (he : e ∈ l) (hf : f ∈ l)
    (hlt : e.1 < f.1) : [e, f].Sublist l := by
  have hsorted : l.Pairwise fun a b => a.1 < b.1 := by
    refine List.Pairwise.sublist hl ?_
    rw [← List.pairwise_map (R := (· < ·)) (f := Prod.fst), h.numbered]
    exact List.pairwise_lt_range
  obtain ⟨pre, post, rfl⟩ := List.append_of_mem he
  rw [List.pairwise_append, List.pairwise_cons] at hsorted
  have hpost : f ∈ post := by
    rcases List.mem_append.mp hf with hf | hf
    · have := hsorted.2.2 f hf e (by simp)
      omega
    · rcases List.mem_cons.mp hf with rfl | hf
      · omega
      · exact hf
  exact (List.Sublist.cons_cons e (List.singleton_sublist.mpr hpost)).trans
    (List.sublist_append_right pre _)

/-- **A sweep of the waiting entries** keeps a ledger sound. -/
theorem sound_sweep {removes : β → Bool} {L : Ledger α β κ} (h : Sound removes L) (label : κ)
    {vs : List ((ℕ × α) × β)} (hvs : vs.map Prod.fst = L.waiting) :
    Sound removes (L.sweep removes label vs) where
  numbered := h.numbered
  conserved := by
    rw [placed_sweep, List.append_assoc]
    refine .trans (.append_left _ ?_) h.conserved
    rw [← hvs]
    exact kept_removed_perm removes vs
  waits := by
    refine .trans ?_ h.waits
    rw [← hvs]
    exact kept_sublist removes vs
  ordered := by
    intro e he f hf hlt
    rw [placed_sweep] at hf ⊢
    have hsweeps : ∀ s ∈ L.sweeps, s ∈ (L.sweep removes label vs).sweeps :=
      fun s hs => List.mem_append_left _ hs
    rcases List.mem_append.mp hf with hf | hf
    · rcases h.ordered e he f hf hlt with hsub | ⟨s, hs, b, hb⟩
      · exact .inl (hsub.trans (List.sublist_append_left _ _))
      · exact .inr ⟨s, hsweeps s hs, b, hb⟩
    · rcases List.mem_append.mp (h.conserved.mem_iff.mpr he) with hplaced | hwait
      · exact .inl ((List.singleton_sublist.mpr hplaced).append (List.singleton_sublist.mpr hf))
      · -- Both wait when the sweep begins: `e` is removed before `f`, or kept.
        rw [← hvs] at hwait
        obtain ⟨⟨e', b⟩, hev, rfl⟩ := List.mem_map.mp hwait
        cases hb : removes b with
        | true =>
          have heremoved : e' ∈ removed removes vs := mem_removed.mpr ⟨b, hev, hb⟩
          have hsub : (removed removes vs).Sublist L.accepted := by
            refine .trans ?_ h.waits
            rw [← hvs]
            exact List.filter_sublist.map _
          exact .inl ((h.pair_sublist hsub heremoved hf hlt).trans (List.sublist_append_right _ _))
        | false =>
          obtain ⟨b', hfv, hb'⟩ := mem_removed.mp hf
          exact .inr ⟨(label, vs), by simp [sweep], b, hev, hb, b', hfv, hb'⟩

end Ledger
