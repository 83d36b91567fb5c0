import PIMSim.Library.Spacing
import PIMSim.Memory.Merge

/-!
# The bounds of the merge loops

The inner loop removes a request and goes on behind the one that takes its place, so it passes over
one request for each that it removes. A request that should have left and was passed over has the
outer loop remove a request in front of its own index, and the list then ends too early.

## Main definitions

* `MergeSafe`: the loops stay within the list, end, and leave one request of every address and side
* `Forward`: the outer loop finds no request like its own in front of it

## Main results

* `mergeInto_thin`: what one inner loop leaves
* `spaced_iff_forward`: the lists whose repetitions are apart are those that the outer loop passes in
  order
* `merge_safe`: the merge is safe when the repetitions of its list are apart
* `merge_preserves_iff`: when it preserves every requester of such a list
-/

namespace PIMSim

open CSharp Spacing

/-- **The merge is safe**: no index is out of range, the loops end, and no two requests of one address
and one side are left. -/
def MergeSafe (merge : List MemRequest → Outcome (List MemRequest)) (queue : List MemRequest) : Prop :=
  ∃ queue', merge queue = .ok queue' ∧ queue'.Pairwise fun x y => x.same y = false

/-- No request that the outer loop comes to is like one in front of it. -/
def Forward (queue : List MemRequest) : Prop :=
  ∀ i queue' merged, mergeFrom i 0 (queue, false) = .ok (queue', merged) →
    ∀ x, queue'[i]? = some x → ∀ y ∈ queue'.take i, y.same x = false

/-! ### The inner loop -/

section Inner

variable {i n j : ℕ} {queue before done rest : List MemRequest} {x y : MemRequest} {merged : Bool}

theorem MemRequest.same_trans (x y z : MemRequest) (h : x.same y = true) (h' : y.same z = true) :
    x.same z = true := by
  rw [MemRequest.same_iff] at *
  exact ⟨h.1.trans h'.1, h.2.trans h'.2⟩

theorem mergeInto_end (h : queue.length ≤ j) :
    mergeInto i n j (queue, merged) = .ok (queue, merged) := by
  cases n <;> simp [mergeInto, h]

/-- A request that is not like the `i`-th one stays. -/
theorem mergeInto_keep (hij : i ≠ j) (hx : queue[i]? = some x) (hy : queue[j]? = some y)
    (hsame : x.same y = false) :
    mergeInto i (n + 1) j (queue, merged) = mergeInto i n (j + 1) (queue, merged) := by
  have hlt := (List.getElem?_eq_some_iff.mp hy).1
  rw [mergeInto]
  rw [if_neg (Nat.not_le.mpr hlt), if_neg hij, listAt_natCast.mpr hx, listAt_natCast.mpr hy]
  simp [Outcome.ok_bind, hsame]

/-- A request like the `i`-th one joins it, and the one behind it takes its place. -/
theorem mergeInto_join (hij : i ≠ j) (hx : queue[i]? = some x) (hy : queue[j]? = some y)
    (hsame : x.same y = true) : mergeInto i (n + 1) j (queue, merged) =
      mergeInto i n (j + 1) ((queue.set i (x.join y)).eraseIdx j, true) := by
  have hlt := (List.getElem?_eq_some_iff.mp hy).1
  rw [mergeInto]
  rw [if_neg (Nat.not_le.mpr hlt), if_neg hij, listAt_natCast.mpr hx, listAt_natCast.mpr hy]
  simp [Outcome.ok_bind, hsame]

/-- The requests in front of the `i`-th one stay when none of them is like it. -/
theorem mergeInto_front (halone : ∀ z ∈ before, x.same z = false) (hj : j ≤ before.length) :
    mergeInto before.length (j + n) (before.length - j) (before ++ x :: rest, merged) =
      mergeInto before.length n before.length (before ++ x :: rest, merged) := by
  induction j with
  | zero => simp
  | succ j ih =>
    have hlt : before.length - (j + 1) < before.length := by omega
    rw [Nat.add_right_comm, mergeInto_keep (x := x) (y := before[before.length - (j + 1)])]
    · rw [show before.length - (j + 1) + 1 = before.length - j by omega]
      exact ih (by omega)
    · omega
    · simp
    · rw [List.getElem?_append_left hlt, List.getElem?_eq_getElem hlt]
    · exact halone _ (List.getElem_mem hlt)

theorem getElem?_behind (hj : j = (before ++ x :: done).length) :
    (before ++ x :: (done ++ y :: rest))[j]? = some y := by
  rw [← List.cons_append, ← List.append_assoc, hj]
  simp

theorem set_eraseIdx_behind (hj : j = (before ++ x :: done).length) (z : MemRequest) :
    ((before ++ x :: (done ++ y :: rest)).set before.length z).eraseIdx j =
      before ++ z :: (done ++ rest) := by
  have hlength : (before ++ z :: done).length = j := by simp [hj]
  have hset : (before ++ x :: (done ++ y :: rest)).set before.length z =
      (before ++ z :: done) ++ y :: rest := by simp
  rw [hset, List.eraseIdx_append_of_length_le (by omega), hlength, Nat.sub_self]
  simp

/-- **The inner loop behind its request** takes the requests like it, but passes over the one behind
each of them. -/
theorem mergeInto_behind (hn : rest.length ≤ n) (hj : j = (before ++ x :: done).length) :
    ∃ pids merged', mergeInto before.length n j (before ++ x :: (done ++ rest), merged) =
      .ok (before ++ { x with pid := pids } :: (done ++ thin x.same rest), merged') := by
  have hne : before.length ≠ j := by simp [hj]
  have hx : ∀ more, (before ++ x :: more)[before.length]? = some x := by simp
  generalize hp : x.same = p
  -- `thin` drops a hit and keeps what follows it, which is how the loop passes over a request after
  -- each removal.
  fun_induction thin p rest generalizing n j x done merged with
  | case1 =>
    refine ⟨x.pid, merged, ?_⟩
    apply mergeInto_end
    simp [hj]
  | case2 y h =>
    obtain ⟨n, rfl⟩ : ∃ m, n = m + 1 := ⟨n - 1, by simp at hn; omega⟩
    have hsame : x.same y = true := hp ▸ h
    refine ⟨x.pid ++ y.pid, true, ?_⟩
    rw [mergeInto_join hne (hx _) (getElem?_behind hj) hsame, set_eraseIdx_behind hj]
    apply mergeInto_end
    simp [hj]
  | case3 y h =>
    obtain ⟨n, rfl⟩ : ∃ m, n = m + 1 := ⟨n - 1, by simp at hn; omega⟩
    have hsame : x.same y = false := hp ▸ Bool.eq_false_iff.mpr h
    refine ⟨x.pid, merged, ?_⟩
    rw [mergeInto_keep hne (hx _) (getElem?_behind hj) hsame]
    apply mergeInto_end
    simp [hj]
    omega
  | case4 y z xs h ih =>
    obtain ⟨n, rfl⟩ : ∃ m, n = m + 1 := ⟨n - 1, by simp at hn; omega⟩
    have hsame : x.same y = true := hp ▸ h
    rw [mergeInto_join hne (hx _) (getElem?_behind hj) hsame, set_eraseIdx_behind hj]
    -- `z` has moved to the place `j` and the loop goes on behind it.
    have hskip : done ++ z :: xs = done ++ [z] ++ xs := by simp
    have hj' : j + 1 = (before ++ x.join y :: (done ++ [z])).length := by
      simp [hj]
      omega
    have hne' : before.length ≠ j + 1 := by simp [hj']
    obtain ⟨pids, merged', hloop⟩ := @ih n (j + 1) (done ++ [z]) (x.join y) true
      (by simp at hn; omega) hj' hne' (by simp) hp
    rw [hskip, hloop]
    exact ⟨pids, merged', by simp [MemRequest.join]⟩
  | case5 y z xs h ih =>
    obtain ⟨n, rfl⟩ : ∃ m, n = m + 1 := ⟨n - 1, by simp at hn; omega⟩
    have hsame : x.same y = false := hp ▸ Bool.eq_false_iff.mpr h
    rw [mergeInto_keep hne (hx _) (getElem?_behind hj) hsame]
    have hskip : done ++ y :: z :: xs = done ++ [y] ++ z :: xs := by simp
    have hj' : j + 1 = (before ++ x :: (done ++ [y])).length := by
      simp [hj]
      omega
    have hne' : before.length ≠ j + 1 := by simp [hj']
    obtain ⟨pids, merged', hloop⟩ := @ih n (j + 1) (done ++ [y]) x merged
      (by simp at hn ⊢; omega) hj' hne' hx hp
    rw [hskip, hloop]
    exact ⟨pids, merged', by simp⟩

/-- **The inner loop** when no request in front of its own one is like it. -/
theorem mergeInto_thin (rest : List MemRequest) (merged : Bool)
    (halone : ∀ z ∈ before, x.same z = false) : ∃ pids merged',
      mergeInto before.length (before ++ x :: rest).length 0 (before ++ x :: rest, merged) =
        .ok (before ++ { x with pid := pids } :: thin x.same rest, merged') := by
  have hlength : (before ++ x :: rest).length = before.length + (rest.length + 1) := by simp
  have hstart : 0 = before.length - before.length := by omega
  rw [hlength, hstart, mergeInto_front halone (Nat.le_refl _), mergeInto, if_neg (by simp), if_pos rfl]
  rw [← List.nil_append rest, ← List.nil_append (thin x.same ([] ++ rest))]
  exact mergeInto_behind (Nat.le_refl _) (by simp)

end Inner

/-! ### The outer loop -/

section Outer

variable {i n : ℕ} {queue before rest : List MemRequest} {x : MemRequest} {merged : Bool}

/-- The requests in front of the outer loop's index are one of every address and side. -/
structure Ahead (before rest : List MemRequest) : Prop where
  pairwise : before.Pairwise fun x y => x.same y = false
  apart : ∀ z ∈ before, ∀ y ∈ rest, z.same y = false

theorem ahead_nil (rest : List MemRequest) : Ahead [] rest :=
  ⟨List.Pairwise.nil, fun _ hz => absurd hz List.not_mem_nil⟩

theorem MemRequest.same_symm (x y : MemRequest) : x.same y = y.same x := by
  rw [Bool.eq_iff_iff, MemRequest.same_iff, MemRequest.same_iff, eq_comm, @eq_comm _ x.pim]

/-- The outer loop goes on behind its request, and the requests like that one have left. -/
theorem Ahead.next (h : Ahead before (x :: rest)) (pids : List Int)
    {rest' : List MemRequest} (hsub : rest' ⊆ rest) (hthin : ∀ y ∈ rest', x.same y = false) :
    Ahead (before ++ [{ x with pid := pids }]) rest' where
  pairwise := by
    rw [List.pairwise_append]
    refine ⟨h.pairwise, List.pairwise_singleton _ _, fun z hz y hy => ?_⟩
    obtain rfl := List.mem_singleton.mp hy
    exact h.apart z hz x List.mem_cons_self
  apart := by
    intro z hz y hy
    rcases List.mem_append.mp hz with hz | hz
    · exact h.apart z hz y (List.mem_cons_of_mem _ (hsub hy))
    · obtain rfl := List.mem_singleton.mp hz
      exact hthin y hy

/-- One round of the outer loop, at a request that is like none in front of it. -/
theorem mergeFrom_step (rest : List MemRequest) (merged : Bool)
    (halone : ∀ z ∈ before, z.same x = false) : ∃ pids merged', ∀ n,
      mergeFrom (n + 1) before.length (before ++ x :: rest, merged) =
        mergeFrom n (before ++ [{ x with pid := pids }]).length
          (before ++ [{ x with pid := pids }] ++ thin x.same rest, merged') := by
  obtain ⟨pids, merged', hinner⟩ := mergeInto_thin rest merged fun z hz =>
    (MemRequest.same_symm x z).trans (halone z hz)
  refine ⟨pids, merged', fun n => ?_⟩
  rw [mergeFrom, if_neg (by simp), hinner]
  simp [Outcome.ok_bind]

/-- **The outer loop** over a list whose repetitions are apart: the requests in front of its index are
one of every address and side, as long as there are requests behind it. -/
theorem mergeFrom_spaced (h : Ahead before rest) (hspaced : Spaced MemRequest.same rest) (n : ℕ)
    (merged : Bool) : ∃ before' rest' merged',
      mergeFrom n before.length (before ++ rest, merged) = .ok (before' ++ rest', merged') ∧
      Ahead before' rest' ∧
      (rest' = [] ∨ before'.length = before.length + n ∧ rest'.length + n ≤ rest.length) := by
  induction n generalizing before rest merged with
  | zero => exact ⟨before, rest, merged, rfl, h, .inr ⟨rfl, Nat.le_refl _⟩⟩
  | succ n ih =>
    cases rest with
    | nil => exact ⟨before, [], merged, by simp [mergeFrom], h, .inl rfl⟩
    | cons x rest =>
      obtain ⟨pids, merged', hstep⟩ := mergeFrom_step rest merged fun z hz =>
        h.apart z hz x List.mem_cons_self
      obtain ⟨hx, hrest⟩ := (spaced_cons MemRequest.same_trans).mp hspaced
      have hthin : ∀ y ∈ rest.filter (! x.same ·), x.same y = false := by simp
      have hnext := h.next pids (List.filter_subset_self _) hthin
      obtain ⟨before', rest', merged'', hloop, hahead, hend⟩ := ih hnext hrest merged'
      have hshort := List.length_filter_le (! x.same ·) rest
      refine ⟨before', rest', merged'', ?_, hahead, hend.imp_right fun ⟨hlength, hleft⟩ => ?_⟩
      · rw [hstep, thin_eq_filter_iff.mpr hx, hloop]
      · rw [List.length_append, List.length_singleton] at hlength
        rw [List.length_cons]
        exact ⟨by omega, by omega⟩

/-- The outer loop leaves no repetitions when they are apart. -/
theorem mergeFrom_distinct (hspaced : Spaced MemRequest.same queue) : ∃ queue' merged',
    mergeFrom queue.length 0 (queue, false) = .ok (queue', merged') ∧
      queue'.Pairwise fun x y => x.same y = false := by
  obtain ⟨before, rest, merged, hloop, hahead, hend⟩ :=
    mergeFrom_spaced (ahead_nil queue) hspaced queue.length false
  refine ⟨_, merged, hloop, ?_⟩
  obtain rfl : rest = [] := by
    rcases hend with hend | ⟨-, hle⟩
    · exact hend
    · exact List.eq_nil_of_length_eq_zero (by omega)
  simpa using hahead.pairwise

/-- A list without repetitions is left as it is. -/
theorem mergeFrom_pairwise (h : queue.Pairwise fun x y => x.same y = false) :
    mergeFrom queue.length 0 (queue, false) = .ok (queue, false) := by
  obtain ⟨queue', merged', hloop, -⟩ :=
    mergeFrom_distinct (spaced_of_pairwise MemRequest.same_trans h)
  have hlooped := mergeFrom_spec hloop (by simp)
  have hnone : ¬ ∃ queue'', Merges queue queue'' := by
    rintro ⟨-, i, j, x, y, hij, hi, hj, hsame, -⟩
    obtain ⟨hi', rfl⟩ := List.getElem?_eq_some_iff.mp hi
    obtain ⟨hj', rfl⟩ := List.getElem?_eq_some_iff.mp hj
    rcases Nat.lt_or_gt_of_ne hij with hlt | hlt
    · exact absurd (List.pairwise_iff_getElem.mp h i j hi' hj' hlt) (by simp [hsame])
    · rw [MemRequest.same_symm] at hsame
      exact absurd (List.pairwise_iff_getElem.mp h j i hj' hi' hlt) (by simp [hsame])
  obtain rfl | ⟨queue'', hmerge, -⟩ := hlooped.merges.cases_head
  · cases merged' with
    | false => exact hloop
    | true => exact absurd (hlooped.shorter rfl rfl) (Nat.lt_irrefl _)
  · exact absurd ⟨queue'', hmerge⟩ hnone

end Outer

/-! ### The index of the outer loop -/

/-- When a request behind the index is like one in front of it, the outer loop comes to such a
request. -/
theorem exists_repeated {before rest : List MemRequest} {y z : MemRequest} (hy : y ∈ before)
    (hz : z ∈ rest) (hsame : y.same z = true) (merged : Bool) : ∃ n queue' merged',
      mergeFrom n before.length (before ++ rest, merged) = .ok (queue', merged') ∧
      ∃ x, queue'[before.length + n]? = some x ∧
        ∃ w ∈ queue'.take (before.length + n), w.same x = true := by
  induction hlength : rest.length using Nat.strong_induction_on generalizing before rest merged with
  | _ k ih =>
    subst hlength
    cases rest with
    | nil => cases hz
    | cons x rest =>
      by_cases hfront : ∃ w ∈ before, w.same x = true
      · refine ⟨0, _, merged, rfl, x, by simp, ?_⟩
        simpa using hfront
      · have halone : ∀ w ∈ before, w.same x = false := fun w hw =>
          Bool.eq_false_iff.mpr fun h => hfront ⟨w, hw, h⟩
        -- `z` is not like `x`, so it stays behind the index.
        have hzx : x.same z = false := by
          rw [Bool.eq_false_iff]
          intro hxz
          rw [MemRequest.same_symm] at hxz
          exact absurd (MemRequest.same_trans y z x hsame hxz) (by simp [halone y hy])
        have hz : z ∈ rest := by
          rcases List.mem_cons.mp hz with rfl | hz
          · exact absurd hsame (by simp [halone y hy])
          · exact hz
        have hshort := (thin_sublist (p := x.same) rest).length_le
        obtain ⟨pids, merged', hstep⟩ := mergeFrom_step rest merged halone
        obtain ⟨n, queue', merged'', hloop, hfound⟩ := ih _ (by simp; omega)
          (List.mem_append_left [{ x with pid := pids }] hy) (mem_thin hz hzx) merged' rfl
        refine ⟨n + 1, queue', merged'', (hstep n).trans hloop, ?_⟩
        rw [List.length_append, List.length_singleton, Nat.add_assoc, Nat.add_comm 1] at hfound
        exact hfound

/-- An outer loop that finds no request like its own in front of it passes repetitions that are
apart. -/
theorem spaced_of_ahead {before rest : List MemRequest} (h : Ahead before rest) (merged : Bool)
    (hforward : ∀ n queue' merged',
      mergeFrom n before.length (before ++ rest, merged) = .ok (queue', merged') →
      ∀ x, queue'[before.length + n]? = some x →
        ∀ w ∈ queue'.take (before.length + n), w.same x = false) :
    Spaced MemRequest.same rest := by
  induction hlength : rest.length using Nat.strong_induction_on generalizing before rest merged with
  | _ k ih =>
    subst hlength
    cases rest with
    | nil => exact spaced_of_pairwise MemRequest.same_trans List.Pairwise.nil
    | cons x rest =>
      obtain ⟨pids, merged', hstep⟩ := mergeFrom_step rest merged fun z hz =>
        h.apart z hz x List.mem_cons_self
      have hlater : ∀ n queue' merged'',
          mergeFrom n (before ++ [{ x with pid := pids }]).length
            (before ++ [{ x with pid := pids }] ++ thin x.same rest, merged') =
              .ok (queue', merged'') →
          ∀ y, queue'[(before ++ [{ x with pid := pids }]).length + n]? = some y →
            ∀ w ∈ queue'.take ((before ++ [{ x with pid := pids }]).length + n),
              w.same y = false := by
        intro n queue' merged'' hloop
        have hnow := hforward (n + 1) queue' merged'' ((hstep n).trans hloop)
        rw [List.length_append, List.length_singleton, Nat.add_assoc, Nat.add_comm 1]
        exact hnow
      have hthin : ∀ y ∈ thin x.same rest, x.same y = false := by
        -- Otherwise the loop comes to a request like one in front of it.
        intro y hy
        rw [Bool.eq_false_iff]
        intro hsame
        obtain ⟨n, queue', merged'', hloop, z, hz, w, hw, hwz⟩ :=
          exists_repeated (y := { x with pid := pids })
            (List.mem_append_right before (List.mem_singleton_self _)) hy hsame merged'
        exact absurd (hlater n queue' merged'' hloop z hz w hw) (by simp [hwz])
      have hapart := apart_of_thin hthin
      have hshort := (thin_sublist (p := x.same) rest).length_le
      have hsub := (thin_sublist (p := x.same) rest).subset
      rw [spaced_cons MemRequest.same_trans, ← thin_eq_filter_iff.mpr hapart]
      exact ⟨hapart, ih _ (by simp; omega) (h.next pids hsub hthin) merged' hlater rfl⟩

/-- **The lists whose repetitions are apart** are those over which the outer loop finds no request
like its own in front of it. -/
theorem spaced_iff_forward (queue : List MemRequest) :
    Spaced MemRequest.same queue ↔ Forward queue := by
  constructor
  · intro h n queue' merged' hloop x hx w hw
    obtain ⟨before, rest, merged, hloop', hahead, hend⟩ :=
      mergeFrom_spaced (ahead_nil queue) h n false
    cases hloop.symm.trans hloop'
    rcases hend with rfl | ⟨hlength, -⟩
    · -- The loop has ended.
      rw [List.append_nil] at hx hw
      obtain ⟨hlt, rfl⟩ := List.getElem?_eq_some_iff.mp hx
      obtain ⟨k, hk, rfl⟩ := List.mem_take_iff_getElem.mp hw
      exact List.pairwise_iff_getElem.mp hahead.pairwise k n _ hlt (by omega)
    · rw [List.length_nil, Nat.zero_add] at hlength
      subst hlength
      rw [List.take_left] at hw
      rw [List.getElem?_append_right (Nat.le_refl _), Nat.sub_self] at hx
      exact hahead.apart w hw x (List.mem_of_getElem? hx)
  · intro h
    apply spaced_of_ahead (ahead_nil queue) false
    simp only [List.length_nil, List.nil_append, Nat.zero_add]
    exact h

/-! ### The merge -/

theorem mergeRounds_safe {queue : List MemRequest} (h : Spaced MemRequest.same queue) :
    MergeSafe (fun queue => mergeRounds (queue.length + 1) queue) queue := by
  obtain ⟨queue', merged', hloop, hpairwise⟩ := mergeFrom_distinct h
  refine ⟨queue', ?_, hpairwise⟩
  have hlooped := mergeFrom_spec hloop (by simp)
  simp only [mergeRounds, hloop, Outcome.ok_bind]
  cases merged' with
  | false => rfl
  | true =>
    -- The second round finds nothing to merge.
    have hshort := hlooped.shorter rfl rfl
    obtain ⟨n, hn⟩ : ∃ n, queue.length = n + 1 := ⟨queue.length - 1, by omega⟩
    simp only [if_true, hn, mergeRounds, mergeFrom_pairwise hpairwise, Outcome.ok_bind]
    rfl

/-- **The merge loops of both memory objects are safe** when the repetitions of their list are
apart. -/
theorem merge_safe {queue : List MemRequest} (h : Spaced MemRequest.same queue) :
    MergeSafe DDRMem.mergeSame queue ∧ MergeSafe HMCMem.mergeSame queue :=
  ⟨mergeRounds_safe h, mergeRounds_safe h⟩

/-- Two requests of each of two addresses: the repetitions are apart. -/
theorem merge_safe_two : ∃ queue : List MemRequest, queue.length = 4 ∧
    MergeSafe DDRMem.mergeSame queue ∧ MergeSafe HMCMem.mergeSame queue := by
  let a : MemRequest := { address := 64, blockAddr := 64, memtype := .read, pid := [0] }
  let b : MemRequest := { address := 128, blockAddr := 128, memtype := .read, pid := [1] }
  refine ⟨[a, b, a, b], rfl, merge_safe ?_⟩
  simp [spaced_cons MemRequest.same_trans, Apart, a, b, MemRequest.same]
  exact spaced_of_pairwise MemRequest.same_trans List.Pairwise.nil

/-- A request with two later ones of its address that are neighbours, and another request in front of
these: the index of the outer loop points behind the end. -/
theorem not_mergeSafe_neighbours : ¬ MergeSafe DDRMem.mergeSame
    [{ address := 64, blockAddr := 64, memtype := .read, pid := [0] },
      { address := 128, blockAddr := 128, memtype := .read, pid := [1] },
      { address := 64, blockAddr := 64, memtype := .read, pid := [2] },
      { address := 64, blockAddr := 64, memtype := .read, pid := [3] }] := by
  rintro ⟨queue', hmerge, -⟩
  have hok := (congrArg Except.isOk hmerge).trans (show (Except.ok queue').isOk = true from rfl)
  exact absurd hok (by decide)

/-! ### The requesters -/

variable {κ : Type}

/-- A merge that preserves every requester joins requests of one kind. -/
theorem Preserves.uniform {op : MemReqType → κ} {queue : List MemRequest} {n : ℕ}
    (h : Preserves op (mergeRounds n) queue) : Uniform op queue := by
  obtain ⟨queue', hmerge, hrep⟩ := h
  exact (represents_iff hmerge).mp hrep

/-- **The merge of either memory object preserves every requester** of a list whose repetitions are
apart if and only if its requests of one address and one side agree on the operation and on the
reported stages. -/
theorem merge_preserves_iff (op : MemReqType → κ) {queue : List MemRequest}
    (h : Spaced MemRequest.same queue) :
    (Preserves op DDRMem.mergeSame queue ↔ Uniform op queue) ∧
      (Preserves op HMCMem.mergeSame queue ↔ Uniform op queue) := by
  obtain ⟨queue', hmerge, -⟩ := mergeRounds_safe h
  have hboth : Preserves op (mergeRounds (queue.length + 1)) queue ↔ Uniform op queue := by
    refine ⟨Preserves.uniform, fun huniform => ?_⟩
    exact ⟨queue', hmerge, (represents_iff hmerge).mpr huniform⟩
  exact ⟨hboth, hboth⟩

/-- Writes, flushes and stores against the other operations. -/
def MemReqType.isWrite : MemReqType → Bool
  | .write | .flush | .store => true
  | _ => false

/-- Two reads and two writes in turn. -/
theorem merge_preserves_iff_two : ∃ queue : List MemRequest, queue.length = 4 ∧
    Preserves MemReqType.isWrite DDRMem.mergeSame queue ∧
      Preserves MemReqType.isWrite HMCMem.mergeSame queue := by
  let a : MemRequest := { address := 64, blockAddr := 64, memtype := .read, pid := [0] }
  let b : MemRequest := { address := 128, blockAddr := 128, memtype := .write, pid := [1] }
  have hspaced : Spaced MemRequest.same [a, b, a, b] := by
    simp [spaced_cons MemRequest.same_trans, Apart, a, b, MemRequest.same]
    exact spaced_of_pairwise MemRequest.same_trans List.Pairwise.nil
  have huniform : Uniform MemReqType.isWrite [a, b, a, b] := by
    simp [Uniform, a, b, MemRequest.same]
  obtain ⟨hddr, hhmc⟩ := merge_preserves_iff MemReqType.isWrite hspaced
  exact ⟨[a, b, a, b], rfl, hddr.mpr huniform, hhmc.mpr huniform⟩

/-- A write joins a read of its address. -/
theorem not_preserves_read_write : ¬ Preserves MemReqType.isWrite DDRMem.mergeSame
    [{ address := 64, blockAddr := 64, memtype := .read, pid := [0] },
      { address := 64, blockAddr := 64, memtype := .write, pid := [1] }] := by
  intro hpreserves
  have huniform : Uniform MemReqType.isWrite _ := Preserves.uniform hpreserves
  have hop := (huniform _ List.mem_cons_self _
    (List.mem_cons_of_mem _ (List.mem_singleton_self _)) rfl).1
  exact absurd hop (by decide)

end PIMSim
