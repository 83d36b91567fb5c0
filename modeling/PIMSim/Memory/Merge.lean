import Mathlib.Logic.Relation
import PIMSim.PIM.System

/-!
# Merging the requests of a memory object

Before a memory object works on its requests it merges those of one address and one side: the later
one leaves the list, and its processors join the earlier one. The loops run over the list while they
shorten it, so an index may point behind the end.

## Main definitions

* `mergeSame`: the loops of `DDRMem.Step`, which `HMCMem.Step` repeats
* `Merges`: one request of the list joins another one
* `Represents`: what is left of a request
* `Preserves`: the loops end, and every request is represented
* `Uniform`: requests that are merged agree on the operation and on the stages they report

## Main results

* `mergeInto_spec`, `mergeFrom_spec`, `mergeRounds_spec`: the loops merge until no two requests are of
  one address and one side
* `mergeRounds_fault`: they end, unless an index is out of range
* `represents_iff`: a merge that ends preserves every requester when the merged requests agree
-/

namespace PIMSim

open CSharp

/-- The test of the merge loops. -/
def MemRequest.same (x y : MemRequest) : Bool := x.address = y.address && x.pim = y.pim

/-- The processors of `y` join those of `x`. -/
def MemRequest.join (x y : MemRequest) : MemRequest := { x with pid := x.pid ++ y.pid }

/-- The inner loop: from `j` on, the requests like the `i`-th one join it. The list does not grow, so
`n` rounds are enough when `n` is its first length. The flag tells whether a request joined. -/
def mergeInto (i : ℕ) : ℕ → ℕ → List MemRequest × Bool → Outcome (List MemRequest × Bool)
  | 0, _, s => .ok s
  | n + 1, j, (queue, merged) =>
    if queue.length ≤ j then .ok (queue, merged)
    else if i = j then mergeInto i n (j + 1) (queue, merged)
    else do
      let x ← listAt queue i
      let y ← listAt queue j
      if x.same y then mergeInto i n (j + 1) ((queue.set i (x.join y)).eraseIdx j, true)
      else mergeInto i n (j + 1) (queue, merged)

/-- The outer loop, from `i` on. -/
def mergeFrom : ℕ → ℕ → List MemRequest × Bool → Outcome (List MemRequest × Bool)
  | 0, _, s => .ok s
  | n + 1, i, (queue, merged) =>
    if queue.length ≤ i then .ok (queue, merged)
    else do
      let s ← mergeInto i queue.length 0 (queue, merged)
      mergeFrom n (i + 1) s

/-- `while (!restart)`: the loops run again as long as a request joined another one. -/
def mergeRounds : ℕ → List MemRequest → Outcome (List MemRequest)
  | 0, _ => .error .nonTermination
  | n + 1, queue => do
    let (queue', merged) ← mergeFrom queue.length 0 (queue, false)
    if merged then mergeRounds n queue' else return queue'

/-- The merge of `DDRMem.Step`. -/
def DDRMem.mergeSame (queue : List MemRequest) : Outcome (List MemRequest) :=
  mergeRounds (queue.length + 1) queue

/-- The merge of `HMCMem.Step`. -/
def HMCMem.mergeSame (queue : List MemRequest) : Outcome (List MemRequest) :=
  mergeRounds (queue.length + 1) queue

/-! ### What is left of a request -/

variable {κ : Type} {op : MemReqType → κ}

/-- What is left of the request `r` in the request `q`, when operations are told apart by `op`. -/
structure Represents (op : MemReqType → κ) (q r : MemRequest) : Prop where
  address : q.address = r.address
  operation : op q.memtype = op r.memtype
  pim : q.pim = r.pim
  pids : r.pid ⊆ q.pid
  stages : (System.callBackInfo q).stageId = (System.callBackInfo r).stageId

theorem Represents.trans {p q r : MemRequest} (h : Represents op p q) (h' : Represents op q r) :
    Represents op p r where
  address := h.address.trans h'.address
  operation := h.operation.trans h'.operation
  pim := h.pim.trans h'.pim
  pids := List.Subset.trans h'.pids h.pids
  stages := h.stages.trans h'.stages

/-- **The merge preserves every requester**: it ends, and every request is represented. -/
def Preserves (op : MemReqType → κ) (merge : List MemRequest → Outcome (List MemRequest))
    (queue : List MemRequest) : Prop :=
  ∃ queue', merge queue = .ok queue' ∧ ∀ r ∈ queue, ∃ q ∈ queue', Represents op q r

/-- Requests of one address and one side agree on the operation, and on the stages they report. -/
def Uniform (op : MemReqType → κ) (queue : List MemRequest) : Prop :=
  ∀ x ∈ queue, ∀ y ∈ queue, x.same y = true → op x.memtype = op y.memtype ∧
    (System.callBackInfo x).stageId = (System.callBackInfo y).stageId

/-! ### One merge -/

theorem MemRequest.same_iff {x y : MemRequest} :
    x.same y = true ↔ x.address = y.address ∧ x.pim = y.pim := by
  simp [MemRequest.same]

/-- One request of the list joins another one. -/
def Merges (queue queue' : List MemRequest) : Prop :=
  ∃ i j x y, i ≠ j ∧ queue[i]? = some x ∧ queue[j]? = some y ∧ x.same y = true ∧
    queue' = (queue.set i (x.join y)).eraseIdx j

/-- What the list holds of the original requests: each is there, maybe joined, and every request is
an original one but for its processors. -/
structure Holds (original queue : List MemRequest) : Prop where
  joined : ∀ r ∈ original, ∃ q ∈ queue, q.same r = true ∧ r.pid ⊆ q.pid
  origin : ∀ q ∈ queue, ∃ o ∈ original, q.same o = true ∧ q.memtype = o.memtype ∧
    q.stageId = o.stageId

theorem holds_refl (queue : List MemRequest) : Holds queue queue where
  joined := fun r hr => ⟨r, hr, MemRequest.same_iff.mpr ⟨rfl, rfl⟩, fun _ => id⟩
  origin := fun q hq => ⟨q, hq, MemRequest.same_iff.mpr ⟨rfl, rfl⟩, rfl, rfl⟩

theorem Merges.length_lt {queue queue' : List MemRequest} (h : Merges queue queue') :
    queue'.length < queue.length := by
  obtain ⟨i, j, x, y, -, -, hj, -, rfl⟩ := h
  have hlt := (List.getElem?_eq_some_iff.mp hj).1
  rw [List.length_eraseIdx_of_lt (by simpa using hlt), List.length_set]
  omega

/-- **One merge** keeps what the list holds. -/
theorem Holds.merge {original queue queue' : List MemRequest} (h : Holds original queue)
    (hmerge : Merges queue queue') : Holds original queue' := by
  obtain ⟨i, j, x, y, hij, hi, hj, hsame, rfl⟩ := hmerge
  rw [MemRequest.same_iff] at hsame
  have hlt := (List.getElem?_eq_some_iff.mp hi).1
  have hx : x.join y ∈ (queue.set i (x.join y)).eraseIdx j :=
    List.mem_eraseIdx_iff_getElem?.mpr ⟨i, hij, List.getElem?_set_self hlt⟩
  constructor
  · intro r hr
    obtain ⟨q, hq, hqr, hpids⟩ := h.joined r hr
    rw [MemRequest.same_iff] at hqr
    obtain ⟨k, hk⟩ := List.getElem?_of_mem hq
    by_cases hki : k = i
    · obtain rfl : x = q := Option.some.inj (hi.symm.trans (hki ▸ hk))
      refine ⟨x.join y, hx, MemRequest.same_iff.mpr hqr, ?_⟩
      exact fun p hp => List.mem_append_left _ (hpids hp)
    · by_cases hkj : k = j
      · obtain rfl : y = q := Option.some.inj (hj.symm.trans (hkj ▸ hk))
        refine ⟨x.join y, hx, MemRequest.same_iff.mpr ?_, ?_⟩
        · exact ⟨hsame.1.trans hqr.1, hsame.2.trans hqr.2⟩
        · exact fun p hp => List.mem_append_right _ (hpids hp)
      · refine ⟨q, List.mem_eraseIdx_iff_getElem?.mpr ⟨k, hkj, ?_⟩,
          MemRequest.same_iff.mpr hqr, hpids⟩
        rw [List.getElem?_set_ne fun h => hki h.symm]
        exact hk
  · intro q hq
    rcases List.mem_or_eq_of_mem_set (List.mem_of_mem_eraseIdx hq) with hq | rfl
    · exact h.origin q hq
    · obtain ⟨o, ho, hxo, htype, hstage⟩ := h.origin x (List.mem_of_getElem? hi)
      exact ⟨o, ho, MemRequest.same_iff.mpr (MemRequest.same_iff.mp hxo), htype, hstage⟩

theorem Holds.merges {original queue queue' : List MemRequest} (h : Holds original queue)
    (hmerges : Relation.ReflTransGen Merges queue queue') : Holds original queue' := by
  induction hmerges with
  | refl => exact h
  | tail _ hmerge ih => exact ih.merge hmerge

/-! ### The loops -/

/-- No request from `j` on, before `k`, is like the `i`-th one. -/
def Alone (queue : List MemRequest) (i j k : ℕ) : Prop :=
  ∀ m, j ≤ m → m < k → m ≠ i → ∀ x y, queue[i]? = some x → queue[m]? = some y → x.same y = false

/-- What a loop does that starts with the flag `merged` and ends with the flag `merged'`: it merges;
the flag is set when it merged, and otherwise the list is unchanged and `quiet`. -/
structure Looped (queue : List MemRequest) (merged : Bool) (queue' : List MemRequest)
    (merged' : Bool) (quiet : Prop) : Prop where
  merges : Relation.ReflTransGen Merges queue queue'
  length_le : queue'.length ≤ queue.length
  shorter : merged = false → merged' = true → queue'.length < queue.length
  unchanged : merged' = false → merged = false ∧ queue' = queue ∧ quiet

theorem Looped.refl (queue : List MemRequest) (merged : Bool) {quiet : Prop} (h : quiet) :
    Looped queue merged queue merged quiet where
  merges := .refl
  length_le := Nat.le_refl _
  shorter := fun h h' => absurd (h.symm.trans h') Bool.false_ne_true
  unchanged := fun hm => ⟨hm, rfl, h⟩

/-- Loops compose. -/
theorem Looped.trans {queue queue₁ queue₂ : List MemRequest} {merged merged₁ merged₂ : Bool}
    {quiet quiet' quiet'' : Prop} (h : Looped queue merged queue₁ merged₁ quiet)
    (h' : Looped queue₁ merged₁ queue₂ merged₂ quiet')
    (hquiet : queue₁ = queue → quiet → quiet' → quiet'') :
    Looped queue merged queue₂ merged₂ quiet'' where
  merges := h.merges.trans h'.merges
  length_le := h'.length_le.trans h.length_le
  shorter := by
    intro hm hm₂
    cases hm₁ : merged₁ with
    | false => exact (h'.shorter hm₁ hm₂).trans_le h.length_le
    | true => exact h'.length_le.trans_lt (h.shorter hm hm₁)
  unchanged := by
    intro hm₂
    obtain ⟨hm₁, hq₂, hquiet'⟩ := h'.unchanged hm₂
    obtain ⟨hm, hq₁, hquiet₁⟩ := h.unchanged hm₁
    exact ⟨hm, hq₂.trans hq₁, hquiet hq₁ hquiet₁ hquiet'⟩

theorem Merges.looped {queue queue' : List MemRequest} {merged : Bool} {quiet : Prop}
    (h : Merges queue queue') : Looped queue merged queue' true quiet where
  merges := .single h
  length_le := h.length_lt.le
  shorter := fun _ _ => h.length_lt
  unchanged := fun hm => absurd hm.symm Bool.false_ne_true

/-- **The inner loop** joins requests to the `i`-th one. When none joined, no later one is like it. -/
theorem mergeInto_spec {i n j : ℕ} {queue queue' : List MemRequest} {merged merged' : Bool}
    (h : mergeInto i n j (queue, merged) = .ok (queue', merged')) (hn : queue.length ≤ j + n) :
    Looped queue merged queue' merged' (Alone queue i j queue.length) := by
  induction n generalizing j queue merged with
  | zero =>
    cases h
    exact .refl _ _ fun m hj hm => by omega
  | succ n ih =>
    unfold mergeInto at h
    split_ifs at h with hend hij
    · cases h
      exact .refl _ _ fun m hj hm => by omega
    · refine (Looped.refl queue merged trivial).trans (ih h (by omega)) fun _ _ halone m hj hm => ?_
      rcases Nat.eq_or_lt_of_le hj with rfl | hj
      · exact fun hne => absurd hij.symm hne
      · exact halone m hj hm
    · obtain ⟨x, hx, h⟩ := Outcome.bind_eq_ok.mp h
      obtain ⟨y, hy, h⟩ := Outcome.bind_eq_ok.mp h
      rw [listAt_natCast] at hx hy
      split_ifs at h with hsame
      · have hmerge : Merges queue ((queue.set i (x.join y)).eraseIdx j) :=
          ⟨i, j, x, y, hij, hx, hy, hsame, rfl⟩
        have hshort := hmerge.length_lt
        have hlooped : Looped queue merged _ true False := hmerge.looped
        refine hlooped.trans (ih h (by omega)) fun _ hfalse => ?_
        exact hfalse.elim
      · refine (Looped.refl queue merged trivial).trans (ih h (by omega))
          fun _ _ halone m hj hm hne x' y' hx' hy' => ?_
        rcases Nat.eq_or_lt_of_le hj with rfl | hj
        · obtain rfl : x = x' := Option.some.inj (hx.symm.trans hx')
          obtain rfl : y = y' := Option.some.inj (hy.symm.trans hy')
          exact Bool.eq_false_iff.mpr hsame
        · exact halone m hj hm hne x' y' hx' hy'

/-- **The outer loop**: when none joined, no two requests from `i` on are alike. -/
theorem mergeFrom_spec {n i : ℕ} {queue queue' : List MemRequest} {merged merged' : Bool}
    (h : mergeFrom n i (queue, merged) = .ok (queue', merged')) (hn : queue.length ≤ i + n) :
    Looped queue merged queue' merged'
      (∀ k, i ≤ k → k < queue.length → Alone queue k 0 queue.length) := by
  induction n generalizing i queue merged with
  | zero =>
    cases h
    exact .refl _ _ fun k hi hk => by omega
  | succ n ih =>
    unfold mergeFrom at h
    split_ifs at h with hend
    · cases h
      exact .refl _ _ fun k hi hk => by omega
    · obtain ⟨⟨queue₁, merged₁⟩, hone, h⟩ := Outcome.bind_eq_ok.mp h
      have hlooped := mergeInto_spec hone (by omega)
      have hle := hlooped.length_le
      refine hlooped.trans (ih h (by omega)) fun heq halone hlater k hi hk => ?_
      rcases Nat.eq_or_lt_of_le hi with rfl | hi
      · exact halone
      · rw [heq] at hlater
        exact hlater k hi hk

/-- **The merge** leaves no two requests of one address and one side. -/
theorem mergeRounds_spec {n : ℕ} {queue queue' : List MemRequest}
    (h : mergeRounds n queue = .ok queue') : Relation.ReflTransGen Merges queue queue' ∧
      ∀ x ∈ queue', ∀ y ∈ queue', x.same y = true → x = y := by
  induction n generalizing queue with
  | zero => cases h
  | succ n ih =>
    obtain ⟨⟨queue₁, merged⟩, hpass, h⟩ := Outcome.bind_eq_ok.mp h
    have hlooped := mergeFrom_spec hpass (by omega)
    cases merged with
    | true =>
      obtain ⟨hmerges, hdistinct⟩ := ih h
      exact ⟨hlooped.merges.trans hmerges, hdistinct⟩
    | false =>
      cases h
      obtain ⟨-, heq, halone⟩ := hlooped.unchanged rfl
      refine ⟨hlooped.merges, fun x hx y hy hsame => ?_⟩
      rw [heq] at hx hy
      obtain ⟨i, hi⟩ := List.getElem?_of_mem hx
      obtain ⟨k, hk⟩ := List.getElem?_of_mem hy
      by_cases hik : k = i
      · subst hik
        exact Option.some.inj (hi.symm.trans hk)
      · have hlt := (List.getElem?_eq_some_iff.mp hi).1
        have hlt' := (List.getElem?_eq_some_iff.mp hk).1
        have hno := halone i (Nat.zero_le i) hlt k (Nat.zero_le k) hlt' hik x y hi hk
        exact absurd (hno.symm.trans hsame) Bool.false_ne_true

/-! ### The end of the loops -/

theorem listAt_fault {α : Type} {xs : List α} {i : Int} {e : Fault} (h : listAt xs i = .error e) :
    e = .argumentOutOfRange := by
  unfold listAt at h
  split_ifs at h
  · cases h
    rfl
  · split at h
    · cases h
    · cases h
      rfl

theorem mergeInto_fault {i n j : ℕ} {s : List MemRequest × Bool} {e : Fault}
    (h : mergeInto i n j s = .error e) : e = .argumentOutOfRange := by
  induction n generalizing j s with
  | zero => cases h
  | succ n ih =>
    obtain ⟨queue, merged⟩ := s
    unfold mergeInto at h
    split_ifs at h with hend hij
    · exact ih h
    · cases hx : listAt queue (i : Int) with
      | error e' =>
        rw [hx] at h
        cases h
        exact listAt_fault hx
      | ok x =>
        cases hy : listAt queue (j : Int) with
        | error e' =>
          rw [hx, hy] at h
          cases h
          exact listAt_fault hy
        | ok y =>
          rw [hx, hy] at h
          simp only [Outcome.ok_bind] at h
          split_ifs at h
          · exact ih h
          · exact ih h

theorem mergeFrom_fault {n i : ℕ} {s : List MemRequest × Bool} {e : Fault}
    (h : mergeFrom n i s = .error e) : e = .argumentOutOfRange := by
  induction n generalizing i s with
  | zero => cases h
  | succ n ih =>
    obtain ⟨queue, merged⟩ := s
    unfold mergeFrom at h
    split_ifs at h with hend
    cases hone : mergeInto i queue.length 0 (queue, merged) with
    | error e' =>
      rw [hone] at h
      cases h
      exact mergeInto_fault hone
    | ok s' =>
      rw [hone] at h
      exact ih h

/-- **The merge ends**, unless an index is out of range: every further round has a shorter list. -/
theorem mergeRounds_fault {n : ℕ} {queue : List MemRequest} {e : Fault} (hn : queue.length < n)
    (h : mergeRounds n queue = .error e) : e = .argumentOutOfRange := by
  induction n generalizing queue with
  | zero => omega
  | succ n ih =>
    unfold mergeRounds at h
    cases hpass : mergeFrom queue.length 0 (queue, false) with
    | error e' =>
      rw [hpass] at h
      cases h
      exact mergeFrom_fault hpass
    | ok s =>
      obtain ⟨queue₁, merged⟩ := s
      rw [hpass] at h
      have hlooped := mergeFrom_spec hpass (by omega)
      cases merged with
      | true =>
        have hshort := hlooped.shorter rfl rfl
        exact ih (by omega) h
      | false => cases h

/-- Three requests of one address with another one behind the first: the index points behind the end
once the first one has left. -/
example : DDRMem.mergeSame
    [{ address := 64, blockAddr := 64, memtype := .read, pid := [0] },
      { address := 128, blockAddr := 128, memtype := .read, pid := [1] },
      { address := 64, blockAddr := 64, memtype := .read, pid := [2] },
      { address := 64, blockAddr := 64, memtype := .read, pid := [3] }] =
      .error .argumentOutOfRange := by decide

/-- A merge that ends preserves every requester if and only if the merged requests agree. -/
theorem represents_iff {queue queue' : List MemRequest} {n : ℕ}
    (h : mergeRounds n queue = .ok queue') :
    (∀ r ∈ queue, ∃ q ∈ queue', Represents op q r) ↔ Uniform op queue := by
  obtain ⟨hmerges, hdistinct⟩ := mergeRounds_spec h
  have hholds := (holds_refl queue).merges hmerges
  constructor
  · -- Requests that are merged are represented by one request.
    intro hrep x hx y hy hsame
    obtain ⟨q, hq, hqx⟩ := hrep x hx
    obtain ⟨q', hq', hqy⟩ := hrep y hy
    rw [MemRequest.same_iff] at hsame
    have heq : q = q' := by
      apply hdistinct q hq q' hq'
      rw [MemRequest.same_iff, hqx.address, hqx.pim, hqy.address, hqy.pim]
      exact hsame
    subst heq
    exact ⟨hqx.operation.symm.trans hqy.operation, hqx.stages.symm.trans hqy.stages⟩
  · intro huniform r hr
    obtain ⟨q, hq, hqr, hpids⟩ := hholds.joined r hr
    obtain ⟨o, ho, hqo, htype, hstage⟩ := hholds.origin q hq
    rw [MemRequest.same_iff] at hqr hqo
    obtain ⟨hop, hstages⟩ := huniform o ho r hr <| by
      rw [MemRequest.same_iff, ← hqo.1, ← hqo.2]
      exact hqr
    refine ⟨q, hq, hqr.1, by rw [htype, hop], hqr.2, hpids, ?_⟩
    rw [← hstages]
    simp only [System.callBackInfo, htype, hstage]

end PIMSim
