import Mathlib.Data.List.Basic
import Mathlib.Order.Fin.Basic
import PIMSim.Library.Postcondition

/-!
# Tables of slots

A queue is kept in a table of slots, each of which is free or holds an entry. An entry is put into the
lowest free slot, and taken from any slot. A compaction moves the entries down to the lowest slots.

What the table holds is read from the first slot on. An entry that is put into the lowest free slot
comes behind all others when no free slot lies below an occupied one.

## Main definitions

* `contents held xs`: what the slots hold
* `below held xs i`, `above held xs i`: what the slots below and above a slot hold
* `Packed held xs`: no free slot lies below an occupied one
* `compact held moved empty xs`: the compaction

## Main results

* `contents_put`, `contents_take`, `contents_keep`: what the table holds when a slot changes
* `Packed.put`: an entry is put into a packed table
* `compact_spec`: a compaction keeps what the table holds, in its order, and packs it
* `foldlM_finRange`, `foldlM_range`, `foldlM_each`: loops over the slots
-/

namespace Slots

variable {α β : Type} {n : ℕ} (held : α → Option β)

/-- What the slots hold. -/
def contents (xs : Vector α n) : List β := xs.toList.filterMap held

/-- What the slots below `i` hold. -/
def below (xs : Vector α n) (i : ℕ) : List β := (xs.toList.take i).filterMap held

/-- What the slots above `i` hold. -/
def above (xs : Vector α n) (i : ℕ) : List β := (xs.toList.drop (i + 1)).filterMap held

/-- No free slot lies below an occupied one. -/
def Packed (xs : Vector α n) : Prop :=
  ∀ i j : Fin n, i < j → held (xs.get i) = none → held (xs.get j) = none

/-- The turn of a slot: its entry is moved to the lowest free slot below it. -/
def compactSlot (moved : α → α) (empty : α) (xs : Vector α n) (i : Fin n) : Vector α n :=
  if (held (xs.get i)).isNone then xs
  else
    match (List.finRange n).find? fun j => j < i ∧ (held (xs.get j)).isNone with
    | some j => (xs.set j (moved (xs.get i))).set i empty
    | none => xs

/-- The turns of all slots but the first one. -/
def compact (moved : α → α) (empty : α) (xs : Vector α n) : Vector α n :=
  (List.finRange n).tail.foldl (compactSlot held moved empty) xs

variable {held} {xs : Vector α n} {i j : Fin n} {x : α} {b : β}

theorem get_set (xs : Vector α n) (i : Fin n) (x : α) (j : Fin n) :
    (xs.set i x).get j = if i = j then x else xs.get j := by
  have h : (xs.set i x).get j = if i.val = j.val then x else xs.get j := Vector.getElem_set i.isLt j.isLt
  rw [h]
  exact if_congr Fin.ext_iff.symm rfl rfl

/-! ### One slot changes -/

theorem take_succ (xs : Vector α n) (i : Fin n) :
    xs.toList.take (i + 1) = xs.toList.take i ++ [xs.get i] := by
  have hlt : i.val < xs.toList.length := by simp
  rw [List.take_succ_eq_append_getElem hlt]
  simp [Vector.get]

theorem below_succ (xs : Vector α n) (i : Fin n) :
    below held xs (i + 1) = below held xs i ++ (held (xs.get i)).toList := by
  unfold below
  rw [take_succ, List.filterMap_append]
  cases h : held (xs.get i) <;> simp [h]

theorem contents_eq_below_above (xs : Vector α n) (i : Fin n) :
    contents held xs = below held xs i ++ (held (xs.get i)).toList ++ above held xs i := by
  rw [← below_succ]
  unfold contents below above
  rw [← List.filterMap_append, List.take_append_drop]

theorem below_set (xs : Vector α n) {i : Fin n} {k : ℕ} (h : k ≤ i) (x : α) :
    below held (xs.set i x) k = below held xs k := by
  unfold below
  rw [Vector.toList_set, List.take_set_of_le h]

theorem above_set (xs : Vector α n) {i : Fin n} {k : ℕ} (h : i ≤ k) (x : α) :
    above held (xs.set i x) k = above held xs k := by
  unfold above
  rw [Vector.toList_set, List.drop_set_of_lt (by omega)]

/-- What the table holds when a slot changes. -/
theorem contents_set (xs : Vector α n) (i : Fin n) (x : α) :
    contents held (xs.set i x) = below held xs i ++ (held x).toList ++ above held xs i := by
  rw [contents_eq_below_above _ i, below_set xs (Nat.le_refl _), above_set xs (Nat.le_refl _), get_set,
    if_pos rfl]

/-- An entry is put into a free slot. -/
theorem contents_put (hfree : held (xs.get i) = none) (hx : held x = some b) :
    contents held xs = below held xs i ++ above held xs i ∧
      contents held (xs.set i x) = below held xs i ++ b :: above held xs i := by
  rw [contents_eq_below_above xs i, contents_set, hfree, hx]
  simp

/-- An entry is taken from its slot. -/
theorem contents_take (hheld : held (xs.get i) = some b) (hx : held x = none) :
    contents held xs = below held xs i ++ b :: above held xs i ∧
      contents held (xs.set i x) = below held xs i ++ above held xs i := by
  rw [contents_eq_below_above xs i, contents_set, hheld, hx]
  simp

/-- A slot goes on holding its entry. -/
theorem contents_keep (h : held x = held (xs.get i)) :
    contents held (xs.set i x) = contents held xs := by
  rw [contents_set, h, ← contents_eq_below_above]

theorem mem_below {k : ℕ} : b ∈ below held xs k ↔ ∃ i : Fin n, i < k ∧ held (xs.get i) = some b := by
  unfold below
  rw [List.mem_filterMap]
  constructor
  · rintro ⟨x, hx, hb⟩
    obtain ⟨i, hi, rfl⟩ := List.mem_take_iff_getElem.mp hx
    have hn : i < n := by
      have h := Nat.lt_of_lt_of_le hi (Nat.min_le_right _ _)
      simpa using h
    refine ⟨⟨i, hn⟩, Nat.lt_of_lt_of_le hi (Nat.min_le_left _ _), ?_⟩
    rw [← hb]
    simp [Vector.get]
  · rintro ⟨i, hi, hb⟩
    refine ⟨xs.get i, List.mem_take_iff_getElem.mpr ⟨i, ?_, ?_⟩, hb⟩
    · have hlength : xs.toList.length = n := Vector.length_toList
      omega
    · simp [Vector.get]

theorem mem_contents : b ∈ contents held xs ↔ ∃ i, held (xs.get i) = some b := by
  have hall : contents held xs = below held xs n := by
    unfold contents below
    rw [List.take_of_length_le (by simp)]
  rw [hall, mem_below]
  exact exists_congr fun i => and_iff_right i.isLt

/-! ### Packed tables -/

/-- Nothing lies above a free slot of a packed table. -/
theorem Packed.above_eq_nil (h : Packed held xs) (hfree : held (xs.get i) = none) :
    above held xs i = [] := by
  unfold above
  rw [List.filterMap_eq_nil_iff]
  intro x hx
  obtain ⟨k, hk, rfl⟩ := List.mem_drop_iff_getElem.mp hx
  have hlt : i.val + 1 + k < n := by
    have hlength : xs.toList.length = n := Vector.length_toList
    omega
  have hnone := h i ⟨i.val + 1 + k, hlt⟩ (Fin.mk_lt_mk.mpr (by omega)) hfree
  rw [← hnone]
  simp [Vector.get]

/-- The lowest free slot of a packed table is put to use. -/
theorem Packed.put (h : Packed held xs) (hlow : ∀ j < i, held (xs.get j) ≠ none) (hx : held x = some b) :
    Packed held (xs.set i x) := by
  intro j k hjk hj
  rw [get_set] at hj ⊢
  split_ifs at hj with hij
  · rw [hx] at hj
    cases hj
  · have hlt : i < j := lt_of_le_of_ne (not_lt.mp fun hlt => hlow j hlt hj) hij
    rw [if_neg (ne_of_lt (lt_trans hlt hjk))]
    exact h j k hjk hj

/-! ### The compaction -/

/-- No free slot lies below an occupied one, among the slots below `k`. -/
def PackedBelow (held : α → Option β) (xs : Vector α n) (k : ℕ) : Prop :=
  ∀ i j : Fin n, i < j → j.val < k → held (xs.get i) = none → held (xs.get j) = none

/-- Behind a slot there are only free ones up to `i`. -/
theorem below_of_free (hij : j < i) (hfree : ∀ k : Fin n, j < k → k < i → held (xs.get k) = none) :
    below held xs i = below held xs j ++ (held (xs.get j)).toList := by
  have hstep : ∀ m : ℕ, j.val + 1 ≤ m → m ≤ i.val →
      below held xs m = below held xs j ++ (held (xs.get j)).toList := by
    intro m hm
    induction m, hm using Nat.le_induction with
    | base =>
      intro _
      exact below_succ xs j
    | succ m hm ih =>
      intro hi
      have hmn : m < n := by omega
      have hnone := hfree ⟨m, hmn⟩ (Fin.lt_def.mpr hm) (Fin.lt_def.mpr hi)
      have hsucc : below held xs (m + 1) = below held xs m ++ _ := below_succ xs ⟨m, hmn⟩
      rw [hnone, Option.toList_none, List.append_nil] at hsucc
      exact hsucc.trans (ih (by omega))
  exact hstep i (Fin.lt_def.mp hij) (Nat.le_refl _)

variable {moved : α → α} {empty : α}

/-- The lowest index that is found. -/
theorem find?_finRange_eq_some {p : Fin n → Bool} (h : (List.finRange n).find? p = some i) :
    p i = true ∧ ∀ j < i, p j = false := by
  obtain ⟨hp, k, hk, hget, hbelow⟩ := List.find?_eq_some_iff_getElem.mp h
  refine ⟨hp, fun j hj => ?_⟩
  have hki : k = i.val := by
    have hval := congrArg Fin.val hget
    simpa using hval
  have hj' := hbelow j.val (hki ▸ Fin.lt_def.mp hj)
  simpa using hj'

/-- The slots up to a free one are packed. -/
theorem PackedBelow.succ_of_free (h : PackedBelow held xs i) (hi : held (xs.get i) = none) :
    PackedBelow held xs (i + 1) := by
  intro a b hab hb ha
  rcases Nat.lt_succ_iff_lt_or_eq.mp hb with hb | hb
  · exact h a b hab hb ha
  · rw [Fin.ext hb]
    exact hi

/-- The slots up to one with no free slot below it are packed. -/
theorem packedBelow_of_full (h : ∀ j < i, held (xs.get j) ≠ none) : PackedBelow held xs (i + 1) := by
  intro a b hab hb ha
  exact absurd ha (h a (lt_of_lt_of_le hab (Nat.le_of_lt_succ hb)))

/-- An entry that is moved to the lowest free slot stays where it is among the others. -/
theorem contents_move {y z : α} (h : PackedBelow held xs i) (hji : j < i)
    (hfree : held (xs.get j) = none) (hy : held y = held (xs.get i)) (hz : held z = none) :
    contents held ((xs.set j y).set i z) = contents held xs := by
  have hmid : ∀ k : Fin n, j < k → k < i → held (xs.get k) = none :=
    fun k hjk hki => h j k hjk hki hfree
  have hmid' : ∀ k : Fin n, j < k → k < i → held ((xs.set j y).get k) = none := by
    intro k hjk hki
    rw [get_set, if_neg (ne_of_lt hjk)]
    exact hmid k hjk hki
  calc contents held ((xs.set j y).set i z)
      = below held (xs.set j y) i ++ above held (xs.set j y) i := by
        rw [contents_set, hz, Option.toList_none, List.append_nil]
    _ = below held xs j ++ (held (xs.get i)).toList ++ above held xs i := by
        rw [below_of_free hji hmid', below_set xs (Nat.le_refl _),
          above_set xs (Nat.le_of_lt (Fin.lt_def.mp hji)), get_set, if_pos rfl, hy]
    _ = contents held xs := by
        rw [contents_eq_below_above xs i, below_of_free hji hmid, hfree, Option.toList_none, List.append_nil]

/-- Behind the move the slots up to the one that is left are packed. -/
theorem PackedBelow.move {y z : α} (h : PackedBelow held xs i)
    (hlowest : ∀ k < j, held (xs.get k) ≠ none) (hy : held y ≠ none) (hz : held z = none) :
    PackedBelow held ((xs.set j y).set i z) (i + 1) := by
  intro a b hab hb ha
  have hbi : b ≤ i := Nat.le_of_lt_succ hb
  rcases eq_or_ne i b with rfl | hne
  · rw [get_set, if_pos rfl]
    exact hz
  · have hlt : b < i := lt_of_le_of_ne hbi hne.symm
    rw [get_set, if_neg (ne_of_gt (lt_trans hab hlt)), get_set] at ha
    rw [get_set, if_neg hne, get_set]
    split_ifs at ha with haj
    · exact absurd ha hy
    · have hja : j < a := lt_of_le_of_ne (not_lt.mp fun hlt => hlowest a hlt ha) haj
      rw [if_neg (ne_of_lt (lt_trans hja hab))]
      exact h a b hab hlt ha

variable {moved : α → α} {empty : α}

/-- **The turn of a slot** keeps what the table holds, and packs the slots up to it. -/
theorem compactSlot_spec (hmoved : ∀ x, held x ≠ none → held (moved x) = held x)
    (hempty : held empty = none)
    (h : PackedBelow held xs i) :
    contents held (compactSlot held moved empty xs i) = contents held xs ∧
      PackedBelow held (compactSlot held moved empty xs i) (i + 1) := by
  unfold compactSlot
  split_ifs with hi
  · exact ⟨rfl, h.succ_of_free (Option.isNone_iff_eq_none.mp hi)⟩
  · rw [Option.isNone_iff_eq_none] at hi
    split
    · next j hj =>
      obtain ⟨hfound, hbelow⟩ := find?_finRange_eq_some hj
      simp only [decide_eq_true_eq, decide_eq_false_iff_not, Option.isNone_iff_eq_none] at hfound hbelow
      have hlowest : ∀ k < j, held (xs.get k) ≠ none :=
        fun k hk hnone => hbelow k hk ⟨lt_trans hk hfound.1, hnone⟩
      exact ⟨contents_move h hfound.1 hfound.2 (hmoved _ hi) hempty,
        h.move hlowest ((hmoved _ hi).symm ▸ hi) hempty⟩
    · next hnone =>
      refine ⟨rfl, packedBelow_of_full fun k hk hfree => ?_⟩
      have hk' := List.find?_eq_none.mp hnone k (List.mem_finRange k)
      simp [hk, hfree] at hk'

/-- The turns of the slots from `k` on. -/
theorem foldl_compactSlot_spec (hmoved : ∀ x, held x ≠ none → held (moved x) = held x)
    (hempty : held empty = none)
    (xs : Vector α n) {k : ℕ} (h : PackedBelow held xs k) :
    contents held (((List.finRange n).drop k).foldl (compactSlot held moved empty) xs) = contents held xs ∧
      PackedBelow held (((List.finRange n).drop k).foldl (compactSlot held moved empty) xs) n := by
  by_cases hk : k < n
  · have hdrop : (List.finRange n).drop k = ⟨k, hk⟩ :: (List.finRange n).drop (k + 1) := by
      rw [List.drop_eq_getElem_cons (by simpa using hk)]
      simp
    obtain ⟨hcontents, hpacked⟩ := compactSlot_spec (i := ⟨k, hk⟩) hmoved hempty h
    obtain ⟨hrest, hall⟩ := foldl_compactSlot_spec hmoved hempty _ hpacked
    rw [hdrop, List.foldl_cons]
    exact ⟨hrest.trans hcontents, hall⟩
  · rw [List.drop_of_length_le (by simpa using hk)]
    exact ⟨rfl, fun a b hab _ ha => h a b hab (lt_of_lt_of_le b.isLt (not_lt.mp hk)) ha⟩
termination_by n - k

/-- What holds of every slot holds after the turn of a slot. -/
theorem compactSlot_all {P : α → Prop} (hmoved : ∀ x, P x → P (moved x)) (hempty : P empty)
    (h : ∀ j, P (xs.get j)) (i j : Fin n) : P ((compactSlot held moved empty xs i).get j) := by
  unfold compactSlot
  split_ifs with hi
  · exact h j
  · split
    · rw [get_set, get_set]
      split_ifs
      · exact hempty
      · exact hmoved _ (h i)
      · exact h j
    · exact h j

/-- What holds of every slot holds after a compaction. -/
theorem compact_all {P : α → Prop} (hmoved : ∀ x, P x → P (moved x)) (hempty : P empty)
    (h : ∀ j, P (xs.get j)) : ∀ j, P ((compact held moved empty xs).get j) := by
  unfold compact
  refine List.foldlRecOn _ _ (motive := fun ys : Vector α n => ∀ j, P (ys.get j)) h ?_
  intro ys hys i _
  exact compactSlot_all hmoved hempty hys i

/-- **A compaction** keeps what the table holds, in its order, and leaves no free slot below an occupied
one. -/
theorem compact_spec (hmoved : ∀ x, held x ≠ none → held (moved x) = held x)
    (hempty : held empty = none)
    (xs : Vector α n) :
    contents held (compact held moved empty xs) = contents held xs ∧
      Packed held (compact held moved empty xs) := by
  have hfirst : PackedBelow held xs 1 := by
    intro a b hab hb _
    have hzero : b.val = 0 := by omega
    exact absurd (Fin.lt_def.mp hab) (by omega)
  obtain ⟨hcontents, hpacked⟩ := foldl_compactSlot_spec hmoved hempty xs hfirst
  unfold compact
  rw [← List.drop_one]
  exact ⟨hcontents, fun a b hab ha => hpacked a b hab b.isLt ha⟩

/-! ### Loops over the slots -/

section Loops

open CSharp

variable {σ ι : Type} {bad : Fault → Prop} {f : σ → Fin n → Outcome σ} {I : ℕ → σ → Prop}

/-- The turns of the slots from `k` on. -/
theorem foldlM_from (hf : ∀ s i, I i.val s → Ensures bad (f s i) (I (i.val + 1))) {k : ℕ} (hk : k ≤ n)
    (s : σ) (hs : I k s) : Ensures bad (((List.finRange n).drop k).foldlM f s) (I n) := by
  rcases Nat.lt_or_eq_of_le hk with hlt | rfl
  · have hdrop : (List.finRange n).drop k = ⟨k, hlt⟩ :: (List.finRange n).drop (k + 1) := by
      rw [List.drop_eq_getElem_cons (by simpa using hlt)]
      simp
    rw [hdrop, List.foldlM_cons]
    exact (hf s ⟨k, hlt⟩ hs).bind fun t ht => foldlM_from hf hlt t ht
  · rw [List.drop_of_length_le (by simp)]
    exact ensures_ok hs
termination_by n - k

/-- **A loop over the slots**, from the first one on. -/
theorem foldlM_finRange (hf : ∀ s i, I i.val s → Ensures bad (f s i) (I (i.val + 1))) {s : σ}
    (hs : I 0 s) : Ensures bad ((List.finRange n).foldlM f s) (I n) :=
  foldlM_from hf (Nat.zero_le n) s hs

/-- **A loop over the numbers of the slots.** -/
theorem foldlM_range {m : ℕ} {g : σ → ℕ → Outcome σ}
    (hg : ∀ s i, i < m → I i s → Ensures bad (g s i) (I (i + 1))) {s : σ} (hs : I 0 s) :
    Ensures bad ((List.range m).foldlM g s) (I m) := by
  induction m with
  | zero => exact ensures_ok hs
  | succ m ih =>
    rw [List.range_succ, List.foldlM_append]
    refine (ih fun s i hi => hg s i (Nat.lt_succ_of_lt hi)).bind fun t ht => ?_
    rw [List.foldlM_cons]
    exact (hg t m (Nat.lt_succ_self m) ht).bind fun u hu => ensures_ok hu

/-- **A loop** whose turns do their part each, and undo no other one. -/
theorem foldlM_each {κ : Type} {g : σ → ι → Outcome σ} {J : σ → Prop} {P : κ → σ → Prop} (key : ι → κ)
    {l : List ι} (hg : ∀ s, ∀ a ∈ l, J s →
      Ensures bad (g s a) fun t => J t ∧ P (key a) t ∧ ∀ b, P b s → P b t) {s : σ} (hs : J s) :
    Ensures bad (l.foldlM g s) fun t => J t ∧ (∀ a ∈ l, P (key a) t) ∧ ∀ b, P b s → P b t := by
  induction l generalizing s with
  | nil =>
    refine ensures_ok ⟨hs, ?_, fun _ h => h⟩
    intro a ha
    cases ha
  | cons a l ih =>
    rw [List.foldlM_cons]
    refine (hg s a List.mem_cons_self hs).bind fun t ⟨ht, hat, hst⟩ => ?_
    refine (ih (fun t b hb => hg t b (List.mem_cons_of_mem a hb)) ht).mono fun u ⟨hu, hall, htu⟩ => ?_
    refine ⟨hu, ?_, fun b hb => htu b (hst b hb)⟩
    intro b hb
    rcases List.mem_cons.mp hb with rfl | hb
    · exact htu (key b) hat
    · exact hall b hb

end Loops

end Slots
