import Mathlib.Data.List.Nodup

/-!
# Changing the first match of a list

A loop that runs through the entries of an array, changes the first one that matches and stops.

## Main definitions

* `update p f xs`: the first entry meeting `p` is changed by `f`

## Main results

* `mem_update`, `mem_update_once`, `mem_update_of_not`, `exists_update`: the entries after the change
* `find?_update`, `update_clears`: a change that keeps the match, and one that ends a unique match
* `find?_update_of_not`, `find?_update_or`: a change of entries that another search passes over
* `map_update`, `map_update_key`: a property of the entries, untouched or changed
* `update_of_none`, `count_update`: no match, and a key that leaves
* `pairwise_update`, `pairwise_set`: changes that keep a relation between the entries
* `find?_key`, `mem_eraseP_key`: the entry under a key that no other one has
-/

namespace FirstMatch

variable {α : Type} {p : α → Bool} {f : α → α}

/-- The first entry meeting `p` is changed by `f`. -/
def update (p : α → Bool) (f : α → α) : List α → List α
  | [] => []
  | x :: xs => if p x then f x :: xs else x :: update p f xs

theorem mem_update {xs : List α} {y : α} (h : y ∈ update p f xs) :
    y ∈ xs ∨ ∃ x ∈ xs, p x = true ∧ y = f x := by
  induction xs with
  | nil => cases h
  | cons x xs ih =>
    by_cases hx : p x = true
    · rw [update, if_pos hx] at h
      rcases List.mem_cons.mp h with rfl | h
      · exact .inr ⟨x, by simp, hx, rfl⟩
      · exact .inl (List.mem_cons_of_mem x h)
    · rw [update, if_neg hx] at h
      rcases List.mem_cons.mp h with rfl | h
      · exact .inl (by simp)
      · rcases ih h with h | ⟨z, hz, hpz, rfl⟩
        · exact .inl (List.mem_cons_of_mem x h)
        · exact .inr ⟨z, List.mem_cons_of_mem x hz, hpz, rfl⟩

/-- Where at most one entry matches, the others do not. -/
theorem mem_update_once {xs : List α} {y : α}
    (hxs : xs.Pairwise fun x y => p x = true → p y = false) (h : y ∈ update p f xs) :
    (y ∈ xs ∧ p y = false) ∨ ∃ x ∈ xs, p x = true ∧ y = f x := by
  induction xs with
  | nil => cases h
  | cons x xs ih =>
    obtain ⟨hx, hxs⟩ := List.pairwise_cons.mp hxs
    by_cases hp : p x = true
    · rw [update, if_pos hp] at h
      rcases List.mem_cons.mp h with rfl | h
      · exact .inr ⟨x, by simp, hp, rfl⟩
      · exact .inl ⟨by simp [h], hx y h hp⟩
    · rw [update, if_neg hp] at h
      rcases List.mem_cons.mp h with rfl | h
      · exact .inl ⟨by simp, by simpa using hp⟩
      · rcases ih hxs h with ⟨hmem, hno⟩ | ⟨z, hz, hpz, rfl⟩
        · exact .inl ⟨by simp [hmem], hno⟩
        · exact .inr ⟨z, by simp [hz], hpz, rfl⟩

/-- An entry that does not match stays. -/
theorem mem_update_of_not {xs : List α} {x : α} (h : x ∈ xs) (hx : p x = false) :
    x ∈ update p f xs := by
  induction xs with
  | nil => cases h
  | cons y xs ih =>
    rcases List.mem_cons.mp h with rfl | h
    · simp [update, hx]
    · by_cases hy : p y = true
      · simp [update, hy, h]
      · simp [update, hy, ih h]

/-- Every entry stays or is changed. -/
theorem mem_or_mem_update {xs : List α} {x : α} (h : x ∈ xs) :
    x ∈ update p f xs ∨ p x = true ∧ f x ∈ update p f xs := by
  induction xs with
  | nil => cases h
  | cons y xs ih =>
    by_cases hy : p y = true
    · rcases List.mem_cons.mp h with rfl | h
      · exact .inr ⟨hy, by simp [update, hy]⟩
      · exact .inl (by simp [update, hy, h])
    · rcases List.mem_cons.mp h with rfl | h
      · exact .inl (by simp [update, hy])
      · rcases ih h with h | ⟨hx, h⟩
        · exact .inl (by simp [update, hy, h])
        · exact .inr ⟨hx, by simp [update, hy, h]⟩

/-- A match is changed, when there is one. -/
theorem exists_update {xs : List α} (h : xs.any p = true) :
    ∃ x ∈ xs, p x = true ∧ f x ∈ update p f xs := by
  induction xs with
  | nil => simp at h
  | cons x xs ih =>
    by_cases hx : p x = true
    · exact ⟨x, by simp, hx, by simp [update, hx]⟩
    · obtain ⟨y, hy, hpy, hmem⟩ := ih (by simpa [hx] using h)
      exact ⟨y, by simp [hy], hpy, by simp [update, hx, hmem]⟩

/-- The first match is the changed one, when it still matches. -/
theorem find?_update {xs : List α} (hf : ∀ x, p x = true → p (f x) = true) :
    (update p f xs).find? p = (xs.find? p).map f := by
  induction xs with
  | nil => rfl
  | cons x xs ih =>
    by_cases hx : p x = true
    · simp [update, hx, hf x hx]
    · simp [update, hx, ih]

/-- A search that passes over the entry, before the change and after it, finds the same. -/
theorem find?_update_of_not {q : α → Bool} {xs : List α} (hp : ∀ x, p x = true → q x = false)
    (hf : ∀ x, p x = true → q (f x) = false) : (update p f xs).find? q = xs.find? q := by
  induction xs with
  | nil => rfl
  | cons x xs ih =>
    by_cases hx : p x = true
    · simp [update, hx, hp x hx, hf x hx]
    · simp [update, hx, List.find?_cons, ih]

/-- A search that passes over the entry finds the same after the change, or the changed entry. -/
theorem find?_update_or {q : α → Bool} {xs : List α} (hp : ∀ x, p x = true → q x = false) :
    (update p f xs).find? q = xs.find? q ∨
      ∃ x ∈ xs, p x = true ∧ (update p f xs).find? q = some (f x) := by
  induction xs with
  | nil => exact .inl rfl
  | cons x xs ih =>
    by_cases hx : p x = true
    · rw [update, if_pos hx]
      cases hq : q (f x) with
      | true => exact .inr ⟨x, by simp, hx, by simp [hq]⟩
      | false => exact .inl (by simp [hq, hp x hx])
    · rw [update, if_neg hx]
      cases hq : q x with
      | true => exact .inl (by simp [hq])
      | false =>
        rcases ih with h | ⟨y, hy, hpy, h⟩
        · exact .inl (by simpa [hq] using h)
        · exact .inr ⟨y, List.mem_cons_of_mem x hy, hpy, by simpa [hq] using h⟩

/-- Nothing matches any more when the only match is changed so that it does not match. -/
theorem update_clears {xs : List α} (h : xs.Pairwise fun x y => p x = true → p y = false)
    (hf : ∀ x, p (f x) = false) : ∀ y ∈ update p f xs, p y = false := by
  induction xs with
  | nil => simp [update]
  | cons x xs ih =>
    obtain ⟨hx, hxs⟩ := List.pairwise_cons.mp h
    intro y hy
    by_cases hp : p x = true
    · rw [update, if_pos hp] at hy
      rcases List.mem_cons.mp hy with rfl | hy
      · exact hf x
      · exact hx y hy hp
    · rw [update, if_neg hp] at hy
      rcases List.mem_cons.mp hy with rfl | hy
      · simpa using hp
      · exact ih hxs y hy

/-- A property of the entries that the change does not touch. -/
theorem map_update {β : Type} {g : α → β} {xs : List α} (h : ∀ x, p x = true → g (f x) = g x) :
    (update p f xs).map g = xs.map g := by
  induction xs with
  | nil => rfl
  | cons x xs ih =>
    by_cases hx : p x = true
    · simp [update, hx, h x hx]
    · simp [update, hx, ih]

/-- The change of a property of the entries that decides what matches. -/
theorem map_update_key {β : Type} {g : α → β} {q : β → Bool} {f' : β → β} {xs : List α}
    (hp : ∀ x, p x = q (g x)) (hf : ∀ x, g (f x) = f' (g x)) :
    (update p f xs).map g = update q f' (xs.map g) := by
  induction xs with
  | nil => rfl
  | cons x xs ih =>
    by_cases hx : q (g x) = true
    · simp [update, hp, hx, hf]
    · simp [update, hp, hx, ih]

/-- Nothing is changed where nothing matches. -/
theorem update_of_none {xs : List α} (h : ∀ x ∈ xs, p x = false) : update p f xs = xs := by
  induction xs with
  | nil => rfl
  | cons x xs ih =>
    rw [update, if_neg (by simp [h x]), ih fun y hy => h y (by simp [hy])]

/-- A key that leaves is there once less. -/
theorem count_update [DecidableEq α] {a b : α} (hab : b ≠ a) (xs : List α) :
    (update (fun x => decide (x = a)) (fun _ => b) xs).count a = xs.count a - 1 := by
  induction xs with
  | nil => rfl
  | cons x xs ih =>
    by_cases hx : x = a
    · simp [update, hx, hab]
    · rw [update, if_neg (by simp [hx]), List.count_cons_of_ne hx, List.count_cons_of_ne hx, ih]

theorem pairwise_update {R : α → α → Prop} {xs : List α} (h : xs.Pairwise R)
    (hl : ∀ x y, p x = true → R x y → R (f x) y) (hr : ∀ x y, p x = true → R y x → R y (f x)) :
    (update p f xs).Pairwise R := by
  induction xs with
  | nil => exact .nil
  | cons x xs ih =>
    obtain ⟨hx, hxs⟩ := List.pairwise_cons.mp h
    by_cases hp : p x = true
    · rw [update, if_pos hp, List.pairwise_cons]
      exact ⟨fun y hy => hl x y hp (hx y hy), hxs⟩
    · rw [update, if_neg hp, List.pairwise_cons]
      refine ⟨fun y hy => ?_, ih hxs⟩
      rcases mem_update hy with hy | ⟨z, hz, hpz, rfl⟩
      · exact hx y hy
      · exact hr z x hpz (hx z hz)

theorem pairwise_set {R : α → α → Prop} {xs : List α} (h : xs.Pairwise R) (i : ℕ) {x : α}
    (hl : ∀ y ∈ xs, R x y) (hr : ∀ y ∈ xs, R y x) : (xs.set i x).Pairwise R := by
  induction xs generalizing i with
  | nil => exact h
  | cons y xs ih =>
    obtain ⟨hy, hxs⟩ := List.pairwise_cons.mp h
    cases i with
    | zero =>
      rw [List.set_cons_zero, List.pairwise_cons]
      exact ⟨fun z hz => hl z (by simp [hz]), hxs⟩
    | succ i =>
      rw [List.set_cons_succ, List.pairwise_cons]
      refine ⟨fun z hz => ?_, ih hxs i (fun z hz => hl z (by simp [hz]))
        fun z hz => hr z (by simp [hz])⟩
      rcases List.mem_or_eq_of_mem_set hz with hz | rfl
      · exact hy z hz
      · exact hr y (by simp)

/-! ### Keys -/

section Keys

variable {κ : Type} [DecidableEq κ] {key : α → κ} {xs : List α} {x y : α}

/-- An entry is found under its key, when no two entries have one key. -/
theorem find?_key (hnodup : (xs.map key).Nodup) (hx : x ∈ xs) :
    xs.find? (fun s => key s = key x) = some x := by
  obtain ⟨y, hy⟩ : ∃ y, xs.find? (fun s => key s = key x) = some y := by
    refine Option.isSome_iff_exists.mp (List.find?_isSome.mpr ⟨x, hx, ?_⟩)
    exact decide_eq_true rfl
  have hkey := List.find?_some (p := fun s => decide (key s = key x)) hy
  rw [hy, List.inj_on_of_nodup_map hnodup (List.mem_of_find?_eq_some hy) hx
    (of_decide_eq_true hkey)]

/-- The entry under a key is removed, and no other one. -/
theorem mem_eraseP_key (hnodup : (xs.map key).Nodup) (hx : x ∈ xs) :
    y ∈ xs.eraseP (fun s => key s = key x) ↔ y ∈ xs ∧ y ≠ x := by
  have hself : decide (key x = key x) = true := decide_eq_true rfl
  obtain ⟨z, l, r, -, hz, hxs, herase⟩ :=
    List.exists_of_eraseP (p := fun s => decide (key s = key x)) hx hself
  have hzx : z = x := List.inj_on_of_nodup_map hnodup (by simp [hxs]) hx (of_decide_eq_true hz)
  subst hzx
  have honce : z ∉ l ++ r := by
    have hperm : (z :: (l ++ r)).Nodup := by
      rw [← List.perm_middle.nodup_iff, ← hxs]
      exact .of_map key hnodup
    exact (List.nodup_cons.mp hperm).1
  rw [herase, hxs]
  constructor
  · intro hy
    refine ⟨?_, fun heq => honce (heq ▸ hy)⟩
    rw [List.mem_append] at hy ⊢
    exact hy.imp_right (List.mem_cons_of_mem z)
  · rintro ⟨hy, hne⟩
    rw [List.mem_append, List.mem_cons] at hy
    rw [List.mem_append]
    exact hy.imp_right (·.resolve_left hne)

end Keys
end FirstMatch
