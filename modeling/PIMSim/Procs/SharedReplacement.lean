import PIMSim.Procs.Replacement

/-!
# Replacement in the shared cache

A fill of the shared cache shifts the ways of its set: a way without the valid bit leaves, or else the
first way. A hit does not move its line, and a removal keeps the valid bit of its way.

## Main definitions

* `EvictsLeast`: a fill gives up the block used least recently
* `HitsNewest`: a search finds its block only in the way that was filled last
* `Frees`: a removed block is gone, and a fill gives up no block while a way of its set is blank
* `Frugal`: the calls that find what they free or replace
* `InUseOrder`: the ways are in the order of the last uses of their blocks

## Main results

* `add_cases`: what a fill does to the ways
* `shared_least_recently_used`: runs that find blocks only in the way filled last
* `frees_iff`: the calls that free ways
-/

namespace PIMSim

open CSharp CacheArray Transition FirstMatch

/-- The methods of the shared cache. -/
def SharedCache.methods : CacheMethods :=
  { searchBlock := SharedCache.searchBlock, add := SharedCache.add }

namespace CacheArray

/-- The blocks of the ways of a set. -/
def blocks (c : CacheArray) (i : ℕ) : List UInt64 := (c.lines i).map (·.blockAddr)

/-- The set of a block. -/
def setIndex (c : CacheArray) (b : UInt64) : ℕ := b.toNat % c.maxSet

theorem present_iff {c : CacheArray} {x : UInt64} : Present c x ↔ x ∈ c.blocks (c.setIndex x) := by
  simp [Present, blocks, setIndex]

theorem heldIn_iff {c : CacheArray} {i : ℕ} {x : UInt64} :
    HeldIn c i x ↔ x ≠ NULL ∧ x ∈ c.blocks i := by
  simp [HeldIn, blocks]

end CacheArray

namespace SharedCache

variable {c c' : SharedCache} {b v : UInt64} {t : RequestType} {pid : Int}

/-- The blocks behind a shift. -/
theorem map_blockAddr_shift (e : CacheEntity) (b : UInt64) (d : Bool) (pid : Int)
    (post : List CacheEntity) :
    (shift false b d pid (e :: post)).map (·.blockAddr) = post.map (·.blockAddr) ++ [b] := by
  have h := congrArg (List.map Prod.fst) (map_held_shift b d pid e post)
  simpa [held, Function.comp_def] using h

/-- **What a fill does to the ways**: one of them leaves, the ones behind it move up, and the last one
gets the block. A way without the valid bit leaves, or else the first one. -/
theorem add_cases (h : add c b t pid = .ok (v, c')) : ∃ pre e post,
    c.lines (c.setIndex b) = pre ++ e :: post ∧ c'.maxSet = c.maxSet ∧
      c'.cycle = c.cycle + 1 ∧
      c'.lines = Function.update c.lines (c.setIndex b)
        (pre ++ shift false b (t = .write) pid (e :: post)) ∧
      (e.valid = false ∨ pre = [] ∧ ∀ f ∈ c.lines (c.setIndex b), f.valid = true) := by
  simp only [add, Outcome.bind_eq_ok] at h
  obtain ⟨i, hi, h⟩ := h
  obtain rfl : i = c.setIndex b := index_eq_ok hi
  split at h
  · next hrep =>
    have hvalid := calculateRepShared_none hrep
    rw [shift_full hvalid] at h
    split at h
    · cases h
    · next e post hways =>
      cases h
      refine ⟨[], e, post, hways, rfl, rfl, ?_, .inr ⟨rfl, hvalid⟩⟩
      rw [hways]
      rfl
  · next k hrep =>
    obtain ⟨e, hk, hinvalid⟩ := calculateRepShared_some hrep
    obtain ⟨hlt, hek⟩ := List.getElem?_eq_some_iff.mp hk
    have hdrop : (c.lines (c.setIndex b)).drop k = e :: (c.lines (c.setIndex b)).drop (k + 1) := by
      rw [← hek]
      exact List.drop_eq_getElem_cons hlt
    cases h
    refine ⟨(c.lines (c.setIndex b)).take k, e, (c.lines (c.setIndex b)).drop (k + 1), ?_, rfl, rfl, ?_,
      .inl hinvalid⟩
    · rw [← hdrop, List.take_append_drop]
    · rw [← hdrop]
      rfl

/-- The blocks of the sets after a fill: one block leaves, and the new one is the last. -/
theorem blocks_add (h : add c b t pid = .ok (v, c')) : ∃ pre e post,
    c.lines (c.setIndex b) = pre ++ e :: post ∧ c'.maxSet = c.maxSet ∧
      (∀ i, c'.blocks i = if i = c.setIndex b then
        pre.map (·.blockAddr) ++ post.map (·.blockAddr) ++ [b] else c.blocks i) ∧
      (e.valid = false ∨ pre = [] ∧ ∀ f ∈ c.lines (c.setIndex b), f.valid = true) := by
  obtain ⟨pre, e, post, hways, hmax, -, hlines, hcase⟩ := add_cases h
  refine ⟨pre, e, post, hways, hmax, fun i => ?_, hcase⟩
  unfold blocks
  rw [hlines, Function.update_apply]
  split_ifs
  · rw [List.map_append, map_blockAddr_shift, List.append_assoc]
  · rfl

/-- A fill leaves blank what has no valid bit. -/
theorem marked_add (hm : Marked c) (h : add c b t pid = .ok (v, c')) : Marked c' := by
  obtain ⟨pre, e, post, hways, -, -, hlines, -⟩ := add_cases h
  intro i f hf hv
  rw [hlines, Function.update_apply] at hf
  split_ifs at hf with hi
  · rcases List.mem_append.mp hf with hf | hf
    · exact hm _ f (by rw [hways]; simp [hf]) hv
    · rcases of_mem_shift hf with ⟨g, hg, heq⟩ | heq
      · obtain ⟨hgb, -, hgv⟩ : f.blockAddr = g.blockAddr ∧ f.dirty = g.dirty ∧
            f.valid = g.valid := by
          simpa [held] using heq
        rw [hgb]
        exact hm _ g (by rw [hways]; simp [hg]) (hgv ▸ hv)
      · have hfv : f.valid = true := by simpa [held] using congrArg (·.2.2) heq
        rw [hfv] at hv
        cases hv
  · exact hm i f hf hv

end SharedCache

namespace CacheArray

variable {c c' : CacheArray} {b : UInt64}

/-- A search leaves the blocks where they are. -/
theorem blocks_search {hit : CacheEntity → Bool} {t : RequestType} {r : Bool}
    (h : c.search hit b t = .ok (r, c')) (i : ℕ) : c'.blocks i = c.blocks i := by
  obtain ⟨-, -, ⟨-, hlines⟩ | ⟨-, -, hlines⟩⟩ := search_lines h
  · unfold blocks
    rw [hlines]
  · unfold blocks
    rw [hlines, Function.update_apply]
    split_ifs with hi
    · rw [hi]
      exact map_update fun e _ => rfl
    · rfl

theorem maxSet_remove {r : Bool} (h : c.remove b = .ok (r, c')) : c'.maxSet = c.maxSet :=
  (remove_spec h).1

/-- A removal blanks the first way of the block. -/
theorem blocks_remove {r : Bool} (h : c.remove b = .ok (r, c')) (i : ℕ) :
    c'.blocks i = if i = c.setIndex b then update (· = b) (fun _ => NULL) (c.blocks i)
      else c.blocks i := by
  simp only [CacheArray.remove, Outcome.bind_eq_ok] at h
  obtain ⟨k, hk, h⟩ := h
  obtain rfl : k = c.setIndex b := index_eq_ok hk
  split_ifs at h with hany
  · cases h
    unfold blocks
    rw [setWays_lines]
    split_ifs with hi
    · rw [hi]
      exact map_update_key (fun e => rfl) fun e => rfl
    · rfl
  · cases h
    split_ifs with hi
    · rw [hi]
      refine (update_of_none fun x hx => ?_).symm
      obtain ⟨e, he, rfl⟩ := List.mem_map.mp hx
      simpa using fun hb => hany (List.any_eq_true.mpr ⟨e, he, by simpa using hb⟩)
    · rfl

end CacheArray

/-! ### What holds after every run -/

/-- The blocks are in the sets of their addresses, and the ways without the valid bit are blank. -/
structure SharedSound (c : CacheArray) : Prop where
  placed : ∀ i, ∀ x ∈ c.blocks i, x ≠ NULL → c.setIndex x = i
  marked : Marked c

theorem sharedSound_create (assoc maxSet : ℕ) : SharedSound (create assoc maxSet) where
  placed := by
    intro i x hx hnull
    obtain ⟨e, he, rfl⟩ := List.mem_map.mp hx
    exact absurd (by rw [List.eq_of_mem_replicate he]) hnull
  marked := marked_create assoc maxSet

/-- **Every call of the shared cache** keeps the blocks in their sets. -/
theorem sharedSound_step {s s' : CacheRun} {call : CacheCall} (hs : SharedSound s.cache)
    (h : s.step SharedCache.methods call = .ok s') : SharedSound s'.cache := by
  cases call with
  | search b t =>
    obtain ⟨⟨hit, c'⟩, hsearch, heq⟩ := Outcome.bind_eq_ok.mp h
    cases heq
    obtain ⟨hmax, -, hmarked, -⟩ := search_spec hsearch fun e he => by simp_all
    refine ⟨fun i x hx => ?_, hmarked hs.marked⟩
    rw [blocks_search hsearch] at hx
    rw [setIndex, hmax]
    exact hs.placed i x hx
  | add b t pid =>
    obtain ⟨⟨v, c'⟩, hadd, heq⟩ := Outcome.bind_eq_ok.mp h
    cases heq
    obtain ⟨pre, e, post, hways, hmax, hblocks, -⟩ := SharedCache.blocks_add hadd
    refine ⟨fun i x hx hnull => ?_, SharedCache.marked_add hs.marked hadd⟩
    rw [hblocks] at hx
    rw [setIndex, hmax]
    split_ifs at hx with hi
    · rw [hi]
      rw [List.mem_append, List.mem_singleton, ← List.map_append] at hx
      -- A block of the new set was in the set before, or is the one added.
      rcases hx with hx | rfl
      · obtain ⟨f, hf, rfl⟩ := List.mem_map.mp hx
        refine hs.placed _ _ (List.mem_map_of_mem ?_) hnull
        rw [hways]
        rcases List.mem_append.mp hf with hf | hf <;> simp [hf]
      · rfl
    · exact hs.placed i x hx hnull
  | remove b =>
    obtain ⟨⟨r, c'⟩, hremove, heq⟩ := Outcome.bind_eq_ok.mp h
    cases heq
    obtain ⟨hmax, -, hmarked, -⟩ := remove_spec hremove
    refine ⟨fun i x hx hnull => ?_, hmarked hs.marked⟩
    rw [blocks_remove hremove] at hx
    rw [setIndex, hmax]
    split_ifs at hx with hi
    · rcases mem_update hx with hx | ⟨-, -, -, rfl⟩
      · exact hs.placed i x hx hnull
      · exact absurd rfl hnull
    · exact hs.placed i x hx hnull
  | ifdirty b =>
    obtain ⟨⟨r, c'⟩, hdirty, heq⟩ := Outcome.bind_eq_ok.mp h
    cases heq
    obtain ⟨hmax, hlines, -⟩ := ifdirty_spec hdirty
    refine ⟨fun i x hx => ?_, fun i e he => ?_⟩
    · rw [blocks, hlines] at hx
      rw [setIndex, hmax]
      exact hs.placed i x hx
    · rw [hlines] at he
      exact hs.marked i e he

theorem sharedSound_exec {assoc maxSet : ℕ} {calls : List CacheCall} {s : CacheRun}
    (h : exec (CacheRun.step SharedCache.methods) (CacheRun.init assoc maxSet) calls = .ok s) :
    SharedSound s.cache :=
  exec_invariant (I := fun s => SharedSound s.cache) (fun _ _ _ => sharedSound_step)
    (sharedSound_create assoc maxSet) h

/-! ### Removed ways -/

/-- **Removed ways are free**: a removed block is gone, and a fill gives up no block as long as a way
of its set was never filled, or holds a removed block. -/
def Frees (s s' : CacheRun) : CacheCall → Prop
  | .remove b => b ≠ NULL → ¬ Present s'.cache b
  | .add b _ _ => NULL ∈ s.cache.blocks (s.cache.setIndex b) →
      ∀ x, x ≠ NULL → Present s.cache x → Present s'.cache x
  | _ => True

/-- A removal finds its block in at most one way. A fill finds a way without the valid bit, or no
blank way; or else the block of the first way is blank, is the new one, or is in another way too. -/
def Frugal (s : CacheRun) : CacheCall → Prop
  | .remove b => b ≠ NULL → (s.cache.blocks (s.cache.setIndex b)).count b ≤ 1
  | .add b _ _ => (∃ e ∈ s.cache.lines (s.cache.setIndex b), e.valid = false) ∨
      NULL ∉ s.cache.blocks (s.cache.setIndex b) ∨
      ∀ x rest, s.cache.blocks (s.cache.setIndex b) = x :: rest → x = NULL ∨ x = b ∨ x ∈ rest
  | _ => True

theorem remove_frees_iff {c c' : CacheArray} {b : UInt64} {r : Bool} (hb : b ≠ NULL)
    (h : c.remove b = .ok (r, c')) :
    ¬ Present c' b ↔ (c.blocks (c.setIndex b)).count b ≤ 1 := by
  have hset : c'.setIndex b = c.setIndex b := by rw [setIndex, maxSet_remove h, setIndex]
  rw [present_iff, hset, blocks_remove h, if_pos rfl, ← List.count_pos_iff,
    count_update (Ne.symm hb)]
  omega

/-- The blocks that a fill gives up. -/
theorem add_keeps_iff {c c' : SharedCache} {b v : UInt64} {t : RequestType} {pid : Int}
    (hs : SharedSound c) (h : SharedCache.add c b t pid = .ok (v, c')) :
    (∀ x, x ≠ NULL → Present c x → Present c' x) ↔
      (∃ e ∈ c.lines (c.setIndex b), e.valid = false) ∨
        ∀ x rest, c.blocks (c.setIndex b) = x :: rest → x = NULL ∨ x = b ∨ x ∈ rest := by
  obtain ⟨pre, e, post, hways, hmax, hblocks, hcase⟩ := SharedCache.blocks_add h
  have hsplit : c.blocks (c.setIndex b) =
      pre.map (·.blockAddr) ++ e.blockAddr :: post.map (·.blockAddr) := by
    rw [blocks, hways, List.map_append, List.map_cons]
  have hset : ∀ x, c'.setIndex x = c.setIndex x := fun x => by rw [setIndex, hmax, setIndex]
  -- A block is given up when it was in the way that leaves, and nowhere else.
  have hiff : (∀ x, x ≠ NULL → Present c x → Present c' x) ↔ e.blockAddr = NULL ∨
      e.blockAddr ∈ pre.map (·.blockAddr) ++ post.map (·.blockAddr) ++ [b] := by
    constructor
    · intro hall
      by_cases hnull : e.blockAddr = NULL
      · exact .inl hnull
      · have hmem : e.blockAddr ∈ c.blocks (c.setIndex b) := by rw [hsplit]; simp
        have hplace := hs.placed _ _ hmem hnull
        have hthere : Present c e.blockAddr := present_iff.mpr (by rw [hplace]; exact hmem)
        have hstays := present_iff.mp (hall _ hnull hthere)
        rw [hset, hblocks, if_pos hplace] at hstays
        exact .inr hstays
    · intro hkeep x hx hthere
      rw [present_iff] at hthere ⊢
      rw [hset, hblocks]
      split_ifs with hi
      · rw [hi, hsplit] at hthere
        rcases List.mem_append.mp hthere with hpre | hrest
        · simp [hpre]
        · rcases List.mem_cons.mp hrest with rfl | hpost
          · exact hkeep.resolve_left hx
          · simp [hpost]
      · exact hthere
  rw [hiff]
  rcases hcase with hinvalid | ⟨rfl, hvalid⟩
  · -- The way without the valid bit is blank.
    have hmem : e ∈ c.lines (c.setIndex b) := by rw [hways]; simp
    exact iff_of_true (.inl (hs.marked _ e hmem hinvalid)) (.inl ⟨e, hmem, hinvalid⟩)
  · have hno : ¬ ∃ f ∈ c.lines (c.setIndex b), f.valid = false := by
      rintro ⟨f, hf, hinvalid⟩
      rw [hvalid f hf] at hinvalid
      cases hinvalid
    rw [or_iff_right hno, hsplit]
    simp only [List.map_nil, List.nil_append, List.mem_append, List.mem_singleton]
    constructor
    · rintro hkeep x rest heq
      obtain ⟨rfl, rfl⟩ := List.cons.inj heq
      tauto
    · intro hkeep
      have hfirst := hkeep _ _ rfl
      tauto

/-- **The shared cache frees what is removed** in exactly these calls, after every run. -/
theorem frees_iff (assoc maxSet : ℕ) (calls : List CacheCall) (s : CacheRun)
    (h : exec (CacheRun.step SharedCache.methods) (CacheRun.init assoc maxSet) calls = .ok s)
    (call : CacheCall) (s' : CacheRun) (hstep : s.step SharedCache.methods call = .ok s') :
    Frees s s' call ↔ Frugal s call := by
  have hs := sharedSound_exec h
  cases call with
  | search b t => exact Iff.rfl
  | ifdirty b => exact Iff.rfl
  | remove b =>
    obtain ⟨⟨r, c'⟩, hremove, heq⟩ := Outcome.bind_eq_ok.mp hstep
    cases heq
    exact forall_congr' fun hb => remove_frees_iff hb hremove
  | add b t pid =>
    obtain ⟨⟨v, c'⟩, hadd, heq⟩ := Outcome.bind_eq_ok.mp hstep
    cases heq
    have hkeeps := add_keeps_iff hs hadd
    unfold Frees Frugal
    constructor
    · intro hfrees
      by_cases hblank : NULL ∈ s.cache.blocks (s.cache.setIndex b)
      · rcases hkeeps.mp (hfrees hblank) with hinvalid | hfirst
        · exact .inl hinvalid
        · exact .inr (.inr hfirst)
      · exact .inr (.inl hblank)
    · rintro (hinvalid | hfull | hfirst) hblank
      · exact hkeeps.mpr (.inl hinvalid)
      · exact absurd hblank hfull
      · exact hkeeps.mpr (.inr hfirst)

/-- A test of the first entry and the other ones. -/
theorem all_head_iff {α : Type} {p : α → List α → Prop} [∀ x rest, Decidable (p x rest)] {xs : List α} :
    (xs.head?.all fun x => decide (p x xs.tail)) = true ↔ ∀ x rest, xs = x :: rest → p x rest := by
  cases xs with
  | nil => simp
  | cons y ys =>
    constructor
    · intro h x rest heq
      cases heq
      exact of_decide_eq_true h
    · intro h
      exact decide_eq_true (h y ys rfl)

instance (s : CacheRun) : ∀ call, Decidable (Frugal s call)
  | .remove b => inferInstanceAs (Decidable (b ≠ NULL → _ ≤ 1))
  | .add b _ _ =>
    have : Decidable (∀ x rest, s.cache.blocks (s.cache.setIndex b) = x :: rest →
        x = NULL ∨ x = b ∨ x ∈ rest) := decidable_of_iff _ all_head_iff
    inferInstanceAs (Decidable (_ ∨ _ ∨ _))
  | .search _ _ => .isTrue trivial
  | .ifdirty _ => .isTrue trivial

/-- The block of the last way is removed. -/
def removeLast : List CacheCall := [.add 5 .read 0, .add 7 .read 0, .remove 7]

/-- The next fill gives up the block of the first way. -/
theorem not_frees_last : ¬ ∀ s s',
    exec (CacheRun.step SharedCache.methods) (CacheRun.init 2 1) removeLast = .ok s →
      s.step SharedCache.methods (.add 9 .read 0) = .ok s' → Frees s s' (.add 9 .read 0) := by
  intro hall
  obtain ⟨s, h, hseen⟩ := Outcome.exists_of_map_eq_ok
    (x := exec (CacheRun.step SharedCache.methods) (CacheRun.init 2 1) removeLast)
    (f := fun s => ((s.step SharedCache.methods (.add 9 .read 0)).map fun s' =>
      decide (Present s'.cache 5), decide (Present s.cache 5),
      decide (NULL ∈ s.cache.blocks (s.cache.setIndex 9))))
    (b := (.ok false, true, true)) (by decide +kernel)
  simp only [Prod.mk.injEq, decide_eq_true_eq] at hseen
  obtain ⟨hstep, hthere, hblank⟩ := hseen
  obtain ⟨s', hstep, hgone⟩ := Outcome.exists_of_map_eq_ok hstep
  have hfrees := hall s s' h hstep hblank 5 (by decide) hthere
  exact of_decide_eq_false hgone hfrees

/-- A removal of the block of the first way frees it for the next fill. -/
theorem frees_iff_first : ∃ s s',
    exec (CacheRun.step SharedCache.methods) (CacheRun.init 2 1)
      [.add 5 .read 0, .add 7 .read 0, .remove 5] = .ok s ∧
      s.step SharedCache.methods (.add 9 .read 0) = .ok s' ∧
      Frees s s' (.add 9 .read 0) ∧ Present s'.cache 7 := by
  obtain ⟨s, h, hseen⟩ := Outcome.exists_of_map_eq_ok
    (x := exec (CacheRun.step SharedCache.methods) (CacheRun.init 2 1)
      [.add 5 .read 0, .add 7 .read 0, .remove 5])
    (f := fun s => ((s.step SharedCache.methods (.add 9 .read 0)).map fun s' =>
      decide (Present s'.cache 7), decide (Frugal s (.add 9 .read 0))))
    (b := (.ok true, true)) (by decide +kernel)
  simp only [Prod.mk.injEq, decide_eq_true_eq] at hseen
  obtain ⟨hstep, hfrugal⟩ := hseen
  obtain ⟨s', hstep, hthere⟩ := Outcome.exists_of_map_eq_ok hstep
  exact ⟨s, s', h, hstep, (frees_iff 2 1 _ s h _ s' hstep).mpr hfrugal, of_decide_eq_true hthere⟩

/-! ### Recency -/

/-- **A fill gives up the block used least recently** of its set, when it gives up a block. -/
def EvictsLeast (s : CacheRun) (b : UInt64) (c' : CacheArray) : Prop :=
  ∀ x, x ≠ NULL → Present s.cache x → ¬ Present c' x →
    s.recency.Least (s.cache.HeldIn (s.cache.setIndex b)) x

/-- A search that finds a block finds it in the way that was filled last. -/
def HitsNewest (s : CacheRun) : CacheCall → Prop
  | .search b _ => b ≠ NULL → Present s.cache b →
      (s.cache.blocks (s.cache.setIndex b)).getLast? = some b
  | _ => True

/-- A block that is not in a later way was used before the blocks of the later ways. -/
def InOrder (used : UInt64 → ℕ) : List UInt64 → Prop
  | [] => True
  | x :: xs => (x ≠ NULL → x ∉ xs → ∀ y ∈ xs, y ≠ NULL → used x < used y) ∧ InOrder used xs

section InOrder

variable {r : Recency UInt64} {b : UInt64} {xs : List UInt64}

/-- Blank ways are in any order. -/
theorem inOrder_replicate (used : UInt64 → ℕ) (n : ℕ) : InOrder used (List.replicate n NULL) := by
  induction n with
  | zero => trivial
  | succ n ih => exact ⟨fun h => absurd rfl h, ih⟩

/-- A blank way may leave. -/
theorem InOrder.drop_blank {used : UInt64 → ℕ} {pre post : List UInt64}
    (h : InOrder used (pre ++ NULL :: post)) : InOrder used (pre ++ post) := by
  induction pre with
  | nil => exact h.2
  | cons x pre ih =>
    refine ⟨fun hx hno y hy => h.1 hx (fun hmem => hno ?_) y ?_, ih h.2⟩
    · rcases List.mem_append.mp hmem with hmem | hmem
      · simp [hmem]
      · exact List.mem_append_right _ ((List.mem_cons.mp hmem).resolve_left hx)
    · rcases List.mem_append.mp hy with hy | hy <;> simp [hy]

/-- The first way of a block may become blank. -/
theorem InOrder.blank {used : UInt64 → ℕ} (h : InOrder used xs) (b : UInt64) :
    InOrder used (update (fun x => decide (x = b)) (fun _ => NULL) xs) := by
  induction xs with
  | nil => trivial
  | cons x xs ih =>
    by_cases hx : x = b
    · rw [update, if_pos (by simpa using hx)]
      exact ⟨fun hnull => absurd rfl hnull, h.2⟩
    · rw [update, if_neg (by simpa using hx)]
      refine ⟨fun hnull hno y hy hynull => h.1 hnull (fun hmem => hno ?_) y ?_ hynull, ih h.2⟩
      · exact mem_update_of_not hmem (by simpa using hx)
      · rcases mem_update hy with hy | ⟨-, -, -, rfl⟩
        · exact hy
        · exact absurd rfl hynull

/-- A use of a block of another set. -/
theorem InOrder.touch_of_not (h : InOrder r.used xs) (hb : b ≠ NULL → b ∉ xs) :
    InOrder (r.touch b).used xs := by
  induction xs with
  | nil => trivial
  | cons x xs ih =>
    refine ⟨fun hx hno y hy hynull => ?_, ih h.2 fun hnull hmem => hb hnull (by simp [hmem])⟩
    have hxb : x ≠ b := by
      rintro rfl
      exact hb hx (by simp)
    have hyb : y ≠ b := by
      rintro rfl
      exact hb hynull (by simp [hy])
    rw [Recency.used_touch_of_ne r hxb, Recency.used_touch_of_ne r hyb]
    exact h.1 hx hno y hy hynull

/-- A use of the block of the last way, new or found there. -/
theorem InOrder.touch_last (hr : r.Ordered) (h : InOrder r.used xs ∨ InOrder r.used (xs ++ [b])) :
    InOrder (r.touch b).used (xs ++ [b]) := by
  induction xs with
  | nil => exact ⟨fun _ _ y hy => absurd hy List.not_mem_nil, trivial⟩
  | cons x xs ih =>
    refine ⟨fun hx hnew y hy hynull => ?_, ih (h.imp And.right And.right)⟩
    have hno : x ∉ xs ∧ x ≠ b := by simpa using hnew
    by_cases hyb : y = b
    · rw [hyb]
      exact hr.lt_touch hno.2
    · rw [Recency.used_touch_of_ne r hno.2, Recency.used_touch_of_ne r hyb]
      have hymem : y ∈ xs := (List.mem_append.mp hy).resolve_right (by simpa using hyb)
      rcases h with h | h
      · exact h.1 hx hno.1 y hymem hynull
      · exact h.1 hx (by simp [hno]) y (by simp [hymem]) hynull

end InOrder

/-- The ways of every set are in the order of the last uses of their blocks. -/
structure InUseOrder (s : CacheRun) : Prop extends SharedSound s.cache where
  ordered : s.recency.Ordered
  inOrder : ∀ i, InOrder s.recency.used (s.cache.blocks i)

theorem inUseOrder_init (assoc maxSet : ℕ) : InUseOrder (CacheRun.init assoc maxSet) where
  toSharedSound := sharedSound_create assoc maxSet
  ordered := Recency.ordered_init
  inOrder := by
    intro i
    have hblank : (CacheRun.init assoc maxSet).cache.blocks i = List.replicate assoc NULL :=
      List.map_replicate
    rw [hblank]
    exact inOrder_replicate _ assoc

/-- **A call that finds blocks only in the last ways** keeps the ways in the order of their uses. -/
theorem inUseOrder_step {s s' : CacheRun} {call : CacheCall} (hs : InUseOrder s)
    (hgood : HitsNewest s call) (h : s.step SharedCache.methods call = .ok s') : InUseOrder s' := by
  have hsound := sharedSound_step hs.toSharedSound h
  cases call with
  | search b t =>
    obtain ⟨⟨hit, c'⟩, hsearch, heq⟩ := Outcome.bind_eq_ok.mp h
    cases heq
    cases hit with
    | false =>
      refine ⟨hsound, hs.ordered.tick, fun i => ?_⟩
      show InOrder s.recency.used (c'.blocks i)
      rw [blocks_search hsearch]
      exact hs.inOrder i
    | true =>
      refine ⟨hsound, hs.ordered.touch b, fun i => ?_⟩
      show InOrder (s.recency.touch b).used (c'.blocks i)
      rw [blocks_search hsearch]
      by_cases hthere : b ≠ NULL ∧ b ∈ s.cache.blocks i
      · obtain ⟨hnull, hmem⟩ := hthere
        have hplace := hs.placed i b hmem hnull
        have hlast := hgood hnull (present_iff.mpr (by rw [hplace]; exact hmem))
        rw [hplace] at hlast
        obtain ⟨front, hfront⟩ := List.getLast?_eq_some_iff.mp hlast
        have horder := hs.inOrder i
        rw [hfront] at horder ⊢
        exact InOrder.touch_last hs.ordered (.inr horder)
      · exact (hs.inOrder i).touch_of_not fun hnull hmem => hthere ⟨hnull, hmem⟩
  | add b t pid =>
    obtain ⟨⟨v, c'⟩, hadd, heq⟩ := Outcome.bind_eq_ok.mp h
    cases heq
    obtain ⟨pre, e, post, hways, hmax, hblocks, hcase⟩ := SharedCache.blocks_add hadd
    refine ⟨hsound, hs.ordered.touch b, fun i => ?_⟩
    show InOrder (s.recency.touch b).used (c'.blocks i)
    rw [hblocks]
    split_ifs with hi
    · have horder := hs.inOrder (s.cache.setIndex b)
      rw [blocks, hways, List.map_append, List.map_cons] at horder
      refine InOrder.touch_last hs.ordered (.inl ?_)
      -- The way that leaves is blank, or it is the first one.
      rcases hcase with hinvalid | ⟨rfl, -⟩
      · have hmem : e ∈ s.cache.lines (s.cache.setIndex b) := by rw [hways]; simp
        rw [hs.marked _ e hmem hinvalid] at horder
        exact horder.drop_blank
      · exact horder.2
    · refine (hs.inOrder i).touch_of_not fun hnull hmem => hi ?_
      exact (hs.placed i b hmem hnull).symm
  | remove b =>
    obtain ⟨⟨r, c'⟩, hremove, heq⟩ := Outcome.bind_eq_ok.mp h
    cases heq
    refine ⟨hsound, hs.ordered.tick, fun i => ?_⟩
    show InOrder s.recency.used (c'.blocks i)
    rw [blocks_remove hremove]
    split_ifs with hi
    · exact (hs.inOrder i).blank b
    · exact hs.inOrder i
  | ifdirty b =>
    obtain ⟨⟨r, c'⟩, hdirty, heq⟩ := Outcome.bind_eq_ok.mp h
    cases heq
    obtain ⟨-, hlines, -⟩ := ifdirty_spec hdirty
    refine ⟨hsound, hs.ordered.tick, fun i => ?_⟩
    show InOrder s.recency.used (c'.blocks i)
    rw [blocks, hlines]
    exact hs.inOrder i

/-- A fill gives up the block of the first way only, which is not in another way. -/
theorem evicts_first {s : CacheRun} (hs : SharedSound s.cache) {b v x : UInt64} {t : RequestType}
    {pid : Int} {c' : SharedCache} (h : SharedCache.add s.cache b t pid = .ok (v, c'))
    (hx : x ≠ NULL) (hthere : Present s.cache x) (hgone : ¬ Present c' x) :
    ∃ rest, s.cache.blocks (s.cache.setIndex b) = x :: rest ∧ x ∉ rest := by
  obtain ⟨pre, e, post, hways, hmax, hblocks, hcase⟩ := SharedCache.blocks_add h
  have hset : c'.setIndex x = s.cache.setIndex x := by rw [setIndex, hmax, setIndex]
  rw [present_iff] at hthere hgone
  rw [hset, hblocks] at hgone
  split_ifs at hgone with hi
  · rw [hi] at hthere
    have hsplit : s.cache.blocks (s.cache.setIndex b) =
        pre.map (·.blockAddr) ++ e.blockAddr :: post.map (·.blockAddr) := by
      rw [blocks, hways, List.map_append, List.map_cons]
    rw [hsplit] at hthere
    simp only [List.mem_append, List.mem_cons, not_or] at hthere hgone
    obtain rfl : x = e.blockAddr := by tauto
    rcases hcase with hinvalid | ⟨rfl, -⟩
    · have hmem : e ∈ s.cache.lines (s.cache.setIndex b) := by rw [hways]; simp
      exact absurd (hs.marked _ e hmem hinvalid) hx
    · exact ⟨_, hsplit, hgone.1.2⟩
  · exact absurd hthere hgone

/-- A fill of a cache whose ways are in order gives up the block used least recently. -/
theorem InUseOrder.evictsLeast {s : CacheRun} (hs : InUseOrder s) {b v : UInt64} {t : RequestType}
    {pid : Int} {c' : SharedCache} (h : SharedCache.add s.cache b t pid = .ok (v, c')) :
    EvictsLeast s b c' := by
  intro x hx hthere hgone
  obtain ⟨rest, hblocks, hno⟩ := evicts_first hs.toSharedSound h hx hthere hgone
  refine ⟨heldIn_iff.mpr ⟨hx, by simp [hblocks]⟩, fun y hy hne => ?_⟩
  obtain ⟨hynull, hy⟩ := heldIn_iff.mp hy
  have horder := hs.inOrder (s.cache.setIndex b)
  rw [hblocks] at horder hy
  exact horder.1 hx hno y ((List.mem_cons.mp hy).resolve_left hne) hynull

/-- **The shared cache replaces the least recently used block** in every run whose searches find
blocks only in the way of their set that was filled last. -/
theorem shared_least_recently_used (assoc maxSet : ℕ) (calls : List CacheCall) (s : CacheRun)
    (hgood : Along (CacheRun.step SharedCache.methods) HitsNewest (CacheRun.init assoc maxSet) calls)
    (h : exec (CacheRun.step SharedCache.methods) (CacheRun.init assoc maxSet) calls = .ok s)
    (b v : UInt64) (t : RequestType) (pid : Int) (c' : SharedCache)
    (hadd : SharedCache.add s.cache b t pid = .ok (v, c')) : EvictsLeast s b c' :=
  (exec_along (fun _ _ _ => inUseOrder_step) (inUseOrder_init assoc maxSet) hgood h).evictsLeast hadd

instance (s : CacheRun) : ∀ call, Decidable (HitsNewest s call)
  | .search b _ => inferInstanceAs (Decidable (b ≠ NULL → Present s.cache b → _ = some b))
  | .add _ _ _ => .isTrue trivial
  | .remove _ => .isTrue trivial
  | .ifdirty _ => .isTrue trivial

/-- The block filled last is used again. -/
theorem shared_least_recently_used_newest : ∃ s v c',
    exec (CacheRun.step SharedCache.methods) (CacheRun.init 2 1)
      [.add 5 .read 0, .add 7 .read 1, .search 7 .write] = .ok s ∧
      SharedCache.add s.cache 9 .read 0 = .ok (v, c') ∧ EvictsLeast s 9 c' ∧ ¬ Present c' 5 := by
  obtain ⟨s, h, hadd⟩ := Outcome.exists_of_map_eq_ok
    (x := exec (CacheRun.step SharedCache.methods) (CacheRun.init 2 1)
      [.add 5 .read 0, .add 7 .read 1, .search 7 .write])
    (f := fun s => (SharedCache.add s.cache 9 .read 0).map fun r => decide (Present r.2 5))
    (b := .ok false) (by decide +kernel)
  obtain ⟨⟨v, c'⟩, hadd, hgone⟩ := Outcome.exists_of_map_eq_ok hadd
  exact ⟨s, v, c', h, hadd, shared_least_recently_used 2 1 _ s (by decide +kernel) h 9 v .read 0 c' hadd,
    of_decide_eq_false hgone⟩

/-- A block that is used again leaves before one that is not. -/
theorem not_evictsLeast_again : ¬ ∀ s v c',
    exec (CacheRun.step SharedCache.methods) (CacheRun.init 2 1)
      [.add 5 .read 0, .add 7 .read 1, .search 5 .read] = .ok s →
      SharedCache.add s.cache 9 .read 0 = .ok (v, c') → EvictsLeast s 9 c' := by
  intro hall
  obtain ⟨s, h, hseen⟩ := Outcome.exists_of_map_eq_ok
    (x := exec (CacheRun.step SharedCache.methods) (CacheRun.init 2 1)
      [.add 5 .read 0, .add 7 .read 1, .search 5 .read])
    (f := fun s => ((SharedCache.add s.cache 9 .read 0).map fun r => decide (Present r.2 5),
      decide (Present s.cache 5), decide (HeldIn s.cache (s.cache.setIndex 9) 7),
      decide (s.recency.used 5 < s.recency.used 7)))
    (b := (.ok false, true, true, false)) (by decide +kernel)
  simp only [Prod.mk.injEq, decide_eq_true_eq, decide_eq_false_iff_not] at hseen
  obtain ⟨hadd, hthere, hheld, hused⟩ := hseen
  obtain ⟨⟨v, c'⟩, hadd, hgone⟩ := Outcome.exists_of_map_eq_ok hadd
  have hleast := hall s v c' h hadd 5 (by decide) hthere (of_decide_eq_false hgone)
  exact hused (hleast.2 7 hheld (by decide))

end PIMSim
