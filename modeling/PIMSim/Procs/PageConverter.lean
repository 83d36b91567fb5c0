import PIMSim.Library.FirstTouch
import PIMSim.Library.Outcome
import PIMSim.Library.Wrapping
import Mathlib.Tactic

/-!
# Page translation

`PageConverter` gives every page a frame at its first touch, from the page's stride group and a
cursor that runs through the stride.

## Main definitions

* `PageConverter`, `scanPage`: the page table and one translation
* `scanAll`: the translations of a sequence of addresses
* `Translates`, `Sound`: translations return; no page is in the table before one did
* `Injective`: the calls return, keep offsets, and give different pages different frames
* `Fits`: an address keeps its offset when its page is touched at a given position of the cursor
* `Collides`: two pages get the same frame at given positions of the cursor

## Main results

* `scanPage_spec`: what one translation does
* `scanAll_spec`: the frame of a page is a function of its group and the position of its first touch
* `injective_iff`: the sequences translated injectively
-/

namespace PIMSim

open CSharp FirstTouch

/-- The private state of `PageConverter`. -/
structure PageConverter where
  pageSize : UInt64
  stride : UInt64
  pageTable : UInt64 → Option UInt64
  frame : List UInt64
  currFid : UInt64

namespace PageConverter

/-- A converter with no page in its table. -/
def empty (pageSize stride : UInt64) : PageConverter :=
  { pageSize, stride, pageTable := fun _ => none, frame := [], currFid := 0 }

/-- The constructor. In random mode the stride stays zero. -/
def create (pageSize : UInt64) (channel rank bank : Int32) (random : Bool) : PageConverter :=
  empty pageSize (if random then 0 else UInt64.ofInt (channel * rank * bank).toInt)

/-- `a / b` on 64-bit numbers. -/
def div (a b : UInt64) : Outcome UInt64 := if b = 0 then .error .divideByZero else .ok (a / b)

/-- `a % b` on 64-bit numbers. -/
def mod (a b : UInt64) : Outcome UInt64 := if b = 0 then .error .divideByZero else .ok (a % b)

/-- The mapping of an address. -/
def scanPage (s : PageConverter) (addr : UInt64) : Outcome (UInt64 × PageConverter) := do
  let page ← div addr s.pageSize
  let offset ← mod addr s.pageSize
  match s.pageTable page with
  | some index => return (index * s.pageSize + offset, s)
  | none =>
    -- the frame of a new page, from its stride group and the cursor
    let group ← div page s.stride
    let index := group * s.stride + s.currFid
    let currFid ← mod (s.currFid + 1) s.stride
    return (index * s.pageSize + offset,
      { s with
        frame := s.frame ++ [index]
        pageTable := Function.update s.pageTable page (some index)
        currFid := currFid })

/-- The mappings of a sequence of addresses. -/
def scanAll (s : PageConverter) : List UInt64 → Outcome (List UInt64 × PageConverter)
  | [] => .ok ([], s)
  | addr :: addrs => do
    let (result, s) ← scanPage s addr
    let (results, s) ← scanAll s addrs
    return (result :: results, s)

/-! ### When a translation returns -/

/-- Neither the page size nor the stride is zero. -/
def Translates (s : PageConverter) : Prop := s.pageSize ≠ 0 ∧ s.stride ≠ 0

/-- A page is in the table only behind a translation that returned. -/
def Sound (s : PageConverter) : Prop := ∀ page, s.pageTable page ≠ none → s.Translates

theorem div_eq_ok {a b r : UInt64} : div a b = .ok r ↔ b ≠ 0 ∧ r = a / b := by
  unfold div
  split_ifs with h <;> simp [h, eq_comm]

theorem mod_eq_ok {a b r : UInt64} : mod a b = .ok r ↔ b ≠ 0 ∧ r = a % b := by
  unfold mod
  split_ifs with h <;> simp [h, eq_comm]

theorem sound_create (pageSize : UInt64) (channel rank bank : Int32) (random : Bool) :
    (create pageSize channel rank bank random).Sound :=
  fun _ h => absurd rfl h

/-- A translation returns when neither number is zero. -/
theorem scanPage_returns {s : PageConverter} (h : s.Translates) (addr : UInt64) :
    ∃ res s', scanPage s addr = .ok (res, s') := by
  obtain ⟨hps, hst⟩ := h
  have hpage : div addr s.pageSize = .ok (addr / s.pageSize) := if_neg hps
  have hoffset : mod addr s.pageSize = .ok (addr % s.pageSize) := if_neg hps
  simp only [scanPage, hpage, hoffset, Outcome.ok_bind]
  cases s.pageTable (addr / s.pageSize) with
  | some index => exact ⟨_, s, rfl⟩
  | none =>
    have hgroup : div (addr / s.pageSize) s.stride = .ok (addr / s.pageSize / s.stride) := if_neg hst
    have hnext : mod (s.currFid + 1) s.stride = .ok ((s.currFid + 1) % s.stride) := if_neg hst
    rw [hgroup, hnext]
    exact ⟨_, _, rfl⟩

/-- A translation that returns, over a sound table: neither number is zero, and both stay. -/
theorem Sound.scanPage {s s' : PageConverter} {addr res : UInt64} (h : s.Sound)
    (hscan : s.scanPage addr = .ok (res, s')) :
    s.Translates ∧ s'.Sound ∧ (s'.Translates ↔ s.Translates) := by
  simp only [PageConverter.scanPage, Outcome.bind_eq_ok] at hscan
  obtain ⟨page, hpage, offset, -, hscan⟩ := hscan
  cases hindex : s.pageTable page with
  | some index =>
    rw [hindex] at hscan
    cases hscan
    -- a page of the table was entered behind a translation that returned
    exact ⟨h page (by simp [hindex]), h, Iff.rfl⟩
  | none =>
    simp only [hindex, Outcome.bind_eq_ok] at hscan
    obtain ⟨group, hgroup, currFid, -, heq⟩ := hscan
    cases heq
    have htranslates : s.Translates := ⟨(div_eq_ok.mp hpage).1, (div_eq_ok.mp hgroup).1⟩
    exact ⟨htranslates, fun _ _ => htranslates, Iff.rfl⟩

/-! ### Frames -/

/-- The index of the page touched as the `k`-th one. -/
def frameAt (stride page : UInt64) (k : ℕ) : UInt64 :=
  page / stride * stride + UInt64.ofNat (k % stride.toNat)

/-- The converter after the pages `seen` were touched, in this order. -/
structure Touched (pageSize stride : UInt64) (seen : List UInt64) (s : PageConverter) : Prop where
  pageSize_eq : s.pageSize = pageSize
  stride_eq : s.stride = stride
  currFid_eq : s.currFid = UInt64.ofNat (seen.length % stride.toNat)
  pageTable_eq : ∀ page, s.pageTable page =
    if page ∈ seen then some (frameAt stride page (seen.idxOf page)) else none

theorem touched_empty (pageSize stride : UInt64) :
    Touched pageSize stride [] (empty pageSize stride) :=
  ⟨rfl, rfl, by simp [empty], fun page => by simp [empty]⟩

/-- The cursor runs through the stride. -/
theorem cursor_succ {stride : UInt64} (hst : stride ≠ 0) (k : ℕ) :
    (UInt64.ofNat (k % stride.toNat) + 1) % stride = UInt64.ofNat ((k + 1) % stride.toNat) := by
  have hpos : 0 < stride.toNat := Nat.pos_of_ne_zero fun h => hst (UInt64.toNat_inj.mp h)
  have hlt := stride.toNat_lt
  have hk := Nat.mod_lt k hpos
  have hk' := Nat.mod_lt (k + 1) hpos
  have hsize : UInt64.size = 2 ^ 64 := rfl
  have hsum : (k % stride.toNat + 1) % 2 ^ 64 = k % stride.toNat + 1 :=
    Nat.mod_eq_of_lt (by omega)
  rw [← UInt64.toNat_inj, UInt64.toNat_mod, UInt64.toNat_add, UInt64.toNat_one,
    UInt64.toNat_ofNat_of_lt' (by omega), UInt64.toNat_ofNat_of_lt' (by omega), hsum,
    Nat.mod_add_mod]

/-- **What one translation does**: the page is touched, and the result is the frame of its first
touch with the offset kept. -/
theorem scanPage_spec {pageSize stride : UInt64} {seen : List UInt64} {s : PageConverter}
    (h : Touched pageSize stride seen s) (hps : pageSize ≠ 0) (hst : stride ≠ 0) (addr : UInt64) :
    ∃ s', scanPage s addr = .ok (frameAt stride (addr / pageSize)
        ((touch seen (addr / pageSize)).idxOf (addr / pageSize)) * pageSize + addr % pageSize, s') ∧
      Touched pageSize stride (touch seen (addr / pageSize)) s' := by
  obtain ⟨hps', hst', hfid, htable⟩ := h
  have hdiv : div addr pageSize = .ok (addr / pageSize) := if_neg hps
  have hmod : mod addr pageSize = .ok (addr % pageSize) := if_neg hps
  simp only [scanPage, hps', hdiv, hmod, Outcome.ok_bind, htable]
  by_cases hpage : addr / pageSize ∈ seen
  · -- a page that was touched before keeps its frame, and the cursor stays
    refine ⟨s, ?_, ?_⟩
    · simp only [if_pos hpage, idxOf_touch hpage]
      rfl
    · rw [touch, if_pos hpage]
      exact ⟨hps', hst', hfid, htable⟩
  · -- a new page takes the cursor where it stands, as the next one of the order
    have hgroup : div (addr / pageSize) stride = .ok (addr / pageSize / stride) := if_neg hst
    have hnext : mod (s.currFid + 1) stride =
        .ok (UInt64.ofNat ((seen.length + 1) % stride.toNat)) := by
      rw [mod, if_neg hst, hfid, cursor_succ hst]
    simp only [if_neg hpage, hst', hgroup, hnext, Outcome.ok_bind, idxOf_touch_self hpage]
    refine ⟨_, by rw [hfid]; rfl, rfl, rfl, by rw [length_touch hpage], ?_⟩
    intro page
    change Function.update s.pageTable _ _ page = _
    by_cases heq : page = addr / pageSize
    · subst heq
      rw [if_pos (mem_touch.mpr (.inr rfl)), idxOf_touch_self hpage, Function.update_self]
      rfl
    · rw [Function.update_of_ne heq, htable]
      by_cases hmem : page ∈ seen
      · rw [if_pos hmem, if_pos (mem_touch.mpr (.inl hmem)), idxOf_touch hmem]
      · rw [if_neg hmem, if_neg (by simp [mem_touch, hmem, heq])]

/-- **What a sequence of translations does**: every page keeps the frame of its first touch. -/
theorem scanAll_spec {pageSize stride : UInt64} (hps : pageSize ≠ 0) (hst : stride ≠ 0)
    {seen : List UInt64} {s : PageConverter} (h : Touched pageSize stride seen s)
    (addrs : List UInt64) :
    ∃ s', scanAll s addrs = .ok (addrs.map fun addr => frameAt stride (addr / pageSize)
        ((touched seen (addrs.map (· / pageSize))).idxOf (addr / pageSize)) * pageSize +
          addr % pageSize, s') ∧
      Touched pageSize stride (touched seen (addrs.map (· / pageSize))) s' := by
  induction addrs generalizing seen s with
  | nil => exact ⟨s, rfl, h⟩
  | cons addr addrs ih =>
    obtain ⟨s₁, hscan, h₁⟩ := scanPage_spec h hps hst addr
    obtain ⟨s₂, hall, h₂⟩ := ih h₁
    refine ⟨s₂, ?_, h₂⟩
    have hidx := idxOf_touched (addrs.map (· / pageSize))
      (mem_touch.mpr (.inr rfl) : addr / pageSize ∈ touch seen (addr / pageSize))
    simp only [scanAll, hscan, hall, Outcome.ok_bind, List.map_cons, touched_cons, hidx]
    rfl

/-! ### Injectivity -/

/-- The calls return, every result keeps the offset of its address, the same address has the same
result, and two results are in one frame exactly when their addresses are in one page. -/
def Injective (pageSize stride : UInt64) (addrs : List UInt64) : Prop :=
  ∃ results s', scanAll (empty pageSize stride) addrs = .ok (results, s') ∧
    ∀ u ∈ addrs.zip results, u.2 % pageSize = u.1 % pageSize ∧ ∀ v ∈ addrs.zip results,
      (u.1 = v.1 → u.2 = v.2) ∧ (u.2 / pageSize = v.2 / pageSize ↔ u.1 / pageSize = v.1 / pageSize)

/-- The pages in the order of their first touch. -/
def firstTouches (pageSize : UInt64) (addrs : List UInt64) : List UInt64 :=
  touched [] (addrs.map (· / pageSize))

/-- The sum of the stride group of the page `p` and the cursor, when the page is touched as the
`k`-th one. -/
def frameNumber (stride p : UInt64) (k : ℕ) : ℕ :=
  p.toNat / stride.toNat * stride.toNat + k % stride.toNat

/-- The number of frames that are different multiples of the page size as numbers of 64 bits. -/
def frameCount (pageSize : UInt64) : ℕ := Wrapping.period (2 ^ 64) pageSize.toNat

/-- The result for an address whose page is touched as the `k`-th one is a number of 64 bits. -/
def Fits (pageSize stride addr : UInt64) (k : ℕ) : Prop :=
  frameNumber stride (addr / pageSize) k % frameCount pageSize * pageSize.toNat +
    (addr % pageSize).toNat < 2 ^ 64

/-- The pages `p` and `q`, touched as the `k`-th and the `l`-th one, get the same frame. -/
def Collides (pageSize stride p : UInt64) (k : ℕ) (q : UInt64) (l : ℕ) : Prop :=
  frameNumber stride p k % frameCount pageSize = frameNumber stride q l % frameCount pageSize

theorem toNat_frameAt {stride : UInt64} (hst : stride ≠ 0) (page : UInt64) (k : ℕ) :
    (frameAt stride page k).toNat = frameNumber stride page k % 2 ^ 64 := by
  have hpos : 0 < stride.toNat := Nat.pos_of_ne_zero fun h => hst (UInt64.toNat_inj.mp h)
  have hk := Nat.mod_lt k hpos
  have hlt := stride.toNat_lt
  have hsize : UInt64.size = 2 ^ 64 := rfl
  rw [frameAt, frameNumber, UInt64.toNat_add, UInt64.toNat_mul, UInt64.toNat_div,
    UInt64.toNat_ofNat_of_lt' (by omega), Nat.mod_add_mod]

/-- The result for an address whose page is touched as the `k`-th one. -/
def resultAt (pageSize stride addr : UInt64) (k : ℕ) : UInt64 :=
  frameAt stride (addr / pageSize) k * pageSize + addr % pageSize

section Results

variable {pageSize stride : UInt64} (hps : pageSize ≠ 0) (hst : stride ≠ 0)

include hst in
theorem toNat_resultAt (addr : UInt64) (k : ℕ) : (resultAt pageSize stride addr k).toNat =
    (frameNumber stride (addr / pageSize) k * pageSize.toNat + (addr % pageSize).toNat) % 2 ^ 64 := by
  rw [resultAt, UInt64.toNat_add, UInt64.toNat_mul, toNat_frameAt hst, Nat.mod_mul_mod,
    Nat.mod_add_mod]

include hps in
theorem toNat_mod_lt (addr : UInt64) : (addr % pageSize).toNat < pageSize.toNat := by
  rw [UInt64.toNat_mod]
  exact Nat.mod_lt _ (Nat.pos_of_ne_zero fun h => hps (UInt64.toNat_inj.mp h))

include hps hst in
/-- The offset is kept exactly when the result fits. -/
theorem resultAt_mod_iff (addr : UInt64) (k : ℕ) :
    resultAt pageSize stride addr k % pageSize = addr % pageSize ↔ Fits pageSize stride addr k := by
  rw [← UInt64.toNat_inj, UInt64.toNat_mod (resultAt _ _ _ _), toNat_resultAt hst]
  exact Wrapping.mod_eq_iff (by decide) (toNat_mod_lt hps addr)

include hps hst in
/-- The frame of a result that fits. -/
theorem toNat_resultAt_div {addr : UInt64} {k : ℕ} (h : Fits pageSize stride addr k) :
    (resultAt pageSize stride addr k / pageSize).toNat =
      frameNumber stride (addr / pageSize) k % frameCount pageSize := by
  rw [UInt64.toNat_div, toNat_resultAt hst]
  exact Wrapping.div_eq (toNat_mod_lt hps addr) h

end Results

theorem mem_firstTouches {pageSize page : UInt64} {addrs : List UInt64} :
    page ∈ firstTouches pageSize addrs ↔ ∃ addr ∈ addrs, page = addr / pageSize := by
  simp [firstTouches, mem_touched, eq_comm]

theorem idxOf_firstTouches {pageSize page : UInt64} {addrs : List UInt64} {k : ℕ}
    (h : (firstTouches pageSize addrs)[k]? = some page) :
    (firstTouches pageSize addrs).idxOf page = k := by
  have hnodup : (firstTouches pageSize addrs).Nodup := nodup_touched List.nodup_nil _
  obtain ⟨hlt, rfl⟩ := List.getElem?_eq_some_iff.mp h
  exact hnodup.idxOf_getElem k hlt

theorem getElem?_firstTouches {pageSize addr : UInt64} {addrs : List UInt64} (h : addr ∈ addrs) :
    (firstTouches pageSize addrs)[(firstTouches pageSize addrs).idxOf (addr / pageSize)]? =
      some (addr / pageSize) :=
  List.getElem?_idxOf (mem_firstTouches.mpr ⟨addr, h, rfl⟩)

/-- The result for an address, in a sequence of addresses. -/
def resultIn (pageSize stride : UInt64) (addrs : List UInt64) (addr : UInt64) : UInt64 :=
  resultAt pageSize stride addr ((firstTouches pageSize addrs).idxOf (addr / pageSize))

/-- The sequence is translated injectively when its results keep the offsets and tell the pages
apart. -/
theorem injective_iff_resultIn {pageSize stride : UInt64} (hps : pageSize ≠ 0) (hst : stride ≠ 0)
    (addrs : List UInt64) : Injective pageSize stride addrs ↔ ∀ a ∈ addrs,
      resultIn pageSize stride addrs a % pageSize = a % pageSize ∧ ∀ b ∈ addrs,
        (resultIn pageSize stride addrs a / pageSize = resultIn pageSize stride addrs b / pageSize ↔
          a / pageSize = b / pageSize) := by
  obtain ⟨s', hall, -⟩ := scanAll_spec hps hst (touched_empty pageSize stride) addrs
  replace hall : scanAll (empty pageSize stride) addrs =
      .ok (addrs.map (resultIn pageSize stride addrs), s') := hall
  constructor
  · rintro ⟨results, t, ht, h⟩ a ha
    rw [hall] at ht
    cases ht
    rw [← List.map_prod_left_eq_zip] at h
    obtain ⟨hoffset, hframe⟩ := h (a, _) (List.mem_map_of_mem ha)
    exact ⟨hoffset, fun b hb => (hframe (b, _) (List.mem_map_of_mem hb)).2⟩
  · intro h
    refine ⟨_, s', hall, fun u hu => ?_⟩
    rw [← List.map_prod_left_eq_zip] at hu ⊢
    obtain ⟨a, ha, rfl⟩ := List.mem_map.mp hu
    refine ⟨(h a ha).1, fun v hv => ?_⟩
    obtain ⟨b, hb, rfl⟩ := List.mem_map.mp hv
    exact ⟨congrArg (resultIn pageSize stride addrs), (h a ha).2 b hb⟩

/-- **The sequences translated injectively**: page size and stride are not zero, every result fits,
and no two first touches collide. -/
theorem injective_iff (pageSize stride : UInt64) (addrs : List UInt64) :
    Injective pageSize stride addrs ↔ addrs = [] ∨ pageSize ≠ 0 ∧ stride ≠ 0 ∧
      (∀ k, ∀ addr ∈ addrs, (firstTouches pageSize addrs)[k]? = some (addr / pageSize) →
        Fits pageSize stride addr k) ∧
      ∀ k l p q, k < l → (firstTouches pageSize addrs)[k]? = some p →
        (firstTouches pageSize addrs)[l]? = some q → ¬ Collides pageSize stride p k q l := by
  rcases addrs with _ | ⟨addr, addrs⟩
  · refine iff_of_true ⟨[], _, rfl, fun u hu => ?_⟩ (.inl rfl)
    cases hu
  -- With a page size or a stride of zero the first call throws.
  by_cases hps : pageSize = 0
  · subst hps
    refine iff_of_false ?_ (by simp)
    rintro ⟨_, _, h, -⟩
    cases h
  by_cases hst : stride = 0
  · subst hst
    refine iff_of_false ?_ (by simp)
    rintro ⟨_, _, h, -⟩
    simp [scanAll, scanPage, empty, div, mod, hps] at h
  simp only [List.cons_ne_nil, false_or, ne_eq, hps, hst, not_false_eq_true, true_and]
  generalize addr :: addrs = asked
  rw [injective_iff_resultIn hps hst]
  constructor
  · intro h
    have hfits : ∀ k, ∀ a ∈ asked, (firstTouches pageSize asked)[k]? = some (a / pageSize) →
        Fits pageSize stride a k := by
      intro k a ha hk
      rw [← idxOf_firstTouches hk]
      exact (resultAt_mod_iff hps hst a _).mp (h a ha).1
    refine ⟨hfits, fun k l p q hkl hp hq hcollides => ?_⟩
    obtain ⟨a, ha, rfl⟩ := mem_firstTouches.mp (List.mem_of_getElem? hp)
    obtain ⟨b, hb, rfl⟩ := mem_firstTouches.mp (List.mem_of_getElem? hq)
    have hframes : resultIn pageSize stride asked a / pageSize =
        resultIn pageSize stride asked b / pageSize := by
      rw [resultIn, resultIn, idxOf_firstTouches hp, idxOf_firstTouches hq, ← UInt64.toNat_inj,
        toNat_resultAt_div hps hst (hfits k a ha hp), toNat_resultAt_div hps hst (hfits l b hb hq)]
      exact hcollides
    -- So the two pages are one, which was first touched at one time.
    have hpage : a / pageSize = b / pageSize := ((h a ha).2 b hb).mp hframes
    have hk := idxOf_firstTouches hp
    rw [hpage, idxOf_firstTouches hq] at hk
    exact hkl.ne' hk
  · rintro ⟨hfits, hfree⟩ a ha
    have hfita := hfits _ a ha (getElem?_firstTouches ha)
    refine ⟨(resultAt_mod_iff hps hst a _).mpr hfita, fun b hb => ?_⟩
    have hfitb := hfits _ b hb (getElem?_firstTouches hb)
    have hframes := toNat_resultAt_div hps hst hfita
    have hframes' := toNat_resultAt_div hps hst hfitb
    constructor
    · intro h
      -- The pages of one frame were first touched at one time.
      have hcollides : Collides pageSize stride (a / pageSize)
          ((firstTouches pageSize asked).idxOf (a / pageSize)) (b / pageSize)
          ((firstTouches pageSize asked).idxOf (b / pageSize)) :=
        (hframes.symm.trans (congrArg UInt64.toNat h)).trans hframes'
      rcases Nat.lt_trichotomy ((firstTouches pageSize asked).idxOf (a / pageSize))
        ((firstTouches pageSize asked).idxOf (b / pageSize)) with hlt | heq | hgt
      · exact absurd hcollides
          (hfree _ _ _ _ hlt (getElem?_firstTouches ha) (getElem?_firstTouches hb))
      · exact Option.some.inj
          ((getElem?_firstTouches ha).symm.trans (heq ▸ getElem?_firstTouches hb))
      · exact absurd hcollides.symm
          (hfree _ _ _ _ hgt (getElem?_firstTouches hb) (getElem?_firstTouches ha))
    · intro h
      rw [← UInt64.toNat_inj]
      refine hframes.trans (Eq.trans ?_ hframes'.symm)
      rw [h]

/-- Stride two, pages of four bytes: the pages 0, 2 and 1, touched in this order, get the frames
0, 3 and 0. -/
theorem not_injective_shared_cursor : ¬ Injective 4 2 [0, 8, 4] := by
  rintro ⟨results, s', hall, h⟩
  cases hall
  have hsame := ((h (0, 0) (by decide)).2 (4, 0) (by decide)).2.mp rfl
  exact absurd hsame (by decide)

end PageConverter

end PIMSim
