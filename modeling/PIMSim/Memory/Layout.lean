import PIMSim.Memory.MemorySelector

/-!
# The layout of the memory objects

What a sequence of `MemorySelector.add` calls lays out, and when the layout answers every address.

## Main definitions

* `spans info`, `reach info`: the regions as intervals, and the greatest address they end at
* `RoutesInRange info`: every address selects a region that holds the address once cut
* `Tiles adds`: the regions tile an initial segment, each of the size it was added with

## Main results

* `covered_of_laid`: the regions cover the addresses up to the greatest end
* `routesInRange_iff_coversWidth`: the layouts that route every address
* `coversWidth_iff_powerOfTwo`: they are those of a power of two of bytes, when no end wraps
* `tiles_iff`: only a single region tiles
-/

namespace PIMSim.MemorySelector

open CSharp Intervals

variable {Obj : Type}

/-- The regions as intervals. -/
def spans (info : List (Region Obj)) : List (ℕ × ℕ) :=
  info.map fun r => (r.start.toNat, r.stop.toNat)

/-- The greatest address a region ends at. -/
def reach (info : List (Region Obj)) : ℕ := top 0 (spans info)

/-- The first region starts at zero, and each later one right after the end before it. -/
structure Laid (info : List (Region Obj)) : Prop where
  nonempty : info ≠ []
  start : ∀ r ∈ info.head?, r.start = 0
  chain : List.IsChain (fun p q : Region Obj => q.start = p.stop + 1) info

theorem Region.holds_iff {r : Region Obj} {address : UInt64} :
    Region.holds r address = true ↔
      r.start.toNat ≤ address.toNat ∧ address.toNat ≤ r.stop.toNat := by
  simp [Region.holds, UInt64.le_iff_toNat_le]

theorem mem_covered_spans {info : List (Region Obj)} {x : ℕ} :
    x ∈ covered (spans info) ↔ ∃ r ∈ info, r.start.toNat ≤ x ∧ x ≤ r.stop.toNat := by
  simp [covered, spans]

theorem stop_le_reach {info : List (Region Obj)} {r : Region Obj} (h : r ∈ info) :
    r.stop.toNat ≤ reach info :=
  end_le_top 0 (r := (r.start.toNat, r.stop.toNat)) (List.mem_map_of_mem h)

theorem toNat_succ_le (v : UInt64) : (v + 1).toNat ≤ v.toNat + 1 := by
  rw [UInt64.toNat_add]
  exact Nat.mod_le _ _

theorem addAll_concat (adds : List (Int × Obj)) (a : Int × Obj) :
    addAll (adds ++ [a]) = add (addAll adds) a.1 a.2 := by
  simp [addAll, List.foldl_append]

theorem addAll_singleton (a : Int × Obj) :
    addAll [a] = [⟨0, (1 : UInt64) <<< UInt64.ofInt a.1 - 1, a.2⟩] := rfl

theorem toNat_one_shiftLeft (max : Int) :
    ((1 : UInt64) <<< UInt64.ofInt max).toNat = 2 ^ (max % 64).toNat := by
  have hcount : (UInt64.ofInt max).toNat % 64 = (max % 64).toNat := by
    rw [UInt64.ofInt, UInt64.toNat_ofNat']
    omega
  have hlt : 2 ^ (max % 64).toNat < 2 ^ 64 := Nat.pow_lt_pow_right (by decide) (by omega)
  rw [UInt64.toNat_shiftLeft, hcount, UInt64.toNat_one, Nat.shiftLeft_eq, Nat.one_mul,
    Nat.mod_eq_of_lt hlt]

theorem toNat_shiftLeft_sub_one (max : Int) :
    ((1 : UInt64) <<< UInt64.ofInt max - 1).toNat = 2 ^ (max % 64).toNat - 1 := by
  have hpos : 0 < 2 ^ (max % 64).toNat := by positivity
  have hlt : 2 ^ (max % 64).toNat < 2 ^ 64 := Nat.pow_lt_pow_right (by decide) (by omega)
  rw [UInt64.toNat_sub, toNat_one_shiftLeft, UInt64.toNat_one]
  omega

theorem laid_add {info : List (Region Obj)} (h : info = [] ∨ Laid info) (max : Int) (obj : Obj) :
    Laid (add info max obj) := by
  rcases h with rfl | h
  · exact ⟨List.cons_ne_nil _ _, by simp [add], List.isChain_singleton _⟩
  · obtain ⟨last, hlast⟩ : ∃ last, info.getLast? = some last :=
      Option.isSome_iff_exists.mp (by simp [h.nonempty])
    simp only [add, hlast]
    refine ⟨by simp, ?_, h.chain.append (List.isChain_singleton _) ?_⟩
    · rw [List.head?_append_of_ne_nil _ h.nonempty]
      exact h.start
    · rintro p hp q hq
      rw [hlast] at hp
      cases hp
      cases hq
      rfl

theorem laid_addAll {adds : List (Int × Obj)} (hne : adds ≠ []) : Laid (addAll adds) := by
  induction adds using List.reverseRecOn with
  | nil => exact absurd rfl hne
  | append_singleton adds a ih =>
    rw [addAll_concat]
    refine laid_add ?_ a.1 a.2
    by_cases h : adds = []
    · exact .inl (by rw [h]; rfl)
    · exact .inr (ih h)

/-- The regions laid before others are a layout. -/
theorem Laid.of_append {pre post : List (Region Obj)} (h : Laid (pre ++ post)) (hpre : pre ≠ []) :
    Laid pre where
  nonempty := hpre
  start := by
    have := h.start
    rwa [List.head?_append_of_ne_nil _ hpre] at this
  chain := (List.isChain_append.mp h.chain).1

theorem adjoining_of_isChain {p : Region Obj} {rest : List (Region Obj)} {m : ℕ}
    (h : List.IsChain (fun p q : Region Obj => q.start = p.stop + 1) (p :: rest))
    (hp : p.stop.toNat ≤ m) : Adjoining m (spans rest) := by
  induction rest generalizing p m with
  | nil => trivial
  | cons q rest ih =>
    rw [List.isChain_cons_cons] at h
    have hq : q.start.toNat ≤ m + 1 := by
      rw [h.1]
      exact (toNat_succ_le _).trans (Nat.succ_le_succ hp)
    exact ⟨hq, ih h.2 (Nat.le_max_right _ _)⟩

/-- **The regions cover** the addresses up to the greatest end. -/
theorem covered_of_laid {info : List (Region Obj)} (h : Laid info) :
    covered (spans info) = Set.Iic (reach info) := by
  obtain ⟨first, rest, rfl⟩ := List.exists_cons_of_ne_nil h.nonempty
  have h0 : first.start = 0 := h.start first rfl
  have := covered_eq_Iic (adjoining_of_isChain h.chain (Nat.le_refl _))
  simpa [reach, spans, h0] using this

theorem exists_holds_iff {info : List (Region Obj)} (h : Laid info) {address : UInt64} :
    (∃ r ∈ info, Region.holds r address = true) ↔ address.toNat ≤ reach info := by
  rw [← Set.mem_Iic, ← covered_of_laid h, mem_covered_spans]
  simp only [Region.holds_iff]

/-- A region that starts at zero behind others follows regions that hold every address. -/
theorem exists_holds_of_start_zero {pre post : List (Region Obj)} {r : Region Obj}
    (h : Laid (pre ++ r :: post)) (hpre : pre ≠ []) (hr : r.start = 0) (address : UInt64) :
    ∃ q ∈ pre, Region.holds q address = true := by
  obtain ⟨q, hq⟩ : ∃ q, pre.getLast? = some q :=
    Option.isSome_iff_exists.mp (by simp [hpre])
  have hstop : r.start = q.stop + 1 := (List.isChain_append.mp h.chain).2.2 q hq r rfl
  have hmax : q.stop.toNat = 2 ^ 64 - 1 := by
    have hwrap := congrArg UInt64.toNat (hstop.symm.trans hr)
    have hlt := q.stop.toNat_lt
    rw [UInt64.toNat_add] at hwrap
    simp only [UInt64.toNat_one, UInt64.toNat_zero] at hwrap
    omega
  have hreach := stop_le_reach (List.mem_of_getLast? hq)
  have hlt := address.toNat_lt
  exact (exists_holds_iff (h.of_append hpre)).mpr (by omega)

/-! ### Routing -/

/-- Every address selects a region of the layout, and the region holds the address once cut. -/
def RoutesInRange (info : List (Region Obj)) : Prop :=
  ∀ address : UInt64, ∃ (i : ℕ) (r : Region Obj) (res : UInt64),
    getId info address = .ok i ∧ info[i]? = some r ∧
      resize info address = .ok res ∧ Region.holds r res = true

/-- The regions cover the power of two addresses are cut to, and only an address in the first
region is cut although the layout holds it. -/
def CoversWidth (info : List (Region Obj)) : Prop :=
  ∃ first last, info.head? = some first ∧ info.getLast? = some last ∧ 2 ≤ last.stop.toNat ∧
    capacity last.stop ≤ reach info + 1 ∧
    (last.stop.toNat < capacity last.stop ∨ last.stop ≤ first.stop)

theorem getId_eq {info : List (Region Obj)} {last : Region Obj} (h : info.getLast? = some last)
    (address : UInt64) :
    getId info address = (if last.stop < address then resize info address else .ok address) >>=
      fun res => .ok (searchId info res) := by
  have hpos : ¬ address < 0 := UInt64.not_lt_zero
  simp only [getId, lastRegion_eq, h, if_neg hpos]
  by_cases hlt : last.stop < address <;> simp [hlt] <;> rfl

/-- The search answers the first region that holds the address. -/
theorem exists_of_searchId {info : List (Region Obj)} {res : UInt64} {i : ℕ}
    (h : searchId info res = i) : ∃ pre r post, info = pre ++ r :: post ∧ pre.length = i ∧
      Region.holds r res = true ∧ ∀ q ∈ pre, Region.holds q res = false := by
  have hfind : info.findIdx? (Region.holds · res) = some i := by
    unfold searchId at h
    cases hf : info.findIdx? (Region.holds · res) with
    | none => simp [hf] at h
    | some j =>
      rw [hf] at h
      exact congrArg some (Int.ofNat.inj h)
  obtain ⟨hi, hr, hpre⟩ := List.findIdx?_eq_some_iff_getElem.mp hfind
  refine ⟨info.take i, info[i], info.drop (i + 1), ?_, ?_, hr, ?_⟩
  · rw [← List.drop_eq_getElem_cons hi, List.take_append_drop]
  · rw [List.length_take]
    omega
  · intro q hq
    obtain ⟨j, hj, rfl⟩ := List.getElem_of_mem hq
    rw [List.length_take] at hj
    rw [List.getElem_take]
    simpa using hpre j (by omega)

/-- The search answers an index exactly for the addresses up to the greatest end. -/
theorem exists_searchId_iff {info : List (Region Obj)} (h : Laid info) (res : UInt64) :
    (∃ i : ℕ, searchId info res = i) ↔ res.toNat ≤ reach info := by
  rw [← exists_holds_iff h]
  constructor
  · rintro ⟨i, hi⟩
    obtain ⟨pre, r, post, rfl, -, hr, -⟩ := exists_of_searchId hi
    exact ⟨r, by simp, hr⟩
  · rintro ⟨r, hr, hres⟩
    unfold searchId
    cases hf : info.findIdx? (Region.holds · res) with
    | none => simp [List.findIdx?_eq_none_iff.mp hf r hr] at hres
    | some i => exact ⟨i, rfl⟩

/-- An address above the last end is cut, and selects what it is cut to. -/
theorem getId_of_gt {info : List (Region Obj)} {last : Region Obj} (h : info.getLast? = some last)
    (h2 : 2 ≤ last.stop.toNat) {address : UInt64} (hlt : last.stop < address) :
    ∃ res : UInt64, res.toNat = address.toNat % capacity last.stop ∧
      resize info address = .ok res ∧ getId info address = .ok (searchId info res) := by
  cases hres : resize info address with
  | error e =>
    rw [resize_eq h, if_neg (by omega)] at hres
    cases hres
  | ok res =>
    refine ⟨res, ((resize_eq_ok h).mp hres).2, rfl, ?_⟩
    rw [getId_eq h, if_pos hlt, hres, Outcome.ok_bind]

theorem getId_of_le {info : List (Region Obj)} {last : Region Obj} (h : info.getLast? = some last)
    {address : UInt64} (hle : address ≤ last.stop) :
    getId info address = .ok (searchId info address) := by
  rw [getId_eq h, if_neg (UInt64.not_lt.mpr hle), Outcome.ok_bind]

/-- What the width covers is routed into range. -/
theorem CoversWidth.routes {info : List (Region Obj)} (hlaid : Laid info) (h : CoversWidth info) :
    RoutesInRange info := by
  obtain ⟨first, last, hfirst, hlast, h2, hcap, hcut⟩ := h
  have hreach := stop_le_reach (List.mem_of_getLast? hlast)
  have hle := le_capacity last.stop
  intro address
  by_cases hlt : last.stop < address
  · obtain ⟨res, hres, hresize, hget⟩ := getId_of_gt hlast h2 hlt
    have hmod := Nat.mod_lt address.toNat (capacity_pos last.stop)
    obtain ⟨i, hi⟩ := (exists_searchId_iff hlaid res).mpr (by omega)
    obtain ⟨pre, r, post, rfl, rfl, hr, -⟩ := exists_of_searchId hi
    exact ⟨pre.length, r, res, hi ▸ hget, by simp, hresize, hr⟩
  · have hget := getId_of_le hlast (UInt64.not_lt.mp hlt)
    rw [UInt64.lt_iff_toNat_lt, Nat.not_lt] at hlt
    obtain ⟨i, hi⟩ := (exists_searchId_iff hlaid address).mpr (by omega)
    obtain ⟨pre, r, post, rfl, rfl, hr, hpre⟩ := exists_of_searchId hi
    rcases Nat.lt_or_ge address.toNat (capacity last.stop) with hlow | htop
    · refine ⟨pre.length, r, address, hi ▸ hget, by simp, ?_, hr⟩
      rw [resize_eq_ok hlast, Nat.mod_eq_of_lt hlow]
      exact ⟨h2, rfl⟩
    · -- The address is the last one, and the capacity itself: it is cut to zero.
      have hstop : last.stop ≤ first.stop := hcut.resolve_left (by omega)
      rw [UInt64.le_iff_toNat_le] at hstop
      have h0 : first.start = 0 := hlaid.start first hfirst
      have hzero : Region.holds first 0 = true := by
        rw [Region.holds_iff, h0]
        simp
      have hheld : Region.holds first address = true := by
        rw [Region.holds_iff, h0]
        exact ⟨Nat.zero_le _, by omega⟩
      have hnil : pre = [] := by
        cases pre with
        | nil => rfl
        | cons q pre =>
          cases hfirst
          simp [hpre first (by simp)] at hheld
      subst hnil
      cases hfirst
      refine ⟨0, first, 0, hi ▸ hget, rfl, (resize_eq_ok hlast).mpr ⟨h2, ?_⟩, hzero⟩
      have heq : address.toNat = capacity last.stop := by omega
      simp [heq]

/-- What routes every address into range covers its width. -/
theorem RoutesInRange.covers {info : List (Region Obj)} (hlaid : Laid info)
    (h : RoutesInRange info) : CoversWidth info := by
  obtain ⟨last, hlast⟩ : ∃ last, info.getLast? = some last :=
    Option.isSome_iff_exists.mp (by simp [hlaid.nonempty])
  obtain ⟨first, rest, rfl⟩ := List.exists_cons_of_ne_nil hlaid.nonempty
  have hreach := stop_le_reach (List.mem_of_getLast? hlast)
  have hle := le_capacity last.stop
  have h2 : 2 ≤ last.stop.toNat := by
    obtain ⟨i, r, res, -, -, hres, -⟩ := h 0
    exact ((resize_eq_ok hlast).mp hres).1
  refine ⟨first, last, rfl, hlast, h2, ?_, ?_⟩
  · -- Otherwise the last address below the capacity is cut to itself, and no region holds it.
    by_contra hgap
    have hpow := capacity_le last.stop
    have hx : (UInt64.ofNat (capacity last.stop - 1)).toNat = capacity last.stop - 1 := by
      have hlt : capacity last.stop - 1 < 2 ^ 64 := by omega
      exact UInt64.toNat_ofNat_of_lt' hlt
    have hgt : last.stop < UInt64.ofNat (capacity last.stop - 1) := by
      rw [UInt64.lt_iff_toNat_lt]
      omega
    obtain ⟨res, hres, -, hget⟩ := getId_of_gt hlast h2 hgt
    obtain ⟨i, r, _, hi, -⟩ := h (UInt64.ofNat (capacity last.stop - 1))
    have hfound := (exists_searchId_iff hlaid res).mp
      ⟨i, Except.ok.inj (hget.symm.trans hi)⟩
    rw [hx, Nat.mod_eq_of_lt (by omega)] at hres
    omega
  · -- Otherwise the last address is cut to zero, and lies in a region behind the first.
    rcases Nat.lt_or_ge last.stop.toNat (capacity last.stop) with hlow | htop
    · exact .inl hlow
    · refine .inr ?_
      obtain ⟨i, r, res, hi, hr, hres, hholds⟩ := h last.stop
      have hzero : res.toNat = 0 := by
        rw [((resize_eq_ok hlast).mp hres).2, le_antisymm hle htop, Nat.mod_self]
      have hsearch : searchId (first :: rest) last.stop = i :=
        Except.ok.inj ((getId_of_le hlast UInt64.le_rfl).symm.trans hi)
      obtain ⟨pre, q, post, heq, rfl, hq, hpre⟩ := exists_of_searchId hsearch
      have hrq : r = q := by
        rw [heq] at hr
        simpa using hr.symm
      subst hrq
      rw [Region.holds_iff, hzero] at hholds
      have hstart : r.start = 0 := UInt64.toNat_inj.mp (Nat.le_zero.mp hholds.1)
      rcases List.eq_nil_or_concat pre with rfl | ⟨init, p, rfl⟩
      · cases heq
        exact UInt64.le_iff_toNat_le.mpr (Region.holds_iff.mp hq).2
      · obtain ⟨p', hp', hheld⟩ :=
          exists_holds_of_start_zero (heq ▸ hlaid) (by simp) hstart last.stop
        simp [hpre p' hp'] at hheld

/-- **The layouts that route every address** are those that cover the width addresses are cut
to. -/
theorem routesInRange_iff_coversWidth (a : Int × Obj) (adds : List (Int × Obj)) :
    RoutesInRange (addAll (a :: adds)) ↔ CoversWidth (addAll (a :: adds)) :=
  have hlaid := laid_addAll (List.cons_ne_nil a adds)
  ⟨RoutesInRange.covers hlaid, CoversWidth.routes hlaid⟩

/-- Two memory objects of `2 ^ 32` bytes: the address `2 ^ 33 - 1` selects no object. -/
theorem not_routesInRange_two_objects : ¬ RoutesInRange (addAll [(32, ()), (32, ())]) := by
  intro h
  obtain ⟨i, -, -, hi, -⟩ := h 8589934591
  have hget : getId (addAll [(32, ()), (32, ())]) 8589934591 = .ok (-1) := by decide +kernel
  rw [hget] at hi
  simp at hi

/-- Where the layout ends when no end wraps: each object takes a byte less than it has. -/
def lastEnd (adds : List (Int × Obj)) : ℕ := (adds.map fun a => 2 ^ (a.1 % 64).toNat - 1).sum

theorem ends_of_lt {adds : List (Int × Obj)} (hne : adds ≠ []) (h : lastEnd adds < 2 ^ 64) :
    reach (addAll adds) = lastEnd adds ∧
      ∃ last, (addAll adds).getLast? = some last ∧ last.stop.toNat = lastEnd adds := by
  induction adds using List.reverseRecOn with
  | nil => exact absurd rfl hne
  | append_singleton init a ih =>
    have hpos : 0 < 2 ^ (a.1 % 64).toNat := by positivity
    have hlt : 2 ^ (a.1 % 64).toNat < 2 ^ 64 := Nat.pow_lt_pow_right (by decide) (by omega)
    have hsum : lastEnd (init ++ [a]) = lastEnd init + (2 ^ (a.1 % 64).toNat - 1) := by
      simp [lastEnd]
    rw [hsum] at h ⊢
    by_cases hinit : init = []
    · subst hinit
      simp [addAll_singleton, reach, spans, lastEnd, toNat_shiftLeft_sub_one]
    · obtain ⟨hreach, last, hlast, hstop⟩ := ih hinit (by omega)
      have hadd : addAll (init ++ [a]) = addAll init ++
          [⟨last.stop + 1, last.stop + (1 : UInt64) <<< UInt64.ofInt a.1 - 1, a.2⟩] := by
        rw [addAll_concat, add, hlast]
      have hnext : (last.stop + (1 : UInt64) <<< UInt64.ofInt a.1 - 1).toNat =
          lastEnd init + (2 ^ (a.1 % 64).toNat - 1) := by
        rw [UInt64.toNat_sub, UInt64.toNat_add, toNat_one_shiftLeft, UInt64.toNat_one, hstop]
        omega
      refine ⟨?_, _, by rw [hadd, List.getLast?_concat], hnext⟩
      rw [hadd, reach, spans, List.map_append, top_append]
      simp only [List.map_cons, List.map_nil, top_cons, top_nil, hnext]
      rw [← hreach]
      exact max_eq_right (Nat.le_add_right _ _)

theorem head?_addAll (a : Int × Obj) (adds : List (Int × Obj)) :
    (addAll (a :: adds)).head? = some ⟨0, (1 : UInt64) <<< UInt64.ofInt a.1 - 1, a.2⟩ := by
  induction adds using List.reverseRecOn with
  | nil => rfl
  | append_singleton adds b ih =>
    rw [← List.cons_append, addAll_concat, add]
    have hne : addAll (a :: adds) ≠ [] := (laid_addAll (List.cons_ne_nil a adds)).nonempty
    split
    · next h => exact absurd (List.getLast?_eq_none_iff.mp h) hne
    · rw [List.head?_append_of_ne_nil _ hne, ih]

theorem two_pow_succ_ne {j k : ℕ} (hj : 2 ≤ 2 ^ j) : 2 ^ j + 1 ≠ 2 ^ k := by
  intro h
  obtain ⟨i, rfl⟩ : ∃ i, j = i + 1 := Nat.exists_eq_succ_of_ne_zero (by rintro rfl; omega)
  cases k with
  | zero => omega
  | succ k => omega

/-- When no end wraps, the layouts that cover their width are those with a power of two of
registered bytes, at least four. -/
theorem coversWidth_iff_powerOfTwo {a : Int × Obj} {adds : List (Int × Obj)}
    (h : lastEnd (a :: adds) < 2 ^ 64) :
    CoversWidth (addAll (a :: adds)) ↔ ∃ k, 2 ≤ k ∧ lastEnd (a :: adds) + 1 = 2 ^ k := by
  obtain ⟨hreach, last, hlast, hstop⟩ := ends_of_lt (List.cons_ne_nil a adds) h
  have hle := le_capacity last.stop
  have hfirst : 2 ^ (a.1 % 64).toNat - 1 ≤ lastEnd (a :: adds) := by
    simp [lastEnd]
  rw [CoversWidth, head?_addAll, hlast, hreach]
  simp only [Option.some.injEq, exists_and_left, exists_eq_left', hstop, UInt64.le_iff_toNat_le]
  rw [hstop] at hle
  constructor
  · rintro ⟨h2, hcap, hcut⟩
    have hpow := two_pow_log2 last.stop
    rcases Nat.lt_or_ge (lastEnd (a :: adds)) (capacity last.stop) with hlow | htop
    · refine ⟨log2 last.stop, ?_, by omega⟩
      by_contra hk
      have : 2 ^ log2 last.stop ≤ 2 ^ 1 := Nat.pow_le_pow_right (by decide) (by omega)
      omega
    · have hend := hcut.resolve_left (by omega)
      rw [toNat_shiftLeft_sub_one] at hend
      exact absurd (by omega) (two_pow_succ_ne (j := log2 last.stop)
        (k := (a.1 % 64).toNat) (by omega))
  · rintro ⟨k, hk, hpow⟩
    have h4 : 2 ^ 2 ≤ 2 ^ k := Nat.pow_le_pow_right (by decide) hk
    have hcap : capacity last.stop ≤ 2 ^ k := capacity_le_of_lt (by omega)
    have hne : 2 ^ log2 last.stop + 1 ≠ 2 ^ k := two_pow_succ_ne (by rw [two_pow_log2]; omega)
    rw [two_pow_log2] at hne
    exact ⟨by omega, by omega, .inl (by omega)⟩

/-! ### Tiling -/

/-- The bytes a region covers. -/
def Region.size (r : Region Obj) : ℕ := r.stop.toNat + 1 - r.start.toNat

/-- The registered regions start at zero, are disjoint, leave no gap, cover the bytes of the
objects they were added for, and `getRAMSize` is the sum of their sizes. -/
structure Tiles (adds : List (Int × Obj)) : Prop where
  start : ∀ r ∈ (addAll adds).head?, r.start = 0
  disjoint : (addAll adds).Pairwise fun r q =>
    ∀ address, ¬ (Region.holds r address = true ∧ Region.holds q address = true)
  gapless : ∀ address below : UInt64, below ≤ address →
    (∃ r ∈ addAll adds, Region.holds r address = true) →
      ∃ r ∈ addAll adds, Region.holds r below = true
  exact : List.Forall₂ (fun a r => 0 ≤ a.1 ∧ Region.size r = 2 ^ a.1.toNat) adds (addAll adds)
  ramSize : ∃ size, getRAMSize (addAll adds) = .ok size ∧
    size.toNat = ((addAll adds).map Region.size).sum

theorem length_addAll (adds : List (Int × Obj)) : (addAll adds).length = adds.length := by
  induction adds using List.reverseRecOn with
  | nil => rfl
  | append_singleton adds a ih =>
    rw [addAll_concat, add]
    split
    · next h =>
      rw [List.getLast?_eq_none_iff] at h
      simp [h] at ih
      simp [← ih]
    · simp [ih]

/-- The first region covers the bytes of its object, up to the masked shift count. -/
theorem size_first (a : Int × Obj) :
    Region.size ⟨0, (1 : UInt64) <<< UInt64.ofInt a.1 - 1, a.2⟩ = 2 ^ (a.1 % 64).toNat := by
  have hpos : 0 < 2 ^ (a.1 % 64).toNat := by positivity
  rw [Region.size, toNat_shiftLeft_sub_one, UInt64.toNat_zero]
  omega

/-- A later region does not cover the bytes of its object: it ends one byte early. -/
theorem size_later_ne (stop : UInt64) {a : Int × Obj} (h0 : 0 ≤ a.1) (h64 : a.1 < 64) :
    Region.size ⟨stop + 1, stop + (1 : UInt64) <<< UInt64.ofInt a.1 - 1, a.2⟩ ≠
      2 ^ a.1.toNat := by
  have hlt : 2 ^ a.1.toNat < 2 ^ 64 := Nat.pow_lt_pow_right (by decide) (by omega)
  have hpos : 0 < 2 ^ a.1.toNat := by positivity
  have hstop := stop.toNat_lt
  rw [Region.size, UInt64.toNat_sub, UInt64.toNat_add, UInt64.toNat_add, toNat_one_shiftLeft,
    UInt64.toNat_one, Int.emod_eq_of_lt h0 h64]
  omega

theorem Tiles.exists_of_mem {adds : List (Int × Obj)} (h : Tiles adds) {r : Region Obj}
    (hr : r ∈ addAll adds) : ∃ n : ℕ, Region.size r = 2 ^ n := by
  obtain ⟨i, hi, rfl⟩ := List.getElem_of_mem hr
  have hlen := h.exact.length_eq
  exact ⟨_, (h.exact.get (by omega) hi).2⟩

/-- **Only a single region tiles**, and only for an object of at most `2 ^ 63` bytes: a region
behind another one ends one byte early. -/
theorem tiles_iff (adds : List (Int × Obj)) :
    Tiles adds ↔ ∃ n obj, adds = [(n, obj)] ∧ 0 ≤ n ∧ n < 64 := by
  constructor
  · intro h
    rcases List.eq_nil_or_concat adds with rfl | ⟨init, a, rfl⟩
    · obtain ⟨size, hsize, -⟩ := h.ramSize
      cases hsize
    rw [List.concat_eq_append] at h
    by_cases hinit : init = []
    · subst hinit
      obtain ⟨h0, hsize⟩ := (List.forall₂_cons.mp h.exact).1
      rw [size_first] at hsize
      have := Nat.pow_right_injective (Nat.le_refl 2) hsize
      exact ⟨a.1, a.2, rfl, h0, by omega⟩
    · exfalso
      obtain ⟨last, hlast⟩ : ∃ last, (addAll init).getLast? = some last :=
        Option.isSome_iff_exists.mp (by simp [(laid_addAll hinit).nonempty])
      have hadd : addAll (init ++ [a]) = addAll init ++
          [⟨last.stop + 1, last.stop + (1 : UInt64) <<< UInt64.ofInt a.1 - 1, a.2⟩] := by
        rw [addAll_concat, add, hlast]
      set r : Region Obj :=
        ⟨last.stop + 1, last.stop + (1 : UInt64) <<< UInt64.ofInt a.1 - 1, a.2⟩ with hr
      have hexact : 0 ≤ a.1 ∧ Region.size r = 2 ^ a.1.toNat := by
        have hall := h.exact
        rw [hadd] at hall
        have hlater := List.forall₂_drop_append _ _ _ hall
        rw [length_addAll, List.drop_left] at hlater
        exact (List.forall₂_cons.mp hlater).1
      obtain ⟨h0, hsize⟩ := hexact
      rcases lt_or_ge a.1 64 with h64 | h64
      · exact size_later_ne last.stop h0 h64 hsize
      · -- The last region covers every address, and so meets the region before it.
        obtain ⟨n, hn⟩ := h.exists_of_mem (r := last)
          (by rw [hadd]; simp [List.mem_of_getLast? hlast])
        have hdisjoint := h.disjoint
        rw [hadd, List.pairwise_append] at hdisjoint
        have hpow : 2 ^ 64 ≤ 2 ^ a.1.toNat := Nat.pow_le_pow_right (by decide) (by omega)
        have hpos : 0 < 2 ^ n := by positivity
        have hlt := r.stop.toNat_lt
        have hlast' := last.stop.toNat_lt
        refine hdisjoint.2.2 last (List.mem_of_getLast? hlast) r (by simp) last.stop ?_
        rw [Region.holds_iff, Region.holds_iff]
        unfold Region.size at hn hsize
        omega
  · rintro ⟨n, obj, rfl, h0, h64⟩
    have hsize := size_first (n, obj)
    rw [Int.emod_eq_of_lt h0 h64] at hsize
    refine ⟨?_, ?_, ?_, ?_, ?_⟩
    · simp [addAll_singleton]
    · simp [addAll_singleton]
    · simp only [addAll_singleton, List.mem_singleton, exists_eq_left, Region.holds_iff,
        UInt64.le_iff_toNat_le]
      rintro address below hle ⟨-, hstop⟩
      exact ⟨by simp, hle.trans hstop⟩
    · exact .cons ⟨h0, hsize⟩ .nil
    · refine ⟨_, rfl, ?_⟩
      simp only [addAll_singleton, List.map_cons, List.map_nil, List.sum_singleton, hsize,
        List.getLast_singleton, UInt64.sub_add_cancel, toNat_one_shiftLeft,
        Int.emod_eq_of_lt h0 h64]

/-- Two memory objects of four bytes: the second region holds three. -/
theorem not_tiles_two_objects : ¬ Tiles [(2, ()), (2, ())] := by
  intro h
  obtain ⟨-, hsize⟩ := h.exact.get (i := 1) (by decide) (by decide)
  revert hsize
  decide

end PIMSim.MemorySelector
