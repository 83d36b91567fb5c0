import PIMSim.Memory.MemorySelector

/-!
# The spin lock

One lock bit for each page, kept in strings of 64 characters.

## Main definitions

* `SpinLock`, `create`: the lock table, and the table of the constructor
* `setlock`, `getLockState`, `releseLock`: the three operations
* `slot`: the string and the character of an address

## Main results

* `setlock_spec`, `releseLock_spec`: what the operations do to the state of every address
* `setlock_alike`, `setlock_returns`: they keep the shape of the table, which tells whether they
  return
-/

namespace PIMSim

open CSharp

/-- The lock table. A string of zeros and ones is the list of its characters' truth values. -/
structure SpinLock where
  size : UInt64
  pageIndex : UInt64
  lockTable : List (List Bool)
deriving DecidableEq

namespace SpinLock

variable {Obj : Type}

/-- `(Int64)x` -/
def toInt64 (x : UInt64) : Int := Int.bmod x.toNat (2 ^ 64)

/-- `(Int32)x` -/
def toInt32 (x : Int) : Int := Int.bmod x (2 ^ 32)

/-- The constructor: a string of 64 zeros for every 64 pages of the memory. The loop counts in 32
bits, and a list of more entries does not fit the memory. -/
def create (info : List (Region Obj)) (size : UInt64) : Outcome SpinLock := do
  let ram ← MemorySelector.getRAMSize info
  if size = 0 then
    .error .divideByZero
  let pageIndex := ram / size + 1
  if 2 ^ 31 ≤ toInt64 (pageIndex / 64) then
    .error .outOfMemory
  return {
    size := size
    pageIndex := pageIndex
    lockTable := List.replicate (toInt64 (pageIndex / 64)).toNat (List.replicate 64 false) }

/-- `addr_ / size` of the address cut to the layout. -/
def pageOf (info : List (Region Obj)) (size addr : UInt64) : Outcome UInt64 := do
  let addr_ ← MemorySelector.resize info addr
  if size = 0 then
    .error .divideByZero
  return addr_ / size

/-- The string and the character of an address, as `get_lock_state` and `relese_lock` find them. -/
def slot (info : List (Region Obj)) (size addr : UInt64) : Outcome (Int × Int) := do
  let index ← pageOf info size addr
  return (toInt32 (index / 64).toNat, toInt32 (index % 64).toNat)

/-- The string and the character of an address, as `setlock` finds them. -/
def setSlot (info : List (Region Obj)) (size addr : UInt64) : Outcome (Int × Int) := do
  let index ← pageOf info size addr
  let indexAll := toInt64 index
  return (toInt32 (indexAll.tdiv 64), toInt32 (indexAll.tmod 64))

/-- The bit at a string and a character. -/
def getbit (s : SpinLock) (i j : Int) : Outcome Bool := do
  let data ← listAt s.lockTable i
  arrayAt data j

/-- A bit is set. -/
def setbit (s : SpinLock) (i j : Int) (lock : Bool) : Outcome SpinLock := do
  let data ← listAt s.lockTable i
  let _ ← arrayAt data j
  return { s with lockTable := s.lockTable.set i.toNat (data.set j.toNat lock) }

def setlock (info : List (Region Obj)) (s : SpinLock) (addr : UInt64) : Outcome SpinLock := do
  let (index, mod) ← setSlot info s.size addr
  setbit s index mod true

def getLockState (info : List (Region Obj)) (s : SpinLock) (addr : UInt64) : Outcome Bool := do
  let (i, j) ← slot info s.size addr
  getbit s i j

def releseLock (info : List (Region Obj)) (s : SpinLock) (addr : UInt64) : Outcome SpinLock := do
  let (i, j) ← slot info s.size addr
  setbit s i j false

/-! ### What the operations do -/

theorem size_create {info : List (Region Obj)} {size : UInt64} {s : SpinLock}
    (h : create info size = .ok s) : s.size = size := by
  obtain ⟨ram, -, h⟩ := Outcome.bind_eq_ok.mp h
  by_cases h0 : size = 0
  · rw [if_pos h0] at h
    cases h
  rw [if_neg h0] at h
  dsimp only at h
  by_cases hbig : 2 ^ 31 ≤ toInt64 ((ram / size + 1) / 64)
  · rw [if_pos hbig] at h
    exact nomatch h
  · rw [if_neg hbig] at h
    exact congrArg SpinLock.size (Except.ok.inj h).symm

theorem getbit_eq_ok {s : SpinLock} {i j : Int} {b : Bool} :
    getbit s i j = .ok b ↔ 0 ≤ i ∧ 0 ≤ j ∧ ∃ data, s.lockTable[i.toNat]? = some data ∧
      data[j.toNat]? = some b := by
  simp only [getbit, Outcome.bind_eq_ok, listAt_eq_ok, arrayAt_eq_ok]
  constructor
  · rintro ⟨data, ⟨hi, hdata⟩, hj, hb⟩
    exact ⟨hi, hj, data, hdata, hb⟩
  · rintro ⟨hi, hj, data, hdata, hb⟩
    exact ⟨data, ⟨hi, hdata⟩, hj, hb⟩

theorem setbit_eq_ok {s s' : SpinLock} {i j : Int} {b : Bool} (h : setbit s i j b = .ok s') :
    0 ≤ i ∧ 0 ≤ j ∧ ∃ data, s.lockTable[i.toNat]? = some data ∧ j.toNat < data.length ∧
      s' = { s with lockTable := s.lockTable.set i.toNat (data.set j.toNat b) } := by
  simp only [setbit, Outcome.bind_eq_ok, listAt_eq_ok, arrayAt_eq_ok] at h
  obtain ⟨data, ⟨hi, hdata⟩, _, ⟨hj, hb⟩, hs'⟩ := h
  cases hs'
  exact ⟨hi, hj, data, hdata, (List.getElem?_eq_some_iff.mp hb).1, rfl⟩

/-- Setting a bit changes that bit and no other. -/
theorem getbit_setbit {s s' : SpinLock} {i j : Int} {b : Bool} (h : setbit s i j b = .ok s')
    (i' j' : Int) : getbit s' i' j' = if i' = i ∧ j' = j then .ok b else getbit s i' j' := by
  obtain ⟨hi, hj, data, hdata, hlt, rfl⟩ := setbit_eq_ok h
  obtain ⟨hrow, -⟩ := List.getElem?_eq_some_iff.mp hdata
  by_cases hi' : i' = i
  · subst hi'
    have hnew : listAt (s.lockTable.set i'.toNat (data.set j.toNat b)) i' =
        .ok (data.set j.toNat b) := listAt_eq_ok.mpr ⟨hi, by simp [hrow]⟩
    have hold : listAt s.lockTable i' = .ok data := listAt_eq_ok.mpr ⟨hi, hdata⟩
    simp only [getbit, hnew, hold, Outcome.ok_bind, true_and]
    split_ifs with hj'
    · subst hj'
      exact arrayAt_eq_ok.mpr ⟨hj, by simp [hlt]⟩
    · unfold arrayAt
      split_ifs with hneg
      · rfl
      · rw [List.getElem?_set_ne (by omega)]
  · rw [if_neg (fun hc => hi' hc.1)]
    unfold getbit listAt
    split_ifs with hneg
    · rfl
    · rw [List.getElem?_set_ne (by omega)]

theorem bmod_two_pow_64 {n : ℕ} (hlt : n < 18446744073709551616) : Int.bmod n (2 ^ 64) =
    if n < 9223372036854775808 then (n : Int) else n - 18446744073709551616 := by
  have hm : ((2 ^ 64 : ℕ) : Int) = 18446744073709551616 := by norm_num
  rw [Int.bmod_def, hm]
  split_ifs <;> omega

theorem toInt64_eq (x : UInt64) : toInt64 x =
    if x.toNat < 9223372036854775808 then (x.toNat : Int) else x.toNat - 18446744073709551616 :=
  bmod_two_pow_64 (by simpa using x.toNat_lt)

theorem toInt32_eq_of_bounds {x : Int} (h : -64 < x) (h' : x < 64) : toInt32 x = x := by
  have hm : ((2 ^ 32 : ℕ) : Int) = 4294967296 := by norm_num
  rw [toInt32, Int.bmod_def, hm]
  omega

/-- A page index that turned negative keeps its string and its character, when the character is
one. -/
theorem toInt32_tdiv_of_wrap {n : Int} (hj : 0 ≤ (n - 18446744073709551616).tmod 64) (h : 0 ≤ n)
    (hlt : n < 18446744073709551616) :
    toInt32 ((n - 18446744073709551616).tdiv 64) = toInt32 (n / 64) ∧
      (n - 18446744073709551616).tmod 64 = n % 64 := by
  have hm : ((2 ^ 32 : ℕ) : Int) = 4294967296 := by norm_num
  rw [Int.tmod_eq_emod] at hj
  have hdvd : (64 : Int) ∣ n - 18446744073709551616 := by
    by_contra hc
    rw [if_neg (by omega)] at hj
    omega
  rw [Int.tdiv_eq_ediv, Int.tmod_eq_emod, if_pos (.inr hdvd), if_pos (.inr hdvd)]
  simp only [toInt32, Int.bmod_def, hm]
  omega

/-- Where `setlock` finds the bit of an address, the other operations find it too. -/
theorem slot_of_setSlot {info : List (Region Obj)} {size addr : UInt64} {i j : Int}
    (h : setSlot info size addr = .ok (i, j)) (hj : 0 ≤ j) :
    slot info size addr = .ok (i, j) := by
  simp only [setSlot, slot, Outcome.bind_eq_ok] at h ⊢
  obtain ⟨index, hindex, hij⟩ := h
  refine ⟨index, hindex, ?_⟩
  obtain ⟨rfl, rfl⟩ := Prod.mk.inj (Except.ok.inj hij)
  have hlt := index.toNat_lt
  have hdiv : ((index / 64).toNat : Int) = (index.toNat : Int) / 64 := by simp
  have hmod : ((index % 64).toNat : Int) = (index.toNat : Int) % 64 := by simp
  have hlow := Int.tmod_lt_of_pos (toInt64 index) (by decide : (0 : Int) < 64)
  have hhigh := Int.lt_tmod_of_pos (toInt64 index) (by decide : (0 : Int) < 64)
  rw [toInt32_eq_of_bounds hhigh hlow] at hj ⊢
  have hchar : toInt32 ((index.toNat : Int) % 64) = (index.toNat : Int) % 64 :=
    toInt32_eq_of_bounds (by omega) (by omega)
  rw [hdiv, hmod, hchar]
  have hij : toInt32 ((toInt64 index).tdiv 64) = toInt32 ((index.toNat : Int) / 64) ∧
      (toInt64 index).tmod 64 = (index.toNat : Int) % 64 := by
    rw [toInt64_eq] at hj ⊢
    split_ifs at hj ⊢ with hneg
    · rw [Int.tdiv_eq_ediv_of_nonneg (by omega), Int.tmod_eq_emod_of_nonneg (by omega)]
      exact ⟨rfl, rfl⟩
    · exact toInt32_tdiv_of_wrap hj (by omega) (by simpa using hlt)
  rw [hij.1, hij.2]
  rfl

/-- What `setlock` does: the address is locked, and so are the addresses of its slot. -/
theorem setlock_spec {info : List (Region Obj)} {s s' : SpinLock} {addr : UInt64}
    (h : setlock info s addr = .ok s') : s'.size = s.size ∧ ∃ p, slot info s.size addr = .ok p ∧
      ∀ other, getLockState info s' other =
        if slot info s.size other = .ok p then .ok true else getLockState info s other := by
  simp only [setlock, Outcome.bind_eq_ok] at h
  obtain ⟨⟨i, j⟩, hslot, hset⟩ := h
  have hsize : s'.size = s.size := by
    obtain ⟨-, -, -, -, -, rfl⟩ := setbit_eq_ok hset
    rfl
  refine ⟨hsize, (i, j), slot_of_setSlot hslot (setbit_eq_ok hset).2.1, fun other => ?_⟩
  simp only [getLockState, hsize]
  cases hother : slot info s.size other with
  | error e => simp
  | ok p =>
    obtain ⟨i', j'⟩ := p
    simp only [Outcome.ok_bind, getbit_setbit hset, Except.ok.injEq, Prod.mk.injEq]

/-- What `relese_lock` does: the address is free, and so are the addresses of its slot. -/
theorem releseLock_spec {info : List (Region Obj)} {s s' : SpinLock} {addr : UInt64}
    (h : releseLock info s addr = .ok s') : s'.size = s.size ∧ ∃ p, slot info s.size addr = .ok p ∧
      ∀ other, getLockState info s' other =
        if slot info s.size other = .ok p then .ok false else getLockState info s other := by
  simp only [releseLock, Outcome.bind_eq_ok] at h
  obtain ⟨⟨i, j⟩, hslot, hset⟩ := h
  have hsize : s'.size = s.size := by
    obtain ⟨-, -, -, -, -, rfl⟩ := setbit_eq_ok hset
    rfl
  refine ⟨hsize, (i, j), hslot, fun other => ?_⟩
  simp only [getLockState, hsize]
  cases hother : slot info s.size other with
  | error e => simp
  | ok p =>
    obtain ⟨i', j'⟩ := p
    simp only [Outcome.ok_bind, getbit_setbit hset, Except.ok.injEq, Prod.mk.injEq]

/-- An address and the address it is cut to have one slot. -/
theorem slot_resize {info : List (Region Obj)} {addr res : UInt64}
    (h : MemorySelector.resize info addr = .ok res) (size : UInt64) :
    slot info size res = slot info size addr := by
  simp only [slot, pageOf, h, MemorySelector.resize_idem h]

/-- Addresses of one slot are in one state. -/
theorem getLockState_congr {info : List (Region Obj)} {s : SpinLock} {addr other : UInt64}
    (h : slot info s.size addr = slot info s.size other) :
    getLockState info s addr = getLockState info s other := by
  simp only [getLockState, h]

/-! ### The shape of the table -/

/-- Two tables have pages of one size, and strings of the same lengths. -/
def Alike (s s' : SpinLock) : Prop :=
  s'.size = s.size ∧ s'.lockTable.map List.length = s.lockTable.map List.length

theorem Alike.symm {s s' : SpinLock} (h : Alike s s') : Alike s' s := ⟨h.1.symm, h.2.symm⟩

theorem Alike.trans {s s' s'' : SpinLock} (h : Alike s s') (h' : Alike s' s'') : Alike s s'' :=
  ⟨h'.1.trans h.1, h'.2.trans h.2⟩

theorem setbit_alike {s s' : SpinLock} {i j : Int} {b : Bool} (h : setbit s i j b = .ok s') :
    Alike s s' := by
  obtain ⟨-, -, data, hdata, -, rfl⟩ := setbit_eq_ok h
  refine ⟨rfl, ?_⟩
  obtain ⟨hlt, hget⟩ := List.getElem?_eq_some_iff.mp hdata
  rw [List.map_set, List.length_set, ← hget]
  apply List.ext_getElem
  · simp
  · intro k hk hk'
    by_cases hki : i.toNat = k <;> simp [hki]

theorem setlock_alike {info : List (Region Obj)} {s s' : SpinLock} {addr : UInt64}
    (h : setlock info s addr = .ok s') : Alike s s' := by
  obtain ⟨⟨i, j⟩, -, hset⟩ := Outcome.bind_eq_ok.mp h
  exact setbit_alike hset

theorem releseLock_alike {info : List (Region Obj)} {s s' : SpinLock} {addr : UInt64}
    (h : releseLock info s addr = .ok s') : Alike s s' := by
  obtain ⟨⟨i, j⟩, -, hset⟩ := Outcome.bind_eq_ok.mp h
  exact setbit_alike hset

/-- Whether a bit can be set depends on the shape of the table only. -/
theorem setbit_returns {s s' : SpinLock} (h : Alike s s') {i j : Int} {b b' : Bool}
    (hs : ∃ t, setbit s i j b = .ok t) : ∃ t, setbit s' i j b' = .ok t := by
  obtain ⟨t, ht⟩ := hs
  obtain ⟨hi, hj, data, hdata, hlt, -⟩ := setbit_eq_ok ht
  have hlen : s'.lockTable[i.toNat]?.map List.length = some data.length := by
    rw [← List.getElem?_map, h.2, List.getElem?_map, hdata]
    rfl
  obtain ⟨data', hdata', hlen'⟩ := Option.map_eq_some_iff.mp hlen
  have hat : listAt s'.lockTable i = .ok data' := listAt_eq_ok.mpr ⟨hi, hdata'⟩
  have hbit : ∃ x, data'[j.toNat]? = some x := ⟨_, List.getElem?_eq_getElem (by omega)⟩
  obtain ⟨x, hx⟩ := hbit
  have hchar : arrayAt data' j = .ok x := arrayAt_eq_ok.mpr ⟨hj, hx⟩
  simp [setbit, hat, hchar]

theorem setlock_returns {info : List (Region Obj)} {s s' : SpinLock} (h : Alike s s')
    {addr : UInt64} (hs : ∃ t, setlock info s addr = .ok t) : ∃ t, setlock info s' addr = .ok t := by
  obtain ⟨t, ht⟩ := hs
  obtain ⟨⟨i, j⟩, hslot, hset⟩ := Outcome.bind_eq_ok.mp ht
  obtain ⟨t', ht'⟩ := setbit_returns h ⟨t, hset⟩
  refine ⟨t', Outcome.bind_eq_ok.mpr ⟨(i, j), ?_, ht'⟩⟩
  rw [h.1]
  exact hslot

/-- A lock that was set can be handed back. -/
theorem releseLock_of_setlock {info : List (Region Obj)} {s s' : SpinLock} {addr : UInt64}
    (h : setlock info s addr = .ok s') : ∃ t, releseLock info s' addr = .ok t := by
  have halike := setlock_alike h
  obtain ⟨⟨i, j⟩, hslot, hset⟩ := Outcome.bind_eq_ok.mp h
  obtain ⟨t, ht⟩ := setbit_returns halike ⟨s', hset⟩
  refine ⟨t, Outcome.bind_eq_ok.mpr ⟨(i, j), ?_, ht⟩⟩
  rw [halike.1]
  exact slot_of_setSlot hslot (setbit_eq_ok hset).2.1

/-- A lock can be set only where the address is cut to the layout. -/
theorem resize_of_setlock {info : List (Region Obj)} {s s' : SpinLock} {addr : UInt64}
    (h : setlock info s addr = .ok s') : ∃ res, MemorySelector.resize info addr = .ok res := by
  simp only [setlock, setSlot, pageOf, Outcome.bind_eq_ok] at h
  obtain ⟨_, ⟨_, ⟨res, hres, -⟩, -⟩, -⟩ := h
  exact ⟨res, hres⟩

theorem resize_of_getLockState {info : List (Region Obj)} {s : SpinLock} {addr : UInt64} {b : Bool}
    (h : getLockState info s addr = .ok b) :
    ∃ res, MemorySelector.resize info addr = .ok res := by
  simp only [getLockState, slot, pageOf, Outcome.bind_eq_ok] at h
  obtain ⟨_, ⟨_, ⟨res, hres, -⟩, -⟩, -⟩ := h
  exact ⟨res, hres⟩

/-- The lock table of `oneObject` with no page locked. -/
def freeLock : SpinLock := ⟨4096, 257, List.replicate 4 (List.replicate 64 false)⟩

theorem create_oneObject : create oneObject 4096 = .ok freeLock := by decide +kernel

end SpinLock

end PIMSim
