import PIMSim.Library.Run
import PIMSim.PIM.SpinLock

/-!
# The size of the lock table

The constructor of the spin lock counts its strings by a floored division of the memory size, while
the operations find the string of an address from the address cut to the layout. The table has a bit
for every address when the last page of the width addresses are cut to has a string.

## Main definitions

* `LockOp`, `operate`: the operations that change the table
* `Locks`: one address is locked and released without a change for other pages
* `CoversAddresses`: so is every address, in every state the table comes to
* `entries`, `Fits`: the number of strings, and the layouts whose last page has one

## Main results

* `create_eq_ok`: when the constructor returns, and with what
* `slot_of_pageOf`: the string and the character are the quotient and the remainder of the page
* `coversAddresses_iff_fits`: the layouts with a bit for every address
-/

namespace PIMSim.SpinLock

open CSharp Transition MemorySelector

variable {Obj : Type} {info : List (Region Obj)} {size addr : UInt64} {s s' : SpinLock} {n : ℕ}

/-- An operation that changes the table. -/
inductive LockOp
  | setlock (addr : UInt64)
  | releseLock (addr : UInt64)

def operate (info : List (Region Obj)) (s : SpinLock) : LockOp → Outcome SpinLock
  | .setlock addr => setlock info s addr
  | .releseLock addr => releseLock info s addr

/-- The operation returns, leaves the address in the state `b`, and changes no other page. -/
def Leaves (info : List (Region Obj)) (s : SpinLock) (addr : UInt64) (b : Bool)
    (operation : Outcome SpinLock) : Prop :=
  ∃ s', operation = .ok s' ∧ getLockState info s' addr = .ok b ∧
    ∀ other, pageOf info s.size other ≠ pageOf info s.size addr →
      getLockState info s' other = getLockState info s other

/-- **The address is locked and released**, without a change for other pages. -/
structure Locks (info : List (Region Obj)) (s : SpinLock) (addr : UInt64) : Prop where
  state : ∃ b, getLockState info s addr = .ok b
  setlock : Leaves info s addr true (setlock info s addr)
  releseLock : Leaves info s addr false (releseLock info s addr)

/-- **The table covers every address** from its construction on, after any operations. -/
def CoversAddresses (info : List (Region Obj)) (size : UInt64) : Prop :=
  ∃ lock, create info size = .ok lock ∧
    ∀ ops, ∃ s, exec (operate info) lock ops = .ok s ∧ ∀ addr, Locks info s addr

/-- The strings of the table when the layout ends at `last`. -/
def entries (last size : UInt64) : ℕ := (((last + 1) / size + 1) / 64).toNat

/-- **The last page has a string**: addresses are cut, pages are counted, and the page of the last
address below the width falls into the strings of the table. -/
def Fits (info : List (Region Obj)) (size : UInt64) : Prop :=
  ∃ last, info.getLast? = some last ∧ 2 ≤ last.stop.toNat ∧ size ≠ 0 ∧
    entries last.stop size < 2 ^ 31 ∧
    (capacity last.stop - 1) / size.toNat / 64 < entries last.stop size

theorem toInt64_entries (last size : UInt64) :
    toInt64 (((last + 1) / size + 1) / 64) = entries last size := by
  have hlt := ((last + 1) / size + 1).toNat_lt
  have hdiv : (((last + 1) / size + 1) / 64).toNat = ((last + 1) / size + 1).toNat / 64 := by simp
  rw [toInt64_eq, entries, if_pos (by omega)]

/-- The constructor returns when pages are counted and the strings fit the memory. -/
theorem create_eq_ok : create info size = .ok s ↔ ∃ last, info.getLast? = some last ∧ size ≠ 0 ∧
    entries last.stop size < 2 ^ 31 ∧
      s = ⟨size, (last.stop + 1) / size + 1,
        List.replicate (entries last.stop size) (List.replicate 64 false)⟩ := by
  unfold create getRAMSize
  cases hlast : info.getLast? with
  | none => simp
  | some last =>
    simp only [Outcome.ok_bind, toInt64_entries, Option.some.injEq, exists_eq_left']
    by_cases h0 : size = 0
    · simp [h0]
    · have hbig : (2 : Int) ^ 31 ≤ entries last.stop size ↔ 2 ^ 31 ≤ entries last.stop size := by
        omega
      rw [if_neg h0]
      by_cases hlt : entries last.stop size < 2 ^ 31
      · rw [if_neg (by omega)]
        constructor
        · intro h
          exact ⟨h0, hlt, (Except.ok.inj h).symm⟩
        · rintro ⟨-, -, rfl⟩
          rfl
      · rw [if_pos (by omega)]
        exact iff_of_false (fun h => nomatch h) fun h => hlt h.2.1

theorem toInt32_natCast (h : n < 2 ^ 31) : toInt32 (n : Int) = n := by
  have hm : ((2 ^ 32 : ℕ) : Int) = 4294967296 := by norm_num
  rw [toInt32, Int.bmod_def, hm]
  omega

/-- The page of an address of a layout that ends at two or above. -/
theorem pageOf_eq {last : Region Obj} (hlast : info.getLast? = some last)
    (h2 : 2 ≤ last.stop.toNat) (h0 : size ≠ 0) (addr : UInt64) :
    ∃ p : UInt64, pageOf info size addr = .ok p ∧
      p.toNat = addr.toNat % capacity last.stop / size.toNat := by
  have hres : ∃ res, resize info addr = .ok res := by
    rw [resize_eq hlast, if_neg (by omega)]
    exact ⟨_, rfl⟩
  obtain ⟨res, hres⟩ := hres
  refine ⟨res / size, ?_, ?_⟩
  · rw [pageOf, hres, Outcome.ok_bind, if_neg h0]
    rfl
  · rw [UInt64.toNat_div, ((resize_eq_ok hlast).mp hres).2]

/-- **The string and the character** of an address are the quotient and the remainder of its page,
when the quotient is a 32-bit number; all operations find the same ones. -/
theorem slot_of_pageOf {p : UInt64} (h : pageOf info size addr = .ok p)
    (hlt : p.toNat / 64 < 2 ^ 31) :
    slot info size addr = .ok (((p.toNat / 64 : ℕ) : Int), ((p.toNat % 64 : ℕ) : Int)) ∧
      setSlot info size addr = .ok (((p.toNat / 64 : ℕ) : Int), ((p.toNat % 64 : ℕ) : Int)) := by
  have hdiv : (p / 64).toNat = p.toNat / 64 := by simp
  have hmod : (p % 64).toNat = p.toNat % 64 := by simp
  have hchar : toInt32 ((p.toNat % 64 : ℕ) : Int) = (p.toNat % 64 : ℕ) :=
    toInt32_natCast (by omega)
  constructor
  · rw [slot, h, Outcome.ok_bind, hdiv, hmod, toInt32_natCast hlt, hchar]
    rfl
  · have hint : toInt64 p = (p.toNat : Int) := by
      rw [toInt64_eq, if_pos (by omega)]
    have htdiv : (p.toNat : Int).tdiv 64 = (p.toNat / 64 : ℕ) := by
      rw [Int.tdiv_eq_ediv_of_nonneg (by omega)]
      rfl
    have htmod : (p.toNat : Int).tmod 64 = (p.toNat % 64 : ℕ) := by
      rw [Int.tmod_eq_emod_of_nonneg (by omega)]
      rfl
    rw [setSlot, h, Outcome.ok_bind]
    dsimp only
    rw [hint, htdiv, htmod, toInt32_natCast hlt, hchar]
    rfl

/-! ### Tables of one shape -/

/-- A table of `n` strings of 64 characters. -/
def Shaped (size : UInt64) (n : ℕ) (s : SpinLock) : Prop :=
  s.size = size ∧ s.lockTable.map List.length = List.replicate n 64

theorem Shaped.alike (h : Shaped size n s) (halike : Alike s s') : Shaped size n s' :=
  ⟨halike.1.trans h.1, halike.2.trans h.2⟩

theorem shaped_create {last : Region Obj} (hlast : info.getLast? = some last)
    (h : create info size = .ok s) : Shaped size (entries last.stop size) s := by
  obtain ⟨last', hlast', -, -, rfl⟩ := create_eq_ok.mp h
  obtain rfl : last = last' := Option.some.inj (hlast.symm.trans hlast')
  refine ⟨rfl, ?_⟩
  rw [List.map_replicate, List.length_replicate]

theorem Shaped.exists_row (h : Shaped size n s) {i : ℕ} (hi : i < n) :
    ∃ data, s.lockTable[i]? = some data ∧ data.length = 64 := by
  have hlength : s.lockTable[i]?.map List.length = some 64 := by
    rw [← List.getElem?_map, h.2, List.getElem?_replicate, if_pos hi]
  exact Option.map_eq_some_iff.mp hlength

/-- The bits of a string of the table can be read. -/
theorem Shaped.getbit (h : Shaped size n s) {i j : ℕ} (hi : i < n) (hj : j < 64) :
    ∃ b, getbit s i j = .ok b := by
  obtain ⟨data, hdata, hlen⟩ := h.exists_row hi
  have hat : data[j]? = some (data.get ⟨j, by omega⟩) := List.getElem?_eq_getElem (by omega)
  exact ⟨_, getbit_eq_ok.mpr ⟨by omega, by omega, data, hdata, hat⟩⟩

/-- The bits of a string of the table can be set. -/
theorem Shaped.setbit (h : Shaped size n s) {i j : ℕ} (hi : i < n) (hj : j < 64) (b : Bool) :
    ∃ s', setbit s i j b = .ok s' := by
  obtain ⟨data, hdata, hlen⟩ := h.exists_row hi
  have hrow : listAt s.lockTable i = .ok data := listAt_eq_ok.mpr ⟨by omega, hdata⟩
  have hat : data[j]? = some (data.get ⟨j, by omega⟩) := List.getElem?_eq_getElem (by omega)
  have hchar : arrayAt data j = .ok (data.get ⟨j, by omega⟩) := arrayAt_eq_ok.mpr ⟨by omega, hat⟩
  rw [SpinLock.setbit, hrow, Outcome.ok_bind, hchar, Outcome.ok_bind]
  exact ⟨_, rfl⟩

/-! ### Layouts that fit -/

/-- The slot of an address in a layout that fits. -/
theorem Fits.exists_slot (h : Fits info size) (addr : UInt64) :
    ∃ last p, info.getLast? = some last ∧ pageOf info size addr = .ok p ∧
      p.toNat / 64 < entries last.stop size ∧
      slot info size addr = .ok (((p.toNat / 64 : ℕ) : Int), ((p.toNat % 64 : ℕ) : Int)) ∧
      setSlot info size addr = .ok (((p.toNat / 64 : ℕ) : Int), ((p.toNat % 64 : ℕ) : Int)) := by
  obtain ⟨last, hlast, h2, h0, hcount, hfits⟩ := h
  obtain ⟨p, hp, hpage⟩ := pageOf_eq hlast h2 h0 addr
  have hmod := Nat.mod_lt addr.toNat (capacity_pos last.stop)
  have hle : p.toNat / 64 ≤ (capacity last.stop - 1) / size.toNat / 64 := by
    rw [hpage]
    apply Nat.div_le_div_right
    exact Nat.div_le_div_right (by omega)
  exact ⟨last, p, hlast, hp, by omega, slot_of_pageOf hp (by omega)⟩

/-- Addresses of one slot are of one page. -/
theorem Fits.page_of_slot (h : Fits info size) {other : UInt64}
    (hslot : slot info size other = slot info size addr) :
    pageOf info size other = pageOf info size addr := by
  obtain ⟨-, p, -, hp, -, hps, -⟩ := h.exists_slot addr
  obtain ⟨-, q, -, hq, -, hqs, -⟩ := h.exists_slot other
  rw [hps, hqs] at hslot
  obtain ⟨hdiv, hmod⟩ := Prod.mk.inj (Except.ok.inj hslot)
  have hpq : q = p := UInt64.toNat_inj.mp (by omega)
  rw [hp, hq, hpq]

/-- What an operation does that finds its bit. -/
theorem Fits.leaves (h : Fits info size) (hsize : s.size = size) {b : Bool}
    {operation : Outcome SpinLock} (hop : operation = .ok s')
    (hspec : s'.size = s.size ∧ ∃ p, slot info s.size addr = .ok p ∧
      ∀ other, getLockState info s' other =
        if slot info s.size other = .ok p then .ok b else getLockState info s other) :
    Leaves info s addr b operation := by
  obtain ⟨-, p, hslot, hstate⟩ := hspec
  refine ⟨s', hop, ?_, fun other hne => ?_⟩
  · rw [hstate, if_pos hslot]
  · rw [hstate, if_neg]
    intro hother
    rw [hsize] at hne hslot hother
    exact hne (h.page_of_slot (hother.trans hslot.symm))

/-- **Every address is locked and released** by a table of the shape the constructor made. -/
theorem Fits.locks (h : Fits info size) {last : Region Obj} (hlast : info.getLast? = some last)
    (hs : Shaped size (entries last.stop size) s) (addr : UInt64) : Locks info s addr := by
  obtain ⟨last', p, hlast', hp, hlt, hslot, hset⟩ := h.exists_slot addr
  obtain rfl : last = last' := Option.some.inj (hlast.symm.trans hlast')
  have hmod : p.toNat % 64 < 64 := Nat.mod_lt _ (by decide)
  rw [← hs.1] at hslot hset
  refine ⟨?_, ?_, ?_⟩
  · obtain ⟨b, hb⟩ := hs.getbit hlt hmod
    refine ⟨b, ?_⟩
    rw [getLockState, hslot, Outcome.ok_bind]
    exact hb
  · obtain ⟨s', hs'⟩ := hs.setbit hlt hmod true
    have hop : setlock info s addr = .ok s' := by
      rw [setlock, hset, Outcome.ok_bind]
      exact hs'
    exact h.leaves hs.1 hop (setlock_spec hop)
  · obtain ⟨s', hs'⟩ := hs.setbit hlt hmod false
    have hop : releseLock info s addr = .ok s' := by
      rw [releseLock, hslot, Outcome.ok_bind]
      exact hs'
    exact h.leaves hs.1 hop (releseLock_spec hop)

theorem operate_alike {op : LockOp} (h : operate info s op = .ok s') : Alike s s' := by
  cases op with
  | setlock addr => exact setlock_alike h
  | releseLock addr => exact releseLock_alike h

/-- The operations go on for ever, and keep the shape. -/
theorem Fits.exec (h : Fits info size) {last : Region Obj} (hlast : info.getLast? = some last)
    (hs : Shaped size (entries last.stop size) s) (ops : List LockOp) :
    ∃ t, exec (operate info) s ops = .ok t ∧ Shaped size (entries last.stop size) t := by
  induction ops generalizing s with
  | nil => exact ⟨s, rfl, hs⟩
  | cons op ops ih =>
    have hop : ∃ s', operate info s op = .ok s' := by
      cases op with
      | setlock addr =>
        obtain ⟨s', hs', -⟩ := (h.locks hlast hs addr).setlock
        exact ⟨s', hs'⟩
      | releseLock addr =>
        obtain ⟨s', hs', -⟩ := (h.locks hlast hs addr).releseLock
        exact ⟨s', hs'⟩
    obtain ⟨s', hs'⟩ := hop
    obtain ⟨t, ht, hshape⟩ := ih (hs.alike (operate_alike hs'))
    exact ⟨t, exec_cons_eq_ok.mpr ⟨s', hs', ht⟩, hshape⟩

/-- A table that covers every address fits: otherwise the first page behind its strings is the page
of an address. -/
theorem CoversAddresses.fits (h : CoversAddresses info size) : Fits info size := by
  obtain ⟨lock, hcreate, hops⟩ := h
  obtain ⟨s, hs, hlocks⟩ := hops []
  cases hs
  obtain ⟨last, hlast, h0, hcount, hlock⟩ := create_eq_ok.mp hcreate
  have h2 : 2 ≤ last.stop.toNat := by
    obtain ⟨b, hb⟩ := (hlocks 0).state
    obtain ⟨res, hres⟩ := resize_of_getLockState hb
    exact ((resize_eq_ok hlast).mp hres).1
  refine ⟨last, hlast, h2, h0, hcount, ?_⟩
  by_contra hgap
  have hsize : 0 < size.toNat := by
    have := mt UInt64.toNat_inj.mp h0
    simp only [UInt64.toNat_zero] at this
    omega
  have hpow := capacity_le last.stop
  have hbelow : entries last.stop size * 64 * size.toNat ≤ capacity last.stop - 1 := by
    rw [← Nat.le_div_iff_mul_le hsize]
    omega
  have hcap := capacity_pos last.stop
  -- The address of the first page without a string.
  have hlt : entries last.stop size * 64 * size.toNat < 2 ^ 64 := by omega
  have haddr : (UInt64.ofNat (entries last.stop size * 64 * size.toNat)).toNat =
      entries last.stop size * 64 * size.toNat := UInt64.toNat_ofNat_of_lt' hlt
  obtain ⟨p, hp, hpage⟩ := pageOf_eq hlast h2 h0
    (UInt64.ofNat (entries last.stop size * 64 * size.toNat))
  rw [haddr, Nat.mod_eq_of_lt (by omega), Nat.mul_div_cancel _ hsize] at hpage
  obtain ⟨b, hb⟩ := (hlocks (UInt64.ofNat (entries last.stop size * 64 * size.toNat))).state
  have hslot := (slot_of_pageOf hp (by omega)).1
  rw [getLockState, hlock, hslot, Outcome.ok_bind] at hb
  obtain ⟨-, -, data, hrow, -⟩ := getbit_eq_ok.mp hb
  have hend := (List.getElem?_eq_some_iff.mp hrow).1
  rw [List.length_replicate, Int.toNat_natCast] at hend
  omega

/-- **The layouts with a bit for every address** are those whose last page has a string. -/
theorem coversAddresses_iff_fits (adds : List (Int × Obj)) (size : UInt64) :
    CoversAddresses (addAll adds) size ↔ Fits (addAll adds) size := by
  refine ⟨CoversAddresses.fits, fun h => ?_⟩
  have ⟨last, hlast, _, h0, hcount, _⟩ := h
  obtain ⟨lock, hlock⟩ : ∃ lock, create (addAll adds) size = .ok lock :=
    ⟨_, create_eq_ok.mpr ⟨last, hlast, h0, hcount, rfl⟩⟩
  refine ⟨lock, hlock, fun ops => ?_⟩
  obtain ⟨t, ht, hshape⟩ := h.exec hlast (shaped_create hlast hlock) ops
  exact ⟨t, ht, fun addr => h.locks hlast hshape addr⟩

/-- Three memory objects of `2 ^ 20` bytes: the table has no string for the page 768. -/
theorem not_coversAddresses_three_objects :
    ¬ CoversAddresses (addAll [(20, ()), (20, ()), (20, ())]) 4096 := by
  rintro ⟨lock, hlock, hops⟩
  obtain ⟨s, hs, hlocks⟩ := hops []
  cases hs
  obtain ⟨b, hb⟩ := (hlocks 3145728).state
  have hstuck : (create (addAll [(20, ()), (20, ()), (20, ())]) 4096).map (fun lock =>
      getLockState (addAll [(20, ()), (20, ()), (20, ())]) lock 3145728) =
        .ok (.error .argumentOutOfRange) := by decide +kernel
  rw [hlock] at hstuck
  exact absurd (hb.symm.trans (Except.ok.inj hstuck)) (by simp)

end PIMSim.SpinLock
