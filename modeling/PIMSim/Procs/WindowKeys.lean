import PIMSim.Procs.InstructionWindow

/-!
# The keys of the window searches

`if_exist` compares the addresses of the queued instructions with a block address, `set_ready` and
`get_readyinfo` their block addresses.

## Main definitions

* `InstructionWindow.KeysAgree`: the searches find a block in the same cases
* `InstructionWindow.SameKeys`: the addresses of the memory instructions are their block addresses
* `InstructionWindow.merge`: an instruction joins the instructions of its block

## Main results

* `setReady_reports`: a block is reported ready once it completed exactly when an instruction of it
  is queued
* `keysAgree_iff`: the windows over which the searches agree
-/

namespace PIMSim

open CSharp

namespace InstructionWindow

/-- **The searches agree on the key**: `if_exist` finds a block exactly when its completion marks an
instruction that `get_readyinfo` then reports. -/
def KeysAgree (w : InstructionWindow) : Prop :=
  ∀ b, w.ifExist b = true ↔ (w.setReady b).getReadyinfo b = true

/-- As sets, the addresses of the memory instructions are their block addresses. -/
def SameKeys (w : InstructionWindow) : Prop :=
  (∀ x ∈ w.ins, x.isMem = true → ∃ y ∈ w.ins, y.isMem = true ∧ y.blockAddr = x.address) ∧
    ∀ x ∈ w.ins, x.isMem = true → ∃ y ∈ w.ins, y.isMem = true ∧ y.address = x.blockAddr

instance (w : InstructionWindow) : Decidable (SameKeys w) :=
  inferInstanceAs (Decidable (_ ∧ _))

/-- What `handle_current_req` does with an instruction whose block is queued. -/
def merge (w : InstructionWindow) (ins : Instruction) (cycle : UInt64) : Outcome InstructionWindow :=
  (w.addIns ins cycle).setLast (w.getReadyinfo ins.blockAddr)

theorem ifExist_iff (w : InstructionWindow) (b : UInt64) :
    w.ifExist b = true ↔ ∃ x ∈ w.ins, x.isMem = true ∧ x.address = b := by
  simp [ifExist, and_comm]

/-- **A block is reported ready once it completed** exactly when an instruction of it is queued. -/
theorem setReady_reports (w : InstructionWindow) (b : UInt64) :
    (w.setReady b).getReadyinfo b = true ↔ ∃ x ∈ w.ins, x.isMem = true ∧ x.blockAddr = b := by
  obtain ⟨ins, size⟩ := w
  simp only [setReady, getReadyinfo]
  induction ins with
  | nil => simp
  | cons x ins ih =>
    by_cases hx : (decide (x.blockAddr = b) && x.isMem) = true
    · have hkey : x.blockAddr = b ∧ x.isMem = true := by simpa using hx
      simp [hkey]
    · rw [List.map_cons, if_neg hx, List.find?_cons_of_neg (by simpa using hx), ih]
      have hno : ¬ (x.isMem = true ∧ x.blockAddr = b) := by
        rintro ⟨hmem, hkey⟩
        exact hx (by simp [hmem, hkey])
      simp [hno]

/-- What an instruction that joined its block is once the block completed. -/
theorem merge_ready {w w' : InstructionWindow} {ins : Instruction} {cycle : UInt64}
    (hmem : ins.isMem = true) (h : w.merge ins cycle = .ok w') :
    ∃ x, (w'.setReady ins.blockAddr).ins.getLast? = some x ∧ x.ref = ins.ref ∧ x.ready = true := by
  unfold merge setLast at h
  have hlast : (w.addIns ins cycle).ins.getLast? = some { ins with servedCycle := cycle } := by
    simp [addIns]
  rw [hlast] at h
  cases h
  simp [setReady, mutate, hlast, hmem]

end InstructionWindow

open InstructionWindow

/-- **The searches agree on the key** if and only if the addresses of the window's memory
instructions are, as a set, their block addresses. An instruction that joined its block is ready once
the block completed, in any window. -/
theorem keysAgree_iff (w : InstructionWindow) :
    (KeysAgree w ↔ SameKeys w) ∧
      ∀ ins cycle w', ins.isMem = true → w.merge ins cycle = .ok w' →
        ∃ x, (w'.setReady ins.blockAddr).ins.getLast? = some x ∧ x.ref = ins.ref ∧
          x.ready = true := by
  refine ⟨?_, fun ins cycle w' => merge_ready⟩
  constructor
  · intro h
    refine ⟨fun x hx hmem => ?_, fun x hx hmem => ?_⟩
    · have hfound := (ifExist_iff w x.address).mpr ⟨x, hx, hmem, rfl⟩
      exact (setReady_reports w x.address).mp ((h x.address).mp hfound)
    · have hready := (setReady_reports w x.blockAddr).mpr ⟨x, hx, hmem, rfl⟩
      exact (ifExist_iff w x.blockAddr).mp ((h x.blockAddr).mpr hready)
  · intro ⟨haddr, hblock⟩ b
    rw [ifExist_iff, setReady_reports]
    constructor
    · rintro ⟨x, hx, hmem, rfl⟩
      exact haddr x hx hmem
    · rintro ⟨x, hx, hmem, rfl⟩
      exact hblock x hx hmem

/-- An instruction of address 4096 whose page is the first one is not found under its block. -/
theorem not_keysAgree_moved :
    ¬ KeysAgree { ins := [{ address := 4096, isMem := true, blockAddr := 0 }], size := 4 } := by
  intro h
  have hfound := (h 0).mpr (by decide)
  exact absurd hfound (by decide)

end PIMSim
