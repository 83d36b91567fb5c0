import PIMSim.PIM.FlushAddress
import PIMSim.PIM.PIMCore

/-!
# The translation of a memory-side processor's instructions

An instruction comes to a memory-side processor alone, as a line of a PC trace, or in a block, which
hands its instructions out one after the other over several cycles. A memory instruction is to carry
the block address that the page table gives its address.

## Main definitions

* `NamedBlock.due`, `PIMCore.dueIns`: the instruction that a call takes out of a block
* `PIMCore.Translated`: the block address is the mapping of the address

## Main results

* `PageConverter.scanPage_again`: a mapping stays
* `PIMCore.getIns_spec`: what a block hands out
* `PIMCore.translated_iff`: an instruction is translated exactly when it does not come out of a block,
  or came into the block with the mapping of its address
-/

namespace PIMSim

open CSharp

/-- The mapping of an address is answered again. -/
theorem PageConverter.scanPage_again {s s' : PageConverter} {addr res : UInt64}
    (h : scanPage s addr = .ok (res, s')) : scanPage s' addr = .ok (res, s') := by
  obtain ⟨page, hpage, h⟩ := Outcome.bind_eq_ok.mp h
  obtain ⟨offset, hoffset, h⟩ := Outcome.bind_eq_ok.mp h
  cases hframe : s.pageTable page with
  | some index =>
    simp only [hframe] at h
    cases h
    simp only [scanPage, hpage, hoffset, hframe, Outcome.ok_bind]
    rfl
  | none =>
    simp only [hframe, Outcome.bind_eq_ok] at h
    obtain ⟨group, hgroup, currFid, -, heq⟩ := h
    cases heq
    simp only [scanPage, hpage, hoffset, Outcome.ok_bind, Function.update_self]
    rfl

/-- The instruction that a block hands out in a cycle. -/
def NamedBlock.due (b : NamedBlock) (cycle : UInt64) : Option TraceIns :=
  match b.ins with
  | some x :: _ => if x.ins.cycle ≤ cycle then some x else none
  | _ => none

namespace PIMCore

/-- The instruction that the next input hands out, when that is a block. -/
def nextDue (c : PIMCore) : Option TraceIns :=
  match c.insP with
  | .block b :: _ => b.due c.cycle
  | _ => none

/-- The instruction that a call of `get_ins_from_insp` takes out of a block: of the current one, unless
that is at its end, or of the next input. -/
def dueIns (c : PIMCore) : Option TraceIns :=
  match c.currentBlock with
  | some b => if b.ins = [] then c.nextDue else b.due c.cycle
  | none => c.nextDue

/-- The block address of a memory instruction is the mapping of its address. -/
def Translated (c : PIMCore) (ins : Instruction) : Prop :=
  ins.isMem = true → (c.tlb.scanPage ins.address).map Prod.fst = .ok ins.blockAddr

variable {c c' : PIMCore} {b : NamedBlock} {ins : Instruction}

/-- **What a block hands out**: its head when that is due, and a new instruction otherwise. -/
theorem getIns_spec (h : c.getIns b = .ok (some (ins, c'))) :
    c'.tlb = c.tlb ∧ ins = { (b.due c.cycle).elim {} TraceIns.ins with ref := c.fetched } := by
  unfold getIns at h
  unfold NamedBlock.due
  split at h
  · cases h
  · cases h
  · next x rest hins =>
    rw [hins]
    dsimp only at h ⊢
    split at h
    · next hdue =>
      cases h
      rw [if_pos hdue]
      exact ⟨rfl, rfl⟩
    · next hdue =>
      cases h
      rw [if_neg hdue]
      exact ⟨rfl, rfl⟩

/-- An instruction out of a block is translated when it came into the block so. -/
theorem translated_getIns (h : c.getIns b = .ok (some (ins, c'))) :
    c'.Translated ins ↔ ∀ x ∈ b.due c.cycle, c.Translated x.ins := by
  obtain ⟨htlb, rfl⟩ := getIns_spec h
  unfold Translated
  rw [htlb]
  cases b.due c.cycle with
  | none => simp
  | some x => simp

/-- An instruction that was translated when it was fetched. -/
theorem translated_scanPage {addr block : UInt64} (h : c.scanPage addr = .ok (block, c'))
    (ins : Instruction) (haddr : ins.address = addr) (hblock : ins.blockAddr = block) :
    c'.Translated ins := by
  obtain ⟨⟨res, tlb⟩, hscan, heq⟩ := Outcome.bind_eq_ok.mp h
  cases heq
  intro _
  rw [haddr, hblock, PageConverter.scanPage_again hscan]
  rfl

theorem translated_getInput (h : c.getInput = .ok (ins, c')) :
    c'.Translated ins ↔ ∀ x ∈ c.nextDue, c.Translated x.ins := by
  unfold getInput at h
  unfold nextDue
  match hinsP : c.insP with
  | [] =>
    rw [hinsP] at h
    cases h
    simp [Translated]
  | .input (.instruction ins₀) :: rest =>
    rw [hinsP] at h
    simp only [List.headD_cons] at h
    refine iff_of_true ?_ nofun
    split at h
    · obtain ⟨⟨block, c₁⟩, hscan, heq⟩ := Outcome.bind_eq_ok.mp h
      cases heq
      exact translated_scanPage hscan _ rfl rfl
    · next hmem =>
      cases h
      exact fun h => absurd h hmem
  | .block b :: rest =>
    rw [hinsP] at h
    obtain ⟨answer, hget, h⟩ := Outcome.bind_eq_ok.mp h
    cases answer with
    | none => cases h
    | some answer =>
      cases h
      have htranslated := translated_getIns hget
      exact htranslated
  | .input (.pcTrace t) :: rest =>
    rw [hinsP] at h
    refine iff_of_true ?_ nofun
    obtain ⟨ins₀, -, h⟩ := Outcome.bind_eq_ok.mp h
    obtain ⟨⟨block, c₁⟩, hscan, heq⟩ := Outcome.bind_eq_ok.mp h
    cases heq
    exact translated_scanPage hscan _ rfl rfl
  | .input .other :: rest =>
    rw [hinsP] at h
    cases h

/-- **The translation of a memory-side processor's instructions**: whatever a call fetches, a memory
instruction carries the mapping of its address, exactly when it does not come out of a block or carried
that mapping in its block. -/
theorem translated_iff (c c' : PIMCore) (ins : Instruction)
    (h : c.getInsFromInsp = .ok (ins, c')) :
    c'.Translated ins ↔ ∀ x ∈ c.dueIns, c.Translated x.ins := by
  unfold getInsFromInsp at h
  unfold dueIns
  cases hblock : c.currentBlock with
  | none =>
    rw [hblock] at h
    exact translated_getInput h
  | some b =>
    rw [hblock] at h
    obtain ⟨answer, hget, h⟩ := Outcome.bind_eq_ok.mp h
    cases answer with
    | some answer =>
      cases h
      have hne : b.ins ≠ [] := by
        intro hnil
        unfold getIns at hget
        rw [hnil] at hget
        cases hget
      dsimp only
      rw [if_neg hne]
      exact translated_getIns hget
    | none =>
      have hnil : b.ins = [] := by
        unfold getIns at hget
        split at hget
        · assumption
        · cases hget
        · dsimp only at hget
          split at hget
          · cases hget
          · cases hget
      dsimp only at h ⊢
      rw [if_pos hnil]
      split at h
      · cases h
      · have htranslated := translated_getInput h
        exact htranslated

/-- A processor with one input. -/
def given (i : PIMInput) : PIMCore :=
  { PIMProc.fresh with
    insP := [i]
    tlb := PageConverter.empty 4096 1 }

/-- A read in the second page, alone. -/
theorem translated_iff_alone : ∃ ins c',
    (given (.input (.instruction { type := .read, address := 4160, isMem := true }))).getInsFromInsp =
      .ok (ins, c') ∧ ins.blockAddr = 4160 ∧ c'.Translated ins := by
  obtain ⟨⟨ins, c'⟩, h, hblock⟩ := Outcome.exists_of_map_eq_ok
    (x := (given (.input (.instruction
      { type := .read, address := 4160, isMem := true }))).getInsFromInsp)
    (f := fun x => x.1.blockAddr) (b := 4160) (by decide +kernel)
  exact ⟨ins, c', h, hblock, (translated_iff _ c' ins h).mpr nofun⟩

/-- The same read in a block. -/
theorem not_translated_block : ∃ ins c',
    (given (.block { ins := [some { ins := { type := .read, address := 4160, isMem := true } }] })
      ).getInsFromInsp = .ok (ins, c') ∧ ins.isMem = true ∧ ¬ c'.Translated ins := by
  obtain ⟨⟨ins, c'⟩, h, hins⟩ := Outcome.exists_of_map_eq_ok
    (x := (given (.block
      { ins := [some { ins := { type := .read, address := 4160, isMem := true } }] })).getInsFromInsp)
    (f := fun x => (x.1.isMem, x.1.blockAddr, (x.2.tlb.scanPage x.1.address).map Prod.fst))
    (b := (true, 0, .ok 4160)) (by decide +kernel)
  simp only [Prod.mk.injEq] at hins
  obtain ⟨hmem, hblock, hscan⟩ := hins
  refine ⟨ins, c', h, hmem, fun htranslated => ?_⟩
  have heq := hscan.symm.trans (htranslated hmem)
  rw [hblock] at heq
  cases heq

end PIMCore

end PIMSim
