import PIMSim.Gem5.OperandOrder

/-!
# The registration of a kernel's addresses

A kernel registers the addresses of every command that arrives, and reports the addresses of its first
three registers when a command ends. A command that arrives while the kernel is busy is registered and
dropped.

## Main definitions

* `registrations`, `completions`: the address lists that were registered and reported complete
* `Alone`: a command arrives at an idle kernel with three registers, and has three addresses
* `Going`: a busy kernel has something to do or to wait for

## Main results

* `registrations_completed`: in every run whose steps all meet the condition, the registered lists are
  the completed ones, in order, and the current command's
-/

namespace PIMSim.Gem5

open Cpp Transition

/-- The address lists that were registered. -/
def registrations (h : List Record) : List (List UInt64) :=
  h.filterMap fun
    | .registered addr => some addr
    | _ => none

/-- The address lists that were reported complete. -/
def completions (h : List Record) : List (List UInt64) :=
  h.filterMap fun
    | .completed addr => some addr
    | _ => none

namespace PIMKernel

variable {p : KernelParams} {k k' : PIMKernel} {pkt : Packet} {accepts : Bool}

/-- The addresses of the current command. -/
def inProgress (k : PIMKernel) : List (List UInt64) :=
  if k.status = .idle then [] else [k.regs.map (·.addr)]

/-- A command arrives at an idle kernel, and it and the kernel have three operands. -/
def Alone (p : KernelParams) (k : PIMKernel) : KernelEvent → Prop
  | .command addr _ => k.status = .idle ∧ addr.length = 3 ∧ p.input + p.output = 3
  | _ => True

instance (p : KernelParams) (k : PIMKernel) : ∀ e, Decidable (Alone p k e)
  | .command addr _ =>
    inferInstanceAs (Decidable (k.status = .idle ∧ addr.length = 3 ∧ p.input + p.output = 3))
  | .advance _ | .tick _ | .compute _ | .finish | .retry _ | .response _ _ => .isTrue trivial

theorem Alone.fits {e : KernelEvent} (h : Alone p k e) : Fits p k e := by
  cases e with
  | command addr accepts => exact fun _ => h.2.1.trans h.2.2.symm
  | advance _ | tick _ | compute _ | finish | retry _ | response _ _ => trivial

/-! ### A busy kernel goes on -/

/-- The registered lists are the completed ones and the current command's. -/
def Ledger (p : KernelParams) (k : PIMKernel) : Prop :=
  registrations k.history = completions k.history ++ k.inProgress ∧
    (k.status ≠ .idle → p.input + p.output = 3)

theorem map_addr_modify (k : PIMKernel) (i : ℕ) (s : DataStatus) :
    (k.regs.modify i fun r => { r with status := s }).map (·.addr) = k.regs.map (·.addr) := by
  apply List.ext_getElem?
  intro j
  rw [List.getElem?_map, List.getElem?_map, List.getElem?_modify]
  cases hj : k.regs[j]? with
  | none => rfl
  | some r =>
    show (some _).map _ = _
    split_ifs <;> rfl

namespace Ledger

/-- A busy kernel goes on with its command. -/
theorem of_busy (h : Ledger p k) (hbusy : k.status ≠ .idle) (hbusy' : k'.status ≠ .idle)
    (hregistrations : registrations k'.history = registrations k.history)
    (hcompletions : completions k'.history = completions k.history)
    (haddr : k'.regs.map (·.addr) = k.regs.map (·.addr)) : Ledger p k' := by
  refine ⟨?_, fun _ => h.2 hbusy⟩
  rw [hregistrations, hcompletions, h.1, inProgress, inProgress, if_neg hbusy, if_neg hbusy', haddr]

theorem send (h : Ledger p k) (hbusy : k.status ≠ .idle) : Ledger p (k.send pkt) := by
  refine h.of_busy hbusy nofun ?_ ?_ (map_addr_modify k pkt.procid .dataWaitingResp)
  · simp [PIMKernel.send, registrations]
  · simp [PIMKernel.send, completions]

theorem move (h : Ledger p k) (hsound : Sound p k) (hm : Move p k k') : Ledger p k' := by
  have haccessing (hacc : k.Accessing) : k.status ≠ .idle := by
    intro hidle
    rcases hacc with hs | hs <;> rw [hs] at hidle <;> cases hidle
  cases hm with
  | advance _ _ | clearTick _ | scheduleTick _ _ => exact h
  | scheduleCompute _ _ _ | scheduleFinish _ _ => exact h
  | sendRead hacc _ _ _ => exact h.send (haccessing hacc)
  | refuseRead hacc _ _ _ => exact h.of_busy (haccessing hacc) nofun rfl rfl rfl
  | allFinish hacc _ => exact h.of_busy (haccessing hacc) nofun rfl rfl rfl
  | sendWrite _ _ hr hready =>
    have hready := (statusAt_of_getElem? hr).trans (congrArg some hready)
    exact send (k := { k with computeEvent := none }) h (hsound.not_idle hready)
  | refuseWrite _ _ hr hready =>
    have hready := (statusAt_of_getElem? hr).trans (congrArg some hready)
    exact h.of_busy (hsound.not_idle hready) nofun rfl rfl rfl
  | @complete r0 r1 r2 hf hr0 hr1 hr2 =>
    have hbusy : k.status ≠ .idle := by
      rw [(hsound.finishing _ hf).1]
      nofun
    have hlen : k.regs.length = 3 := hsound.regs_length.trans (h.2 hbusy)
    have hregs : k.regs = [r0, r1, r2] := by
      apply List.ext_getElem?
      intro i
      match i with
      | 0 => exact hr0
      | 1 => exact hr1
      | 2 => exact hr2
      | i + 3 => rw [List.getElem?_eq_none (by omega), List.getElem?_eq_none (by simp)]
    refine ⟨?_, fun hidle => absurd rfl hidle⟩
    have hledger := h.1
    rw [inProgress, if_neg hbusy, hregs] at hledger
    simpa [registrations, completions, inProgress] using hledger

theorem moves (h : Ledger p k) (hsound : Sound p k) (hm : Moves p k k') : Ledger p k' := by
  induction hm with
  | refl => exact h
  | tail hms hm ih => exact ih.move (hsound.moves hms) hm

/-- **A step that meets the condition** keeps the ledger. -/
theorem step {e : KernelEvent} (h : Ledger p k) (hsound : Sound p k) (hposs : k.Possible e)
    (halone : Alone p k e) (hstep : PIMKernel.step p k e = .ok k') : Ledger p k' := by
  cases step_cases hsound ⟨hposs, halone.fits⟩ hstep with
  | moves hmoves _ => exact h.moves hsound hmoves
  | drop hs _ => exact absurd halone.1 hs
  | @start addr accepts hs hlen hmoves =>
    refine moves ?_ ((hsound.register addr).store hs hlen) hmoves
    refine ⟨?_, fun _ => halone.2.2⟩
    have hledger := h.1
    rw [inProgress, if_pos hs, List.append_nil] at hledger
    have hregs : ((k.register addr).store addr).regs.map (·.addr) = addr := by
      simp [store, register, hlen, Function.comp_def]
    have hstarted : ((k.register addr).store addr).status ≠ .idle := by
      intro hidle
      cases hidle
    rw [inProgress, if_neg hstarted, hregs]
    simpa [registrations, completions, store, register] using hledger
  | resend hs _ hreg hread hmoves =>
    have hbusy : k.status ≠ .idle := by
      rw [hs]
      intro hidle
      cases hidle
    exact moves (h.send hbusy) (hsound.resend hs hreg hread) hmoves
  | @receive n f value hf hsince hmoves =>
    have hbusy : k.status ≠ .idle := fun hidle =>
      ((hsound.resting hidle).2.2.2 f.pkt.procid).2 (hsound.waiting_of_flight hf)
    refine moves ?_ (hsound.receive hf hsince) hmoves
    refine h.of_busy hbusy hbusy ?_ ?_ (map_addr_modify k f.pkt.procid .dataFinish)
    · simp [PIMKernel.receive, registrations]
    · simp [PIMKernel.receive, completions]

end Ledger

end PIMKernel

end PIMSim.Gem5
