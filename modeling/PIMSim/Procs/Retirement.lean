import PIMSim.Procs.Proc

/-!
# Retirement

The loop that takes the oldest ready instructions out of a window. It takes its counter back at each
removal, so the number it is called with does not stop it.

## Main definitions

* `InstructionWindow.evict`: the loop of `evicted` with its counter and its result
* `InstructionWindow.readyPrefix`: how many of the oldest instructions are ready
* `InstructionWindow.Retires`: the call removes as many of these as it is asked for

## Main results

* `evict_eq`: the loop returns, and what it leaves is `evicted`
* `retires_iff`: the calls that remove as many as they are asked for
-/

namespace PIMSim

open CSharp

namespace InstructionWindow

/-- The loop of `evicted` over the instructions left, with its counter `i` and its result `res`. -/
def evictLoop (n i res : Int) : List Instruction → Outcome (Int × List Instruction)
  | [] => .ok (res, [])
  | x :: ins =>
    if i < n then do
      let head ← listAt (x :: ins) i
      if !head.ready then
        return (res, x :: ins)
      -- `delete()` takes the first instruction, and `i--` undoes the `i++` of the loop.
      evictLoop n (i - 1 + 1) (res + 1) ins
    else
      .ok (res, x :: ins)

/-- `evicted` with the number it returns. -/
def evict (w : InstructionWindow) (n : Int) : Outcome (Int × InstructionWindow) :=
  if w.ins.length ≤ 0 then .ok (0, w)
  else do
    let (res, ins) ← evictLoop n 0 0 w.ins
    return (res, { w with ins := ins })

/-- The number of instructions before the first one that is not ready. -/
def readyPrefix (w : InstructionWindow) : ℕ := (w.ins.takeWhile (·.ready)).length

/-- **The call retires what it is asked for**: the first `n` instructions, or the ready ones at the
front when these are fewer. It returns their number, and the others keep their order. -/
def Retires (w : InstructionWindow) (n : Int) : Prop :=
  w.evict n = .ok ((min n.toNat w.readyPrefix : ℕ),
    { w with ins := w.ins.drop (min n.toNat w.readyPrefix) })

/-- The counter of the loop stays at zero: the loop ends at the first instruction not ready. -/
theorem evictLoop_eq {n : Int} (hn : 0 < n) (res : Int) (ins : List Instruction) :
    evictLoop n 0 res ins =
      .ok (res + (ins.takeWhile (·.ready)).length, ins.dropWhile (·.ready)) := by
  induction ins generalizing res with
  | nil => simp [evictLoop]
  | cons x ins ih =>
    have hhead : listAt (x :: ins) 0 = .ok x := listAt_eq_ok.mpr ⟨Int.le_refl 0, rfl⟩
    unfold evictLoop
    rw [if_pos hn, hhead, Outcome.ok_bind]
    cases hx : x.ready with
    | false => simp [hx, pure, Except.pure]
    | true =>
      simp only [Bool.not_true, Bool.false_eq_true, if_false, Int.sub_add_cancel]
      rw [ih]
      simp [hx, Int.add_assoc, Int.add_comm 1]

theorem evictLoop_of_nonpos {n : Int} (hn : n ≤ 0) (res : Int) (ins : List Instruction) :
    evictLoop n 0 res ins = .ok (res, ins) := by
  cases ins with
  | nil => rfl
  | cons x ins => rw [evictLoop, if_neg (Int.not_lt.mpr hn)]

/-- **What the loop does**: it returns, a positive number takes out all the ready instructions at the
front, and what is left is `evicted`. -/
theorem evict_eq (w : InstructionWindow) (n : Int) :
    w.evict n = .ok ((if n ≤ 0 then 0 else w.readyPrefix : ℕ), w.evicted n) := by
  obtain ⟨ins, size⟩ := w
  by_cases hn : n ≤ 0
  · simp [evict, evicted, hn, evictLoop_of_nonpos hn, pure, Except.pure]
  · cases ins with
    | nil => simp [evict, evicted, hn, readyPrefix]
    | cons x ins =>
      simp [evict, evicted, hn, readyPrefix, evictLoop_eq (Int.not_le.mp hn), pure, Except.pure]

theorem readyPrefix_le (w : InstructionWindow) : w.readyPrefix ≤ w.ins.length :=
  (List.takeWhile_prefix _).length_le

theorem dropWhile_ready (w : InstructionWindow) :
    w.ins.dropWhile (·.ready) = w.ins.drop w.readyPrefix := by
  have hsplit := List.takeWhile_append_dropWhile (p := (·.ready)) (l := w.ins)
  conv_rhs => rw [← hsplit]
  exact (List.drop_left' rfl).symm

theorem evicted_of_empty {w : InstructionWindow} (h : w.empty = true) (n : Int) :
    w.evicted n = w := by
  obtain ⟨ins, size⟩ := w
  have hnil : ins = [] := by simpa [empty] using h
  simp [evicted, hnil]

/-- The number of instructions that leave. -/
theorem length_evicted (w : InstructionWindow) (n : Int) :
    w.ins.length - (w.evicted n).ins.length = if n ≤ 0 then 0 else w.readyPrefix := by
  have hle := w.readyPrefix_le
  unfold evicted
  split_ifs with hn
  · exact Nat.sub_self _
  · rw [dropWhile_ready, List.length_drop]
    omega

end InstructionWindow

/-- The instructions a cycle retires. -/
def Core.retired (cfg : Config) (c : Core) : ℕ :=
  c.proc.insW.ins.length - (c.updateInsW cfg).proc.insW.ins.length

open InstructionWindow

/-- What a cycle leaves in the window is what `evicted` leaves. -/
theorem Core.updateInsW_insW (cfg : Config) (c : Core) :
    (c.updateInsW cfg).proc.insW = c.proc.insW.evicted cfg.ipc := by
  unfold updateInsW
  split_ifs with hempty
  · exact (evicted_of_empty hempty _).symm
  · rfl

/-- **A call retires what it is asked for** if and only if it is asked for nothing, or for all the
ready instructions at the front. A cycle never passes an instruction that is not ready, but it
retires no more than `IPC` instructions under the same condition only. -/
theorem retires_iff (w : InstructionWindow) (n : Int) (cfg : Config) (c : Core) :
    (Retires w n ↔ n ≤ 0 ∨ (w.readyPrefix : Int) ≤ n) ∧
      (c.retired cfg ≤ cfg.ipc.toNat ↔
        cfg.ipc ≤ 0 ∨ (c.proc.insW.readyPrefix : Int) ≤ cfg.ipc) ∧
      ∃ k ≤ c.proc.insW.readyPrefix,
        (c.updateInsW cfg).proc.insW.ins = c.proc.insW.ins.drop k := by
  refine ⟨?_, ?_, ?_⟩
  · have hle := w.readyPrefix_le
    unfold Retires
    rw [evict_eq]
    constructor
    · -- The numbers returned agree.
      intro h
      have hnum := congrArg Prod.fst (Except.ok.inj h)
      simp only at hnum
      split_ifs at hnum with hn
      · exact .inl hn
      · omega
    · intro h
      by_cases hn : n ≤ 0
      · have hzero : n.toNat = 0 := Int.toNat_of_nonpos hn
        simp [evicted, hn, hzero]
      · have hmin : min n.toNat w.readyPrefix = w.readyPrefix := by omega
        simp [evicted, hn, hmin, dropWhile_ready]
  · unfold Core.retired
    rw [Core.updateInsW_insW, length_evicted]
    split_ifs with hn
    · simp [hn]
    · omega
  · rw [Core.updateInsW_insW]
    unfold evicted
    split_ifs with hn
    · exact ⟨0, Nat.zero_le _, rfl⟩
    · exact ⟨_, Nat.le_refl _, dropWhile_ready _⟩

/-- A window whose two instructions are ready loses both to a call for one. -/
theorem not_retires_two :
    ¬ Retires { ins := [{ ref := 0, ready := true }, { ref := 1, ready := true }], size := 4 } 1 := by
  intro h
  have hnum := congrArg (Except.map Prod.fst) h
  exact absurd hnum (by decide)

end PIMSim
