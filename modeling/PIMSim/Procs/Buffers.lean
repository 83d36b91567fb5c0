import PIMSim.Procs.InstructionWindow
import PIMSim.Procs.Mctrl

/-!
# The sizes of a processor's buffers

The miss registers, the instruction window, the write-back queue and the wait queue of the controller
have configured sizes. This module counts the places that are to spare.

## Main definitions

* `Buffers`: what a processor queues
* `Buffers.Fits`: the sizes are kept, with some places to spare, and no addresses are registered twice
* `Buffers.Admits`: a register is free for a request, or holds its addresses

## Main results

* `Fits.load`, `Fits.register`, `Fits.evict`, `Fits.settle`: what the changes of the buffers take and
  give
* `Controller.length_addToMctrl`: the wait queue of a controller keeps its size
-/

namespace PIMSim

open CSharp

/-- What a processor queues, with the wait queue of its controller. -/
structure Buffers where
  mshr : List ProcRequest
  insW : InstructionWindow
  writeback : List ProcRequest
  waiting : List ProcRequest

/-- Requests of the same addresses. -/
def ProcRequest.SameAddrs (x y : ProcRequest) : Prop :=
  x.actualAddr = y.actualAddr ∧ x.blockAddr = y.blockAddr

instance (x y : ProcRequest) : Decidable (x.SameAddrs y) := inferInstanceAs (Decidable (_ ∧ _))

namespace Buffers

/-- The addresses of the request are registered. -/
def Registered (b : Buffers) (req : ProcRequest) : Prop := ∃ x ∈ b.mshr, x.SameAddrs req

instance (b : Buffers) (req : ProcRequest) : Decidable (b.Registered req) :=
  inferInstanceAs (Decidable (∃ x ∈ b.mshr, x.SameAddrs req))

/-- **The sizes are kept**, and the window has `w` places, the registers `r` and the write-back queue
`q` to spare. -/
structure Fits (cfg : Config) (w r q : ℕ) (b : Buffers) : Prop where
  registers : (b.mshr.length + r : Int) ≤ cfg.mshrSize
  distinct : b.mshr.Pairwise fun x y => ¬ x.SameAddrs y
  window : (b.insW.ins.length + w : Int) ≤ cfg.insWSize
  size : b.insW.size = cfg.insWSize
  writeback : (b.writeback.length + q : Int) ≤ cfg.writebackQueueSize
  waiting : (b.waiting.length : Int) ≤ cfg.crtlQueueMax

/-- The request is registered, or a register is free. -/
def Admits (cfg : Config) (w q : ℕ) (req : ProcRequest) (b : Buffers) : Prop :=
  Fits cfg w 1 q b ∨ Fits cfg w 0 q b ∧ b.Registered req

variable {cfg : Config} {w w' r r' q q' : ℕ} {b b' : Buffers} {req : ProcRequest}

/-- Fewer places are to spare. -/
theorem Fits.mono (h : Fits cfg w r q b) (hw : w' ≤ w) (hr : r' ≤ r) (hq : q' ≤ q) :
    Fits cfg w' r' q' b where
  registers := by
    have := h.registers
    omega
  distinct := h.distinct
  window := by
    have := h.window
    omega
  size := h.size
  writeback := by
    have := h.writeback
    omega
  waiting := h.waiting

/-- The registers and the window as they were, and the queues not longer. -/
theorem Fits.shrink (h : Fits cfg w r q b) (hmshr : b'.mshr = b.mshr) (hinsW : b'.insW = b.insW)
    (hwriteback : b'.writeback.length ≤ b.writeback.length)
    (hwaiting : (b'.waiting.length : Int) ≤ cfg.crtlQueueMax) : Fits cfg w r q b' where
  registers := hmshr ▸ h.registers
  distinct := hmshr ▸ h.distinct
  window := hinsW ▸ h.window
  size := hinsW ▸ h.size
  writeback := by
    have := h.writeback
    omega
  waiting := hwaiting

theorem Admits.shrink (h : Admits cfg w q req b) (hmshr : b'.mshr = b.mshr) (hinsW : b'.insW = b.insW)
    (hwriteback : b'.writeback.length ≤ b.writeback.length)
    (hwaiting : (b'.waiting.length : Int) ≤ cfg.crtlQueueMax) : Admits cfg w q req b' := by
  rcases h with h | ⟨h, x, hx, hsame⟩
  · exact .inl (h.shrink hmshr hinsW hwriteback hwaiting)
  · exact .inr ⟨h.shrink hmshr hinsW hwriteback hwaiting, x, hmshr ▸ hx, hsame⟩

theorem Admits.fits (h : Admits cfg w q req b) : Fits cfg w 0 q b := by
  rcases h with h | ⟨h, -⟩
  · exact h.mono (Nat.le_refl w) (Nat.zero_le 1) (Nat.le_refl q)
  · exact h

/-! ### The window -/

/-- An instruction enters the window. -/
def load (b : Buffers) (ins : Instruction) (cycle : UInt64) : Buffers :=
  { b with insW := b.insW.addIns ins cycle }

/-- The oldest ready instructions leave the window. -/
def evict (b : Buffers) (n : Int) : Buffers := { b with insW := b.insW.evicted n }

/-- The window holds an instruction more. -/
theorem Fits.window_succ (h : Fits cfg (w + 1) r q b) {insW : InstructionWindow}
    (hlength : insW.ins.length = b.insW.ins.length + 1) (hsize : insW.size = b.insW.size) :
    Fits cfg w r q { b with insW := insW } where
  registers := h.registers
  distinct := h.distinct
  window := by
    have := h.window
    dsimp only
    omega
  size := hsize.trans h.size
  writeback := h.writeback
  waiting := h.waiting

theorem length_addIns (insW : InstructionWindow) (ins : Instruction) (cycle : UInt64) :
    (insW.addIns ins cycle).ins.length = insW.ins.length + 1 := by
  simp [InstructionWindow.addIns, InstructionWindow.mutate]

/-- The ready bit of the last instruction changes no length. -/
theorem length_setLast {insW insW' : InstructionWindow} {ready : Bool}
    (h : insW.setLast ready = .ok insW') :
    insW'.ins.length = insW.ins.length ∧ insW'.size = insW.size := by
  unfold InstructionWindow.setLast at h
  split at h
  · cases h
  · cases h
    exact ⟨List.length_map _, rfl⟩

theorem Fits.load (h : Fits cfg (w + 1) r q b) (ins : Instruction) (cycle : UInt64) :
    Fits cfg w r q (b.load ins cycle) :=
  h.window_succ (length_addIns b.insW ins cycle) rfl

theorem Admits.load (h : Admits cfg (w + 1) q req b) (ins : Instruction) (cycle : UInt64) :
    Admits cfg w q req (b.load ins cycle) := by
  rcases h with h | ⟨h, hreg⟩
  · exact .inl (h.load ins cycle)
  · exact .inr ⟨h.load ins cycle, hreg⟩

theorem length_evicted_le (insW : InstructionWindow) (n : Int) :
    (insW.evicted n).ins.length ≤ insW.ins.length := by
  unfold InstructionWindow.evicted
  split_ifs
  · exact Nat.le_refl _
  · exact (List.dropWhile_suffix _).length_le

/-- Nothing leaves an empty window. -/
theorem evicted_of_empty {insW : InstructionWindow} (h : insW.empty = true) (n : Int) :
    insW.evicted n = insW := by
  have hnil : insW.ins = [] := List.eq_nil_of_length_eq_zero (of_decide_eq_true h)
  unfold InstructionWindow.evicted
  split_ifs
  · rfl
  · rw [hnil]
    exact congrArg (InstructionWindow.mk · insW.size) hnil.symm

theorem Fits.evict (h : Fits cfg w r q b) (n : Int) : Fits cfg w r q (b.evict n) where
  registers := h.registers
  distinct := h.distinct
  window := by
    have hle := length_evicted_le b.insW n
    have := h.window
    show ((b.insW.evicted n).ins.length + w : Int) ≤ cfg.insWSize
    omega
  size := by
    rw [← h.size]
    unfold Buffers.evict InstructionWindow.evicted
    split_ifs <;> rfl
  writeback := h.writeback
  waiting := h.waiting

/-! ### The registers -/

/-- The instructions of a block are ready, and its requests are no more registered. -/
def settle (b : Buffers) (blockAddr : UInt64) : Buffers :=
  { b with
    insW := b.insW.setReady blockAddr
    mshr := b.mshr.filter (·.blockAddr ≠ blockAddr) }

theorem Fits.settle (h : Fits cfg w r q b) (blockAddr : UInt64) :
    Fits cfg w r q (b.settle blockAddr) where
  registers := by
    have hle : (b.settle blockAddr).mshr.length ≤ b.mshr.length := List.length_filter_le _ _
    have := h.registers
    omega
  distinct := h.distinct.filter _
  window := by
    rw [show (b.settle blockAddr).insW.ins.length = b.insW.ins.length from List.length_map _]
    exact h.window
  size := h.size
  writeback := h.writeback
  waiting := h.waiting

/-- A change that takes `p` from no entry leaves no longer a list behind the leading entries with
`p`. -/
theorem length_dropWhile_map_le {α : Type} {p : α → Bool} {f : α → α}
    (hf : ∀ x, p x = true → p (f x) = true) (xs : List α) :
    ((xs.map f).dropWhile p).length ≤ (xs.dropWhile p).length := by
  induction xs with
  | nil => exact Nat.le_refl 0
  | cons x xs ih =>
    rw [List.map_cons, List.dropWhile_cons, List.dropWhile_cons]
    by_cases hx : p x = true
    · rw [if_pos hx, if_pos (hf x hx)]
      exact ih
    · rw [if_neg hx]
      split_ifs
      · exact (List.dropWhile_suffix p).length_le.trans (by simp)
      · simp

/-- With more instructions ready, more leave the window. -/
theorem length_evicted_setReady (insW : InstructionWindow) (blockAddr : UInt64) (n : Int) :
    ((insW.setReady blockAddr).evicted n).ins.length ≤ (insW.evicted n).ins.length := by
  unfold InstructionWindow.evicted
  split_ifs
  · simp [InstructionWindow.setReady]
  · apply length_dropWhile_map_le
    intro x hx
    split_ifs
    · rfl
    · exact hx

/-- What the buffers admit once the window is evicted, they admit when requests are settled. -/
theorem Admits.settle {n : Int} (h : Admits cfg w q req (b.evict n)) (blockAddr : UInt64) :
    Admits cfg w q req ((b.settle blockAddr).evict n) := by
  have hmshr : (b.settle blockAddr).mshr.length ≤ b.mshr.length := List.length_filter_le _ _
  have hwindow := length_evicted_setReady b.insW blockAddr n
  have hfits : ∀ {r}, Fits cfg w r q (b.evict n) → Fits cfg w r q ((b.settle blockAddr).evict n) := by
    intro r h
    refine ⟨?_, h.distinct.filter _, ?_, ?_, h.writeback, h.waiting⟩
    · have := h.registers
      show ((b.settle blockAddr).mshr.length + r : Int) ≤ cfg.mshrSize
      have hm : (b.evict n).mshr.length = b.mshr.length := rfl
      omega
    · have := h.window
      show (((b.insW.setReady blockAddr).evicted n).ins.length + w : Int) ≤ cfg.insWSize
      have hi : (b.evict n).insW.ins.length = (b.insW.evicted n).ins.length := rfl
      omega
    · rw [← h.size]
      unfold Buffers.evict InstructionWindow.evicted
      split_ifs <;> rfl
  rcases h with h | ⟨h, x, hx, hsame⟩
  · exact .inl (hfits h)
  · by_cases hblock : x.blockAddr = blockAddr
    · -- The register of the request is given up.
      left
      have hlt : (b.settle blockAddr).mshr.length < b.mshr.length :=
        List.length_filter_lt_length_iff_exists.mpr ⟨x, hx, by simp [hblock]⟩
      have hold := hfits h
      refine ⟨?_, hold.distinct, hold.window, hold.size, hold.writeback, hold.waiting⟩
      have := h.registers
      have hm : (b.evict n).mshr.length = b.mshr.length := rfl
      show ((b.settle blockAddr).mshr.length + (1 : ℕ) : Int) ≤ cfg.mshrSize
      omega
    · exact .inr ⟨hfits h, x, List.mem_filter.mpr ⟨hx, by simpa using hblock⟩, hsame⟩

/-- A request may be registered, when it is not. -/
def register (b : Buffers) (req : ProcRequest) : Buffers := { b with mshr := b.mshr ++ [req] }

theorem Fits.register (h : Fits cfg w (r + 1) q b) (hnew : ¬ b.Registered req) :
    Fits cfg w r q (b.register req) where
  registers := by
    have := h.registers
    show ((b.mshr ++ [req]).length + r : Int) ≤ cfg.mshrSize
    rw [List.length_append, List.length_singleton]
    omega
  distinct := by
    refine List.pairwise_append.mpr ⟨h.distinct, List.pairwise_singleton _ _, fun x hx y hy hsame => ?_⟩
    obtain rfl := List.mem_singleton.mp hy
    exact hnew ⟨x, hx, hsame⟩
  window := h.window
  size := h.size
  writeback := h.writeback
  waiting := h.waiting

end Buffers

/-- The wait queue of a controller keeps its size. -/
theorem Controller.length_addToMctrl {cfg : Config} {m : Controller} (req : ProcRequest)
    (h : (m.waitQueue.length : Int) ≤ cfg.crtlQueueMax) :
    ((m.addToMctrl cfg req).2.waitQueue.length : Int) ≤ cfg.crtlQueueMax := by
  unfold Controller.addToMctrl
  split_ifs with hfull
  · exact h
  · rw [List.length_append, List.length_singleton]
    omega

/-- A request that is given out was not in the wait queue. -/
theorem Controller.getReq_waitQueue {m m' : Controller} {pim : Bool} {pid : Int}
    {req : Option MemRequest} (h : m.getReq pim pid = .ok (req, m')) : m'.waitQueue = m.waitQueue := by
  obtain ⟨queue, -, h⟩ := Outcome.bind_eq_ok.mp h
  cases queue with
  | nil =>
    cases h
    rfl
  | cons first queue =>
    cases h
    rfl

/-- The requests that wait after a cycle were waiting before it. -/
theorem Mctrl.step_length {Obj : Type} {cfg : Config} {info : List (Region Obj)}
    {lock : Option SpinLock} {m m' : Controller} (h : Mctrl.step cfg info lock m = .ok m') :
    m'.waitQueue.length ≤ m.waitQueue.length := by
  obtain ⟨⟨queues, waiting⟩, hscan, heq⟩ := Outcome.bind_eq_ok.mp h
  cases heq
  exact (Sweep.scan_sublist hscan).length_le

end PIMSim
