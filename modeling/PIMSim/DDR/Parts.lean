import PIMSim.DDR.MemoryController
import PIMSim.DDR.Pop
import PIMSim.Library.Run

/-!
# What the parts of an update do

`MemorySystem.update` is a sequence of parts. For each of them one lemma tells what it may do to the
command queue, the buses and the slots for refreshes, and what it adds to the history.

## Main definitions

* `Quiet s s'`: nothing of this changes
* `Moved`, `MovedData`, `Checked`, `Issued`, `Scheduled`, `Returned`: what the parts do

## Main results

* `update_steps`, `update_parts`: an update is the sequence of its parts
* `update_arrivals`: what an update does to the transaction queue
* `step_rule`: what all parts keep, every step of the memory system keeps
-/

namespace PIMSim.DDR

open CSharp MemorySystem

/-- The command queue, the command bus, the slots for refreshes and the history stay; data moves on
towards the data bus. -/
structure Quiet (s s' : MemorySystem) : Prop where
  history : s'.history = s.history
  queues : s'.controller.commandQueue.queues = s.controller.commandQueue.queues
  rows : s'.controller.commandQueue.rows = s.controller.commandQueue.rows
  cells : s'.controller.commandQueue.cells = s.controller.commandQueue.cells
  waiting : s'.controller.commandQueue.refreshWaiting = s.controller.commandQueue.refreshWaiting
  waitingRank : s'.controller.commandQueue.refreshRank = s.controller.commandQueue.refreshRank
  out : s'.controller.outgoingCmdPacket = s.controller.outgoingCmdPacket
  slot : s'.controller.refreshRank = s.controller.refreshRank
  countdown : s'.controller.refreshCountdown = s.controller.refreshCountdown
  write : s'.controller.writeDataToSend ⊆ s.controller.writeDataToSend
  data : ∀ p, s'.controller.outgoingDataPacket = some p →
    s.controller.outgoingDataPacket = some p ∨ p ∈ s.controller.writeDataToSend

namespace Quiet

variable {s s' s'' : MemorySystem}

theorem refl (s : MemorySystem) : Quiet s s :=
  ⟨rfl, rfl, rfl, rfl, rfl, rfl, rfl, rfl, rfl, List.Subset.refl _, fun _ h => .inl h⟩

theorem trans (h : Quiet s s') (h' : Quiet s' s'') : Quiet s s'' := by
  refine ⟨h'.history.trans h.history, h'.queues.trans h.queues, h'.rows.trans h.rows,
    h'.cells.trans h.cells, h'.waiting.trans h.waiting, h'.waitingRank.trans h.waitingRank,
    h'.out.trans h.out, h'.slot.trans h.slot, h'.countdown.trans h.countdown,
    List.Subset.trans h'.write h.write, fun p hp => ?_⟩
  rcases h'.data p hp with hp | hp
  · exact h.data p hp
  · exact .inr (h.write hp)

/-- What does not touch the controller and the history. -/
theorem of_eq (hcontroller : s'.controller = s.controller) (hhistory : s'.history = s.history) :
    Quiet s s' := by
  refine ⟨hhistory, ?_, ?_, ?_, ?_, ?_, ?_, ?_, ?_, ?_, ?_⟩ <;> rw [hcontroller]
  · exact List.Subset.refl _
  · exact fun _ h => .inl h

end Quiet

variable {cfg : DRAMConfig} {s s' : MemorySystem}

/-! ### The quiet parts -/

theorem receiveFromBus_quiet {p : BusPacket} (h : s.receiveFromBus p = .ok s') : Quiet s s' := by
  unfold MemorySystem.receiveFromBus at h
  split_ifs at h
  cases hcallback : p.callback <;> rw [hcallback] at h <;> cases h
  exact { Quiet.refl s with }

theorem updateRank_quiet {i : ℕ} (h : s.updateRank cfg i = .ok s') : Quiet s s' := by
  obtain ⟨r, -, h⟩ := Outcome.bind_eq_ok.mp h
  obtain ⟨⟨arrived, r'⟩, -, h⟩ := Outcome.bind_eq_ok.mp h
  cases arrived with
  | none =>
    cases h
    exact .of_eq rfl rfl
  | some p =>
    have hset : Quiet s { s with ranks := s.ranks.set i r' } := .of_eq rfl rfl
    exact hset.trans (receiveFromBus_quiet h)

theorem accept_quiet (s : MemorySystem) (t : Transaction) : Quiet s (s.accept t) :=
  { Quiet.refl s with }

theorem addTransaction_quiet (s : MemorySystem) (t : Transaction) :
    Quiet s (s.addTransaction cfg t) := by
  unfold addTransaction
  split_ifs
  · exact accept_quiet s t
  · exact .refl s

theorem addRequest_quiet (s : MemorySystem) (isWrite : Bool) (addr : UInt64)
    (callback : CallBackInfo) : Quiet s (s.addRequest cfg isWrite addr callback) := by
  unfold addRequest
  dsimp only
  by_cases haccept : s.willAcceptTransaction cfg = true
  · rw [if_pos haccept]
    exact accept_quiet s _
  · rw [if_neg haccept]
    exact .of_eq rfl rfl

theorem addPending_quiet (s : MemorySystem) : Quiet s (s.addPending cfg) := by
  unfold addPending
  cases s.pendingTransactions with
  | nil => exact .refl s
  | cons t ts =>
    dsimp only
    split_ifs
    · have hpending : Quiet s { s with pendingTransactions := ts } := .of_eq rfl rfl
      exact hpending.trans (accept_quiet _ t)
    · exact .refl s

theorem updateBanks_quiet (s : MemorySystem) : Quiet s (s.updateBanks cfg) :=
  { Quiet.refl s with }

theorem sendWriteData_quiet (h : s.sendWriteData cfg = .ok s') : Quiet s s' := by
  unfold sendWriteData at h
  dsimp only at h
  split_ifs at h
  · cases hwrite : s.controller.writeDataToSend with
    | nil =>
      rw [hwrite] at h
      cases h
    | cons p packets =>
      rw [hwrite] at h
      cases h
      refine { Quiet.refl s with write := ?_, data := ?_ }
      · rw [hwrite]
        exact List.subset_cons_self p packets
      · intro q hq
        cases hq
        rw [hwrite]
        exact .inr List.mem_cons_self
  · cases h
    exact { Quiet.refl s with }

theorem awaitRefresh_quiet {i : ℕ} (h : s.awaitRefresh i = .ok s') : Quiet s s' := by
  obtain ⟨r, -, h⟩ := Outcome.bind_eq_ok.mp h
  cases h
  exact .of_eq rfl rfl

theorem powerDownRank_quiet {i : ℕ} (h : s.powerDownRank cfg i = .ok s') : Quiet s s' := by
  obtain ⟨r, -, h⟩ := Outcome.bind_eq_ok.mp h
  obtain ⟨r', -, h⟩ := Outcome.bind_eq_ok.mp h
  cases h
  exact { Quiet.refl s with }

theorem powerUpRank_quiet {i : ℕ} (h : s.powerUpRank cfg i = .ok s') : Quiet s s' := by
  obtain ⟨r, -, h⟩ := Outcome.bind_eq_ok.mp h
  obtain ⟨r', -, h⟩ := Outcome.bind_eq_ok.mp h
  cases h
  exact { Quiet.refl s with }

theorem managePower_quiet {i : ℕ} (h : s.managePower cfg i = .ok s') : Quiet s s' := by
  unfold managePower at h
  split_ifs at h
  · obtain ⟨empty, -, h⟩ := Outcome.bind_eq_ok.mp h
    obtain ⟨r, -, h⟩ := Outcome.bind_eq_ok.mp h
    obtain ⟨banks, -, h⟩ := Outcome.bind_eq_ok.mp h
    split_ifs at h
    · exact powerDownRank_quiet h
    · cases h
      exact .refl s
    · obtain ⟨b, -, h⟩ := Outcome.bind_eq_ok.mp h
      obtain ⟨down, -, h⟩ := Outcome.bind_eq_ok.mp h
      split_ifs at h
      · exact powerUpRank_quiet h
      · cases h
        exact .refl s
  · cases h
    exact .refl s

/-- A part that is made for every rank. -/
theorem foldlM_quiet {s s' : MemorySystem} {f : MemorySystem → ℕ → Outcome MemorySystem}
    (hf : ∀ s i s', f s i = .ok s' → Quiet s s') {ranks : List ℕ} (h : ranks.foldlM f s = .ok s') :
    Quiet s s' := by
  induction ranks generalizing s with
  | nil =>
    cases h
    exact .refl _
  | cons i ranks ih =>
    rw [List.foldlM_cons] at h
    obtain ⟨s₁, hs₁, h⟩ := Outcome.bind_eq_ok.mp h
    exact (hf s i s₁ hs₁).trans (ih h)

/-! ### The parts that are not quiet -/

/-- The command bus: nothing, or a command arrives at its rank. -/
inductive Moved (s s' : MemorySystem) : Prop
  | still (h : Quiet s s')
  | arrived (p : BusPacket) (hout : s.controller.outgoingCmdPacket = some p)
      (h : Quiet ({ s with controller := { s.controller with
        outgoingCmdPacket := none } }.note (.received p.rank p)) s')

/-- The data bus: nothing, or data arrives at its rank. -/
inductive MovedData (s s' : MemorySystem) : Prop
  | still (h : Quiet s s')
  | arrived (p : BusPacket) (hdata : s.controller.outgoingDataPacket = some p)
      (h : Quiet ((s.note (.writeDataDone p.physicalAddress p.callback)).note
        (.received p.rank p)) s')

/-- The refresh countdowns: nothing, or that of the next rank has run out. -/
inductive Checked (cfg : DRAMConfig) (s s' : MemorySystem) : Prop
  | still (h : Quiet s s')
  | due (hdue : listAt s.controller.refreshCountdown s.controller.refreshRank = .ok 0)
      (h : Quiet ({ s with controller := { s.controller with
        commandQueue := s.controller.commandQueue.needRefresh s.controller.refreshRank
        refreshCountdown := s.controller.refreshCountdown.set s.controller.refreshRank
          cfg.refreshCycles
        refreshRank :=
          if s.controller.refreshRank + 1 = cfg.numRanks then 0
          else s.controller.refreshRank + 1 } }.note (.needRefresh s.controller.refreshRank)) s')

/-- The command queue: nothing, or a popped command goes on the bus. -/
inductive Issued (cfg : DRAMConfig) (s s' : MemorySystem) : Prop
  | still (h : Quiet s s')
  | issued (p : BusPacket) (cq : CommandQueue)
      (hpops : s.controller.commandQueue.Pops cfg s.controller.bankStates (some p) cq)
      (hcommand : p.busPacketType ≠ .data) (hhistory : s'.history = s.history ++ [.issued p])
      (hqueue : s'.controller.commandQueue = cq)
      (hout : s'.controller.outgoingCmdPacket = some p)
      (hwrite : ∀ q ∈ s'.controller.writeDataToSend,
        q ∈ s.controller.writeDataToSend ∨ q.busPacketType = .data)
      (hdata : s'.controller.outgoingDataPacket = s.controller.outgoingDataPacket)

/-- The transactions: nothing, or an activate and a column access enter the command queue. -/
inductive Scheduled (cfg : DRAMConfig) (s s' : MemorySystem) : Prop
  | still (h : Quiet s s')
  | scheduled (t : Transaction) (place : Place) (type : BusPacketType) (cq₁ cq₂ : CommandQueue)
      (hplace : addressMapping cfg t.address = .ok place)
      (htype : t.getBusPacketType cfg = .ok type) {act command : BusPacket}
      (hact : act = BusPacket.new .activate t.address place.column place.row place.rank place.bank
        0 none)
      (hcommand : command = BusPacket.new type t.address place.column place.row place.rank
        place.bank t.data t.callback)
      (hfirst : s.controller.commandQueue.enqueue cfg act = .ok cq₁)
      (hsecond : cq₁.enqueue cfg command = .ok cq₂)
      (h : Quiet ({ s with controller := { s.controller with
        commandQueue := cq₂ } }.note (.scheduled t act command)) s')

/-- Read data: nothing, or one transaction is returned. -/
inductive Returned (s s' : MemorySystem) : Prop
  | still (h : Quiet s s')
  | returned (t : Transaction) (h : Quiet (s.note (.returnReadData t)) s')

theorem deliver_eq {p : BusPacket} (h : s.deliver cfg p = .ok s') :
    ∃ ranks, s' = { s with ranks := ranks, history := s.history ++ [.received p.rank p] } := by
  obtain ⟨r, -, h⟩ := Outcome.bind_eq_ok.mp h
  obtain ⟨r', -, h⟩ := Outcome.bind_eq_ok.mp h
  cases h
  exact ⟨_, rfl⟩

theorem moveCommand_moved (h : s.moveCommand cfg = .ok s') : Moved s s' := by
  unfold moveCommand at h
  cases hout : s.controller.outgoingCmdPacket with
  | none =>
    rw [hout] at h
    cases h
    exact .still (.refl s)
  | some p =>
    rw [hout] at h
    dsimp only at h
    split_ifs at h
    · obtain ⟨s₁, hs₁, h⟩ := Outcome.bind_eq_ok.mp h
      obtain ⟨ranks, rfl⟩ := deliver_eq hs₁
      cases h
      exact .arrived p hout ⟨rfl, rfl, rfl, rfl, rfl, rfl, rfl, rfl, rfl, List.Subset.refl _,
        fun _ h => .inl h⟩
    · cases h
      exact .still ⟨rfl, rfl, rfl, rfl, rfl, rfl, rfl, rfl, rfl, List.Subset.refl _,
        fun _ h => .inl h⟩

theorem moveData_moved (h : s.moveData cfg = .ok s') : MovedData s s' := by
  unfold moveData at h
  cases hout : s.controller.outgoingDataPacket with
  | none =>
    rw [hout] at h
    cases h
    exact .still (.refl s)
  | some p =>
    rw [hout] at h
    dsimp only at h
    split_ifs at h
    · obtain ⟨s₁, hs₁, h⟩ := Outcome.bind_eq_ok.mp h
      obtain ⟨ranks, rfl⟩ := deliver_eq hs₁
      cases h
      exact .arrived p hout ⟨rfl, rfl, rfl, rfl, rfl, rfl, rfl, rfl, rfl, List.Subset.refl _, nofun⟩
    · cases h
      exact .still ⟨rfl, rfl, rfl, rfl, rfl, rfl, rfl, rfl, rfl, List.Subset.refl _,
        fun _ h => .inl h⟩

theorem checkRefresh_checked (h : s.checkRefresh cfg = .ok s') : Checked cfg s s' := by
  obtain ⟨countdown, hcountdown, h⟩ := Outcome.bind_eq_ok.mp h
  by_cases hdue : countdown = 0
  · rw [if_pos hdue] at h
    obtain ⟨s₁, hs₁, h⟩ := Outcome.bind_eq_ok.mp h
    obtain ⟨r, -, hs₁⟩ := Outcome.bind_eq_ok.mp hs₁
    cases hs₁
    cases h
    exact .due (hdue ▸ hcountdown) (.of_eq rfl rfl)
  · rw [if_neg hdue] at h
    obtain ⟨down, -, h⟩ := Outcome.bind_eq_ok.mp h
    split_ifs at h
    · exact .still (awaitRefresh_quiet h)
    · cases h
      exact .still (.refl s)

theorem popCommand_issued (h : s.popCommand cfg = .ok s') : Issued cfg s s' := by
  obtain ⟨⟨found, cq⟩, hpop, h⟩ := Outcome.bind_eq_ok.mp h
  have hpops := CommandQueue.pop_spec hpop
  cases found with
  | none =>
    cases h
    have hsame := hpops.same_of_none
    exact .still ⟨rfl, hsame.queues, hsame.rows, hsame.cells, hsame.refreshWaiting,
      hsame.refreshRank, rfl, rfl, rfl, List.Subset.refl _, fun _ h => .inl h⟩
  | some p =>
    dsimp only at h
    unfold MemorySystem.issue at h
    dsimp only at h
    by_cases hdata : p.busPacketType = .data
    · rw [if_pos hdata] at h
      cases h
    rw [if_neg hdata] at h
    by_cases hbus : s.controller.outgoingCmdPacket ≠ none
    · rw [if_pos hbus] at h
      cases h
    rw [if_neg hbus] at h
    cases h
    refine .issued p cq hpops hdata rfl rfl rfl (fun q hq => ?_) rfl
    change q ∈ ite _ _ _ at hq
    split_ifs at hq
    · rcases List.mem_append.mp hq with hq | hq
      · exact .inl hq
      · cases List.mem_singleton.mp hq
        exact .inr rfl
    · exact .inl hq

theorem firstWithRoom_place {cq : CommandQueue} {i k : ℕ} {ts : List Transaction} {t : Transaction}
    {place : Place} (h : firstWithRoom cfg cq i ts = .ok (some (k, t, place))) :
    addressMapping cfg t.address = .ok place := by
  induction ts generalizing i with
  | nil => cases h
  | cons t' ts ih =>
    obtain ⟨place', hplace, h⟩ := Outcome.bind_eq_ok.mp h
    obtain ⟨room, -, h⟩ := Outcome.bind_eq_ok.mp h
    cases room with
    | true =>
      cases h
      exact hplace
    | false => exact ih h

theorem schedule_scheduled (h : s.schedule cfg = .ok s') : Scheduled cfg s s' := by
  obtain ⟨next, hnext, h⟩ := Outcome.bind_eq_ok.mp h
  cases next with
  | none =>
    cases h
    exact .still (.refl s)
  | some found =>
    obtain ⟨i, t, place⟩ := found
    obtain ⟨type, htype, h⟩ := Outcome.bind_eq_ok.mp h
    obtain ⟨cq₁, hfirst, h⟩ := Outcome.bind_eq_ok.mp h
    obtain ⟨cq₂, hsecond, h⟩ := Outcome.bind_eq_ok.mp h
    cases h
    exact .scheduled t place type cq₁ cq₂ (firstWithRoom_place hnext) htype rfl rfl hfirst hsecond
      ⟨rfl, rfl, rfl, rfl, rfl, rfl, rfl, rfl, rfl, List.Subset.refl _, fun _ h => .inl h⟩

theorem returnData_returned (h : s.returnData cfg = .ok s') : Returned s s' := by
  unfold returnData at h
  dsimp only at h
  cases hreturn : s.controller.returnTransaction with
  | nil =>
    rw [hreturn] at h
    cases h
    exact .still (.refl s)
  | cons r rs =>
    rw [hreturn] at h
    dsimp only at h
    generalize s.controller.pendingReadTransactions.findIdx _ = i at h
    cases hpending : s.controller.pendingReadTransactions[i]? with
    | none =>
      rw [hpending] at h
      cases h
    | some t =>
      rw [hpending] at h
      obtain ⟨place, -, h⟩ := Outcome.bind_eq_ok.mp h
      cases h
      exact .returned t
        ⟨rfl, rfl, rfl, rfl, rfl, rfl, rfl, rfl, rfl, List.Subset.refl _, fun _ h => .inl h⟩

/-! ### Whole updates and steps -/

/-- An update, call by call. -/
theorem update_steps (h : s.update cfg = .ok s') :
    ∃ s₁ s₂ s₃ s₄ s₅ s₆ s₇ s₈ s₉, (List.range cfg.numRanks).foldlM (updateRank cfg) s = .ok s₁ ∧
      ((s₁.addPending cfg).updateBanks cfg).moveCommand cfg = .ok s₂ ∧
      s₂.moveData cfg = .ok s₃ ∧ s₃.sendWriteData cfg = .ok s₄ ∧ s₄.checkRefresh cfg = .ok s₅ ∧
      s₅.popCommand cfg = .ok s₆ ∧ s₆.schedule cfg = .ok s₇ ∧
      (List.range cfg.numRanks).foldlM (managePower cfg) s₇ = .ok s₈ ∧
      s₈.returnData cfg = .ok s₉ ∧ s' = s₉.countDown.stepClocks := by
  obtain ⟨s₁, h₁, h⟩ := Outcome.bind_eq_ok.mp h
  obtain ⟨t, hcontroller, h⟩ := Outcome.bind_eq_ok.mp h
  cases h
  obtain ⟨s₂, h₂, hcontroller⟩ := Outcome.bind_eq_ok.mp hcontroller
  obtain ⟨s₃, h₃, hcontroller⟩ := Outcome.bind_eq_ok.mp hcontroller
  obtain ⟨s₄, h₄, hcontroller⟩ := Outcome.bind_eq_ok.mp hcontroller
  obtain ⟨s₅, h₅, hcontroller⟩ := Outcome.bind_eq_ok.mp hcontroller
  obtain ⟨s₆, h₆, hcontroller⟩ := Outcome.bind_eq_ok.mp hcontroller
  obtain ⟨s₇, h₇, hcontroller⟩ := Outcome.bind_eq_ok.mp hcontroller
  obtain ⟨s₈, h₈, hcontroller⟩ := Outcome.bind_eq_ok.mp hcontroller
  obtain ⟨s₉, h₉, hcontroller⟩ := Outcome.bind_eq_ok.mp hcontroller
  cases hcontroller
  exact ⟨s₁, s₂, s₃, s₄, s₅, s₆, s₇, s₈, s₉, h₁, h₂, h₃, h₄, h₅, h₆, h₇, h₈, h₉, rfl⟩

/-- **An update** is the sequence of its parts. -/
theorem update_parts (h : s.update cfg = .ok s') :
    ∃ s₁ s₂ s₃ s₄ s₅ s₆ s₇ s₈ s₉, Quiet s s₁ ∧ Moved s₁ s₂ ∧ MovedData s₂ s₃ ∧ Quiet s₃ s₄ ∧
      Checked cfg s₄ s₅ ∧ Issued cfg s₅ s₆ ∧ Scheduled cfg s₆ s₇ ∧ Quiet s₇ s₈ ∧ Returned s₈ s₉ ∧
      s' = s₉.countDown.stepClocks := by
  obtain ⟨s₁, s₂, s₃, s₄, s₅, s₆, s₇, s₈, s₉, h₁, h₂, h₃, h₄, h₅, h₆, h₇, h₈, h₉, heq⟩ :=
    update_steps h
  have hfirst : Quiet s s₁ := foldlM_quiet (fun _ _ _ => updateRank_quiet) h₁
  have hpending : Quiet s₁ (s₁.addPending cfg) := addPending_quiet s₁
  have hbanks : Quiet s ((s₁.addPending cfg).updateBanks cfg) :=
    (hfirst.trans hpending).trans (updateBanks_quiet _)
  exact ⟨_, s₂, s₃, s₄, s₅, s₆, s₇, s₈, s₉, hbanks, moveCommand_moved h₂, moveData_moved h₃,
    sendWriteData_quiet h₄, checkRefresh_checked h₅, popCommand_issued h₆, schedule_scheduled h₇,
    foldlM_quiet (fun _ _ _ => managePower_quiet) h₈, returnData_returned h₉, heq⟩

/-! ### What waits to be scheduled -/

/-- The transaction queue, what waits for it, and the clock stay. -/
structure SameArrivals (s s' : MemorySystem) : Prop where
  queue : s'.controller.transactionQueue = s.controller.transactionQueue
  waiting : s'.pendingTransactions = s.pendingTransactions
  clock : s'.controller.currentClockCycle = s.controller.currentClockCycle

namespace SameArrivals

theorem refl (s : MemorySystem) : SameArrivals s s := ⟨rfl, rfl, rfl⟩

theorem trans {s'' : MemorySystem} (h : SameArrivals s s') (h' : SameArrivals s' s'') :
    SameArrivals s s'' :=
  ⟨h'.queue.trans h.queue, h'.waiting.trans h.waiting, h'.clock.trans h.clock⟩

theorem foldlM {f : MemorySystem → ℕ → Outcome MemorySystem}
    (hf : ∀ s i s', f s i = .ok s' → SameArrivals s s') {ranks : List ℕ} {s s' : MemorySystem}
    (h : ranks.foldlM f s = .ok s') : SameArrivals s s' := by
  induction ranks generalizing s with
  | nil =>
    cases h
    exact .refl _
  | cons i ranks ih =>
    rw [List.foldlM_cons] at h
    obtain ⟨s₁, hs₁, h⟩ := Outcome.bind_eq_ok.mp h
    exact (hf s i s₁ hs₁).trans (ih h)

theorem addPending (h : SameArrivals s s') :
    SameArrivals (s.addPending cfg) (s'.addPending cfg) := by
  unfold MemorySystem.addPending
  rw [h.waiting]
  cases s.pendingTransactions with
  | nil => exact h
  | cons t ts =>
    have hwill : s'.willAcceptTransaction cfg = s.willAcceptTransaction cfg := by
      unfold willAcceptTransaction
      rw [h.queue]
    dsimp only
    rw [hwill]
    split_ifs
    · refine ⟨?_, rfl, h.clock⟩
      unfold accept
      dsimp only
      rw [h.queue, h.clock]
    · exact h

end SameArrivals

theorem updateRank_arrivals {i : ℕ} (h : s.updateRank cfg i = .ok s') : SameArrivals s s' := by
  obtain ⟨r, -, h⟩ := Outcome.bind_eq_ok.mp h
  obtain ⟨⟨arrived, r'⟩, -, h⟩ := Outcome.bind_eq_ok.mp h
  cases arrived with
  | none =>
    cases h
    exact ⟨rfl, rfl, rfl⟩
  | some p =>
    dsimp only at h
    unfold MemorySystem.receiveFromBus at h
    split_ifs at h
    cases hcallback : p.callback <;> rw [hcallback] at h <;> cases h
    exact ⟨rfl, rfl, rfl⟩

theorem moveCommand_arrivals (h : s.moveCommand cfg = .ok s') : SameArrivals s s' := by
  unfold moveCommand at h
  cases hout : s.controller.outgoingCmdPacket <;> rw [hout] at h
  · cases h
    exact .refl s
  · dsimp only at h
    split_ifs at h
    · obtain ⟨s₁, hs₁, h⟩ := Outcome.bind_eq_ok.mp h
      obtain ⟨ranks, rfl⟩ := deliver_eq hs₁
      cases h
      exact ⟨rfl, rfl, rfl⟩
    · cases h
      exact ⟨rfl, rfl, rfl⟩

theorem moveData_arrivals (h : s.moveData cfg = .ok s') : SameArrivals s s' := by
  unfold moveData at h
  cases hout : s.controller.outgoingDataPacket <;> rw [hout] at h
  · cases h
    exact .refl s
  · dsimp only at h
    split_ifs at h
    · obtain ⟨s₁, hs₁, h⟩ := Outcome.bind_eq_ok.mp h
      obtain ⟨ranks, rfl⟩ := deliver_eq hs₁
      cases h
      exact ⟨rfl, rfl, rfl⟩
    · cases h
      exact ⟨rfl, rfl, rfl⟩

theorem sendWriteData_arrivals (h : s.sendWriteData cfg = .ok s') : SameArrivals s s' := by
  unfold sendWriteData at h
  dsimp only at h
  split_ifs at h
  · cases hwrite : s.controller.writeDataToSend <;> rw [hwrite] at h <;> cases h
    exact ⟨rfl, rfl, rfl⟩
  · cases h
    exact ⟨rfl, rfl, rfl⟩

theorem awaitRefresh_arrivals {i : ℕ} (h : s.awaitRefresh i = .ok s') : SameArrivals s s' := by
  obtain ⟨r, -, h⟩ := Outcome.bind_eq_ok.mp h
  cases h
  exact ⟨rfl, rfl, rfl⟩

theorem checkRefresh_arrivals (h : s.checkRefresh cfg = .ok s') : SameArrivals s s' := by
  obtain ⟨countdown, -, h⟩ := Outcome.bind_eq_ok.mp h
  by_cases hdue : countdown = 0
  · rw [if_pos hdue] at h
    obtain ⟨s₁, hs₁, h⟩ := Outcome.bind_eq_ok.mp h
    cases h
    exact ⟨rfl, (awaitRefresh_arrivals hs₁).waiting, rfl⟩
  · rw [if_neg hdue] at h
    obtain ⟨down, -, h⟩ := Outcome.bind_eq_ok.mp h
    split_ifs at h
    · exact awaitRefresh_arrivals h
    · cases h
      exact .refl s

theorem popCommand_arrivals (h : s.popCommand cfg = .ok s') : SameArrivals s s' := by
  obtain ⟨⟨found, cq⟩, -, h⟩ := Outcome.bind_eq_ok.mp h
  cases found with
  | none =>
    cases h
    exact ⟨rfl, rfl, rfl⟩
  | some p =>
    dsimp only at h
    unfold MemorySystem.issue at h
    dsimp only at h
    split_ifs at h <;> cases h <;> exact ⟨rfl, rfl, rfl⟩

theorem managePower_arrivals {i : ℕ} (h : s.managePower cfg i = .ok s') : SameArrivals s s' := by
  unfold managePower at h
  split_ifs at h
  · obtain ⟨empty, -, h⟩ := Outcome.bind_eq_ok.mp h
    obtain ⟨r, -, h⟩ := Outcome.bind_eq_ok.mp h
    obtain ⟨banks, -, h⟩ := Outcome.bind_eq_ok.mp h
    split_ifs at h
    · obtain ⟨r₁, -, h⟩ := Outcome.bind_eq_ok.mp h
      obtain ⟨r₂, -, h⟩ := Outcome.bind_eq_ok.mp h
      cases h
      exact ⟨rfl, rfl, rfl⟩
    · cases h
      exact .refl s
    · obtain ⟨b, -, h⟩ := Outcome.bind_eq_ok.mp h
      obtain ⟨down, -, h⟩ := Outcome.bind_eq_ok.mp h
      split_ifs at h
      · obtain ⟨r₁, -, h⟩ := Outcome.bind_eq_ok.mp h
        obtain ⟨r₂, -, h⟩ := Outcome.bind_eq_ok.mp h
        cases h
        exact ⟨rfl, rfl, rfl⟩
      · cases h
        exact .refl s
  · cases h
    exact .refl s

theorem returnData_arrivals (h : s.returnData cfg = .ok s') : SameArrivals s s' := by
  unfold returnData at h
  dsimp only at h
  cases hreturn : s.controller.returnTransaction with
  | nil =>
    rw [hreturn] at h
    cases h
    exact .refl s
  | cons r rs =>
    rw [hreturn] at h
    dsimp only at h
    generalize s.controller.pendingReadTransactions.findIdx _ = i at h
    cases hpending : s.controller.pendingReadTransactions[i]? <;> rw [hpending] at h
    · cases h
    · obtain ⟨place, -, h⟩ := Outcome.bind_eq_ok.mp h
      cases h
      exact ⟨rfl, rfl, rfl⟩

/-- What the parts before the scheduling keep. -/
structure Kept (cfg : DRAMConfig) (I : MemorySystem → Prop) : Prop where
  quiet : ∀ {s s'}, I s → Quiet s s' → I s'
  moved : ∀ {s s'}, I s → Moved s s' → I s'
  movedData : ∀ {s s'}, I s → MovedData s s' → I s'
  checked : ∀ {s s'}, I s → Checked cfg s s' → I s'
  issued : ∀ {s s'}, I s → Issued cfg s s' → I s'

/-- **Only the scheduling** touches what waits: before it an update accepts at most one transaction,
and after it the command queue stays as well. -/
theorem update_arrivals (h : s.update cfg = .ok s') :
    ∃ s₁ s₂, SameArrivals (s.addPending cfg) s₁ ∧ (∀ I, Kept cfg I → I s → I s₁) ∧
      s₁.schedule cfg = .ok s₂ ∧
      s'.controller.transactionQueue = s₂.controller.transactionQueue ∧
      s'.pendingTransactions = s₂.pendingTransactions ∧
      s'.controller.commandQueue.cells = s₂.controller.commandQueue.cells := by
  obtain ⟨s₁, s₂, s₃, s₄, s₅, s₆, s₇, s₈, s₉, h₁, h₂, h₃, h₄, h₅, h₆, h₇, h₈, h₉, rfl⟩ :=
    update_steps h
  have hranks : SameArrivals s s₁ := .foldlM (fun _ _ _ => updateRank_arrivals) h₁
  have hpending : SameArrivals (s.addPending cfg) (s₁.addPending cfg) := hranks.addPending
  have hbanks : SameArrivals (s.addPending cfg) ((s₁.addPending cfg).updateBanks cfg) :=
    ⟨hpending.queue, hpending.waiting, hpending.clock⟩
  have hbefore := ((((hbanks.trans (moveCommand_arrivals h₂)).trans (moveData_arrivals h₃)).trans
    (sendWriteData_arrivals h₄)).trans (checkRefresh_arrivals h₅)).trans (popCommand_arrivals h₆)
  have hpower : SameArrivals s₇ s₈ := .foldlM (fun _ _ _ => managePower_arrivals) h₈
  have hafter := hpower.trans (returnData_arrivals h₉)
  refine ⟨s₆, s₇, hbefore, fun I hI hs => ?_, h₇, hafter.queue, hafter.waiting, ?_⟩
  · have hI₁ : I s₁ := hI.quiet hs (foldlM_quiet (fun _ _ _ => updateRank_quiet) h₁)
    have hadded : I (s₁.addPending cfg) := hI.quiet hI₁ (addPending_quiet s₁)
    have hticked : I ((s₁.addPending cfg).updateBanks cfg) := hI.quiet hadded (updateBanks_quiet _)
    have hmoves : I s₄ := hI.quiet (hI.movedData (hI.moved hticked (moveCommand_moved h₂))
      (moveData_moved h₃)) (sendWriteData_quiet h₄)
    exact hI.issued (hI.checked hmoves (checkRefresh_checked h₅)) (popCommand_issued h₆)
  have hquiet : Quiet s₇ s₈ := foldlM_quiet (fun _ _ _ => managePower_quiet) h₈
  cases returnData_returned h₉ with
  | still hreturn => exact hreturn.cells.trans hquiet.cells
  | returned t hreturn => exact hreturn.cells.trans hquiet.cells

/-- The other calls are quiet. -/
theorem step_quiet {e : MemoryEvent} (he : e ≠ .update) (h : s.step cfg e = .ok s') : Quiet s s' := by
  cases e with
  | addTransaction t =>
    cases h
    exact addTransaction_quiet s t
  | addRequest isWrite addr callback =>
    cases h
    exact addRequest_quiet s isWrite addr callback
  | update => exact absurd rfl he

/-- **The step rule**: what all parts keep, every step of the memory system keeps. -/
theorem step_rule {I : MemorySystem → Prop} (hquiet : ∀ s s', I s → Quiet s s' → I s')
    (hmoved : ∀ s s', I s → Moved s s' → I s') (hdata : ∀ s s', I s → MovedData s s' → I s')
    (hchecked : ∀ s s', I s → Checked cfg s s' → I s')
    (hissued : ∀ s s', I s → Issued cfg s s' → I s')
    (hscheduled : ∀ s s', I s → Scheduled cfg s s' → I s')
    (hreturned : ∀ s s', I s → Returned s s' → I s')
    (hclocks : ∀ s, I s → I s.countDown.stepClocks) {e : MemoryEvent} (hs : I s)
    (h : s.step cfg e = .ok s') : I s' := by
  by_cases he : e = .update
  · subst he
    obtain ⟨s₁, s₂, s₃, s₄, s₅, s₆, s₇, s₈, s₉, h₁, h₂, h₃, h₄, h₅, h₆, h₇, h₈, h₉, rfl⟩ :=
      update_parts h
    refine hclocks s₉ (hreturned s₈ s₉ (hquiet s₇ s₈ (hscheduled s₆ s₇ (hissued s₅ s₆ ?_ h₆) h₇) h₈)
      h₉)
    exact hchecked s₄ s₅ (hquiet s₃ s₄ (hdata s₂ s₃ (hmoved s₁ s₂ (hquiet s s₁ hs h₁) h₂) h₃) h₄) h₅
  · exact hquiet s s' hs (step_quiet he h)

end PIMSim.DDR
