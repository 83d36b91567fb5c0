import PIMSim.DDR.Accounts

/-!
# The depth of the command queues

A transaction is broken up into two commands when the queue of its rank and bank has room for them.
The commands enter the queue of rank 0, since their constructor does not keep a rank. All ranks share
their queues, so that this is the queue that was asked for, and a queue never overflows.

## Main definitions

* `MemorySystem.untilSchedule`: the part of an update before a transaction is scheduled
* `WithinDepth cfg s`: what is scheduled in the state `s` fits, and what does not fit stays

## Main results

* `room_enqueue`: two commands fit a queue that has room for two
* `queues_within_depth`: no run overflows a queue
-/

namespace PIMSim.DDR

open CSharp Transition MemorySystem CommandQueue

/-- The fault of a queue that overflows. -/
abbrev Overflow (e : Fault) : Prop := e = overflow

instance : Foreign Overflow := ⟨by decide⟩

/-- An update, until a transaction is scheduled. -/
def MemorySystem.untilSchedule (cfg : DRAMConfig) (s : MemorySystem) : Outcome MemorySystem := do
  let s ← (List.range cfg.numRanks).foldlM (updateRank cfg) s
  let s ← ((s.addPending cfg).updateBanks cfg).moveCommand cfg
  let s ← s.moveData cfg
  let s ← s.sendWriteData cfg
  let s ← s.checkRefresh cfg
  s.popCommand cfg

/-- An update, after a transaction was scheduled. -/
def MemorySystem.afterSchedule (cfg : DRAMConfig) (s : MemorySystem) : Outcome MemorySystem := do
  let s ← (List.range cfg.numRanks).foldlM (managePower cfg) s
  let s ← s.returnData cfg
  return s.countDown.stepClocks

/-- A transaction whose queue has no room for its commands. -/
def NoRoom (cfg : DRAMConfig) (cq : CommandQueue) (t : Transaction) : Prop :=
  ∃ place, addressMapping cfg t.address = .ok place ∧
    cq.hasRoomFor cfg 2 place.rank place.bank = .ok false

/-- The transaction at place `i` is broken up, and both commands fit its queue. -/
structure BreaksUp (cfg : DRAMConfig) (s s' : MemorySystem) (i : ℕ) (t : Transaction) (place : Place)
    (ref : ℕ) : Prop where
  found : s.controller.transactionQueue[i]? = some t
  mapped : addressMapping cfg t.address = .ok place
  room : s.controller.commandQueue.hasRoomFor cfg 2 place.rank place.bank = .ok true
  queue : s.controller.commandQueue.getCommandQueue cfg place.rank place.bank = .ok ref
  depth : (s.controller.commandQueue.cell ref).length + 2 ≤ cfg.cmdQueueDepth
  entered : ∃ type, t.getBusPacketType cfg = .ok type ∧
    s'.controller.commandQueue.cell ref = s.controller.commandQueue.cell ref ++
      [BusPacket.new .activate t.address place.column place.row place.rank place.bank 0 none,
        BusPacket.new type t.address place.column place.row place.rank place.bank t.data t.callback]
  left : s'.controller.transactionQueue = s.controller.transactionQueue.eraseIdx i

/-- **Scheduling within the depth**: it does not overflow a queue; nothing happens, or a transaction
is broken up into two commands that fit; and a transaction without room stays as it is. -/
structure WithinDepth (cfg : DRAMConfig) (s : MemorySystem) : Prop where
  no_exit : s.schedule cfg ≠ .error overflow
  fits : ∀ s', s.schedule cfg = .ok s' → s' = s ∨ ∃ i t place ref, BreaksUp cfg s s' i t place ref
  stays : ∀ s', s.schedule cfg = .ok s' → ∀ (j : ℕ) (t : Transaction),
    s.controller.transactionQueue[j]? = some t → NoRoom cfg s.controller.commandQueue t →
      ∃ j' : ℕ, j' ≤ j ∧ s'.controller.transactionQueue[j']? = some t

variable {cfg : DRAMConfig} {s s' : MemorySystem} {cq : CommandQueue}

theorem update_eq (cfg : DRAMConfig) (s : MemorySystem) : s.update cfg = (do
    let s ← s.untilSchedule cfg
    let s ← s.schedule cfg
    s.afterSchedule cfg) := by
  unfold MemorySystem.update controllerUpdate untilSchedule afterSchedule
  simp only [bind_assoc, pure_bind]

/-! ### Room for two -/

/-- A queue with room for two commands takes both: that of rank 0 is that of every rank. -/
theorem room_enqueue (h : cq.Built cfg) (hwide : cq.cells.length = cfg.numRanks * cfg.numBankQueues)
    {rank bank : ℕ} (hroom : cq.hasRoomFor cfg 2 rank bank = .ok true) (act command : BusPacket)
    (hact : act.rank = 0 ∧ act.bank = bank) (hcommand : command.rank = 0 ∧ command.bank = bank) :
    ∃ ref cq₁ cq₂, cq.getCommandQueue cfg rank bank = .ok ref ∧ ref < cq.cells.length ∧
      (cq.cell ref).length + 2 ≤ cfg.cmdQueueDepth ∧ cq.enqueue cfg act = .ok cq₁ ∧
      cq₁.enqueue cfg command = .ok cq₂ ∧ cq₂.cell ref = cq.cell ref ++ [act, command] := by
  obtain ⟨ref, href, hroom⟩ := Outcome.bind_eq_ok.mp hroom
  have hdepth : (cq.cell ref).length + 2 ≤ cfg.cmdQueueDepth := by
    have hle := of_decide_eq_true (Except.ok.inj hroom)
    omega
  obtain ⟨-, hlt, hqueue⟩ := h.getCommandQueue.mp href
  have hcell : ref < cq.cells.length := by
    rw [hwide]
    cases hstructure : cfg.queuingStructure <;> rw [hstructure] at hqueue
    · rw [hqueue.2]
      exact hqueue.1
    · have := hqueue.2
      omega
  -- the packets have rank 0, whose queues are those of all ranks
  have hshared : cq.getCommandQueue cfg ((0 : ℕ) : Int) bank = .ok ref :=
    h.getCommandQueue.mpr ⟨le_rfl, by omega, hqueue⟩
  have hfirst : cq.enqueue cfg act = .ok (cq.setCell ref (cq.cell ref ++ [act])) := by
    unfold enqueue
    rw [hact.1, hact.2, hshared, Outcome.ok_bind, if_neg]
    · rfl
    · rw [List.length_append, List.length_singleton]
      omega
  have hself : (cq.setCell ref (cq.cell ref ++ [act])).cell ref = cq.cell ref ++ [act] :=
    cell_setCell_self hcell
  have hsecond : (cq.setCell ref (cq.cell ref ++ [act])).enqueue cfg command =
      .ok ((cq.setCell ref (cq.cell ref ++ [act])).setCell ref (cq.cell ref ++ [act, command])) := by
    unfold enqueue
    rw [hcommand.1, hcommand.2, getCommandQueue_setCell, hshared, Outcome.ok_bind, hself, if_neg]
    · rw [List.append_assoc]
      rfl
    · simp only [List.length_append, List.length_singleton]
      omega
  refine ⟨ref, _, _, href, hcell, hdepth, hfirst, hsecond, ?_⟩
  apply cell_setCell_self
  rw [setCell, List.length_set]
  exact hcell

/-! ### The scheduling -/

/-- A transaction that stays keeps its place, or moves up by one. -/
theorem getElem?_eraseIdx_of_ne {α : Type} {xs : List α} {i j : ℕ} {x : α} (h : xs[j]? = some x)
    (hne : i ≠ j) : ∃ j' : ℕ, j' ≤ j ∧ (xs.eraseIdx i)[j']? = some x := by
  rcases Nat.lt_or_gt_of_ne hne with hlt | hgt
  · refine ⟨j - 1, Nat.sub_le j 1, ?_⟩
    rw [List.getElem?_eraseIdx_of_ge (by omega), Nat.sub_add_cancel (by omega)]
    exact h
  · refine ⟨j, le_rfl, ?_⟩
    rw [List.getElem?_eraseIdx_of_lt hgt]
    exact h

/-- The commands of a transaction with room enter its queue. -/
theorem room_commands (h : Threaded cfg s) {t : Transaction} {place : Place} (type : BusPacketType)
    (hroom : s.controller.commandQueue.hasRoomFor cfg 2 place.rank place.bank = .ok true) :
    ∃ ref cq₁ cq₂,
      s.controller.commandQueue.getCommandQueue cfg place.rank place.bank = .ok ref ∧
      (s.controller.commandQueue.cell ref).length + 2 ≤ cfg.cmdQueueDepth ∧
      s.controller.commandQueue.enqueue cfg (BusPacket.new .activate t.address place.column place.row
        place.rank place.bank 0 none) = .ok cq₁ ∧
      cq₁.enqueue cfg (BusPacket.new type t.address place.column place.row place.rank place.bank
        t.data t.callback) = .ok cq₂ ∧
      cq₂.cell ref = s.controller.commandQueue.cell ref ++
        [BusPacket.new .activate t.address place.column place.row place.rank place.bank 0 none,
          BusPacket.new type t.address place.column place.row place.rank place.bank t.data
            t.callback] := by
  obtain ⟨ref, cq₁, cq₂, href, -, hdepth, hfirst, hsecond, hcell⟩ :=
    room_enqueue h.built h.wide hroom
      (BusPacket.new .activate t.address place.column place.row place.rank place.bank 0 none)
      (BusPacket.new type t.address place.column place.row place.rank place.bank t.data t.callback)
      ⟨rfl, rfl⟩ ⟨rfl, rfl⟩
  exact ⟨ref, cq₁, cq₂, href, hdepth, hfirst, hsecond, hcell⟩

theorem harmless_schedule (h : Threaded cfg s) : Harmless Overflow (s.schedule cfg) := by
  refine (harmless_firstWithRoom _ _ _).bind fun next hnext => ?_
  cases next with
  | none => exact harmless_ok s
  | some found =>
    obtain ⟨i, t, place⟩ := found
    refine (harmless_getBusPacketType t).bind fun type _ => ?_
    obtain ⟨-, -, -, hroom, -⟩ := firstWithRoom_spec hnext
    obtain ⟨ref, cq₁, cq₂, -, -, hfirst, hsecond, -⟩ := room_commands (t := t) h type hroom
    rw [hfirst, Outcome.ok_bind, hsecond, Outcome.ok_bind]
    exact harmless_ok _

theorem schedules_fits (h : Threaded cfg s) (hs' : s.schedule cfg = .ok s') :
    s' = s ∨ ∃ i t place ref, BreaksUp cfg s s' i t place ref := by
  cases schedule_spec hs' with
  | still heq => exact .inl heq
  | @one i t place type cq₁ cq₂ act command hget hroom _ hplace htype hact hcommand hfirst hsecond
      heq =>
    obtain ⟨ref, cq₁', cq₂', href, hdepth, hfirst', hsecond', hcell⟩ :=
      room_commands (t := t) h type hroom
    rw [hact, hfirst', Except.ok.injEq] at hfirst
    subst hfirst
    rw [hcommand, hsecond', Except.ok.injEq] at hsecond
    subst hsecond
    subst heq
    exact .inr ⟨i, t, place, ref, hget, hplace, hroom, href, hdepth, ⟨type, htype, hcell⟩, rfl⟩

theorem withinDepth (h : Threaded cfg s) : WithinDepth cfg s := by
  constructor
  · intro herror
    exact (harmless_schedule h).2 _ herror rfl
  · exact fun s' hs' => schedules_fits h hs'
  · intro s' hs' j t hj hno
    rcases schedules_fits h hs' with heq | ⟨i, t', place, ref, hbreaks⟩
    · exact ⟨j, le_rfl, heq ▸ hj⟩
    · rw [hbreaks.left]
      apply getElem?_eraseIdx_of_ne hj
      rintro rfl
      -- the transaction that is broken up has room
      cases hbreaks.found.symm.trans hj
      obtain ⟨place', hplace', hroom'⟩ := hno
      cases hbreaks.mapped.symm.trans hplace'
      cases hbreaks.room.symm.trans hroom'

/-! ### The parts that overflow no queue -/

theorem Rank.harmless_update (r : Rank) : Harmless Overflow (r.update cfg) := by
  have hcount : Harmless Overflow (r.transfer.2.countDown cfg) := by
    unfold Rank.countDown
    dsimp only
    split_ifs
    · cases r.transfer.2.readReturnPacket with
      | nil => exact harmless_error (by decide)
      | cons p packets => exact harmless_ok _
    · exact harmless_ok _
  exact hcount.bind fun _ _ => harmless_ok _

theorem Rank.harmless_receiveFromBus (r : Rank) (p : BusPacket) :
    Harmless Overflow (r.receiveFromBus cfg p) := by
  have hlater : ∀ r' : Rank, Harmless Overflow (receiveFromBus.returnLater cfg p r') := by
    intro r'
    unfold receiveFromBus.returnLater
    split_ifs
    · exact harmless_error (by decide)
    · exact harmless_ok _
  have hallows : Harmless Overflow (allows r.currentClockCycle p r.bankStates) := by
    unfold allows
    cases p.busPacketType
    case refresh => exact harmless_ok _
    case data => exact harmless_ok _
    all_goals exact (harmless_at _ _).bind fun _ _ => harmless_ok _
  have hbanks : Harmless Overflow (receiveBanks cfg r.currentClockCycle p r.bankStates) := by
    refine hallows.bind fun allowed _ => ?_
    cases allowed with
    | true => exact harmless_ok _
    | false => exact harmless_error (by cases p.busPacketType <;> decide)
  refine hbanks.bind fun bankStates _ => ?_
  cases p.busPacketType <;> dsimp only
  case read => exact hlater _
  case readP => exact hlater _
  case data =>
    split_ifs
    · exact harmless_error (by decide)
    · exact harmless_error (by decide)
    · exact harmless_ok _
  all_goals exact harmless_ok _

theorem harmless_updateRank (s : MemorySystem) (i : ℕ) :
    Harmless Overflow (s.updateRank cfg i) := by
  refine (harmless_at _ _).bind fun r _ => (Rank.harmless_update r).bind fun x _ => ?_
  obtain ⟨arrived, r'⟩ := x
  cases arrived with
  | none => exact harmless_ok _
  | some p =>
    dsimp only
    unfold MemorySystem.receiveFromBus
    split_ifs
    · exact harmless_error (by decide)
    · cases p.callback with
      | none => exact harmless_error (by decide)
      | some callback => exact harmless_ok _

theorem harmless_deliver (s : MemorySystem) (p : BusPacket) :
    Harmless Overflow (s.deliver cfg p) :=
  (harmless_at _ _).bind fun r _ => (Rank.harmless_receiveFromBus r p).bind fun _ _ =>
    harmless_ok _

theorem harmless_moveCommand (s : MemorySystem) : Harmless Overflow (s.moveCommand cfg) := by
  unfold moveCommand
  cases s.controller.outgoingCmdPacket with
  | none => exact harmless_ok s
  | some p =>
    dsimp only
    split_ifs
    · exact (harmless_deliver _ p).bind fun _ _ => harmless_ok _
    · exact harmless_ok _

theorem harmless_moveData (s : MemorySystem) : Harmless Overflow (s.moveData cfg) := by
  unfold moveData
  cases s.controller.outgoingDataPacket with
  | none => exact harmless_ok s
  | some p =>
    dsimp only
    split_ifs
    · exact (harmless_deliver _ p).bind fun _ _ => harmless_ok _
    · exact harmless_ok _

theorem harmless_sendWriteData (s : MemorySystem) : Harmless Overflow (s.sendWriteData cfg) := by
  unfold sendWriteData
  dsimp only
  split_ifs
  · exact harmless_error (by decide)
  · cases s.controller.writeDataToSend with
    | nil => exact harmless_error (by decide)
    | cons p packets => exact harmless_ok _
  · exact harmless_ok _

theorem harmless_awaitRefresh (s : MemorySystem) (i : ℕ) :
    Harmless Overflow (s.awaitRefresh i) :=
  (harmless_at _ _).bind fun _ _ => harmless_ok _

theorem harmless_checkRefresh (s : MemorySystem) : Harmless Overflow (s.checkRefresh cfg) := by
  refine (harmless_at _ _).bind fun countdown _ => ?_
  by_cases hdue : countdown = 0
  · rw [if_pos hdue]
    exact (harmless_awaitRefresh s _).bind fun _ _ => harmless_ok _
  · rw [if_neg hdue]
    refine (harmless_at _ _).bind fun down _ => ?_
    split_ifs
    · exact harmless_awaitRefresh s _
    · exact harmless_ok s

theorem harmless_popCommand (s : MemorySystem) : Harmless Overflow (s.popCommand cfg) := by
  refine (harmless_pop _).bind fun x _ => ?_
  obtain ⟨found, cq⟩ := x
  cases found with
  | none => exact harmless_ok _
  | some p =>
    dsimp only
    unfold MemorySystem.issue
    dsimp only
    split_ifs
    · exact harmless_error (by decide)
    · exact harmless_error (by decide)
    all_goals exact harmless_ok _

theorem harmless_managePower (s : MemorySystem) (i : ℕ) :
    Harmless Overflow (s.managePower cfg i) := by
  unfold managePower
  split_ifs
  · refine (harmless_isEmpty _).bind fun empty _ => (harmless_at _ _).bind fun r _ => ?_
    refine (harmless_at _ _).bind fun banks _ => ?_
    split_ifs
    · refine (harmless_at _ _).bind fun r _ => Harmless.bind ?_ fun _ _ => harmless_ok _
      unfold Rank.powerDown
      split_ifs
      · exact harmless_error (by decide)
      · exact harmless_ok _
    · exact harmless_ok s
    · refine (harmless_at _ _).bind fun b _ => (harmless_at _ _).bind fun down _ => ?_
      split_ifs
      · refine (harmless_at _ _).bind fun r _ => Harmless.bind ?_ fun _ _ => harmless_ok _
        unfold Rank.powerUp
        split_ifs
        · exact harmless_error (by decide)
        · exact harmless_error (by decide)
        · exact harmless_ok _
      · exact harmless_ok s
  · exact harmless_ok s

theorem harmless_returnData (s : MemorySystem) : Harmless Overflow (s.returnData cfg) := by
  unfold returnData
  dsimp only
  cases s.controller.returnTransaction with
  | nil => exact harmless_ok s
  | cons r rs =>
    dsimp only
    split
    · exact harmless_error (by decide)
    · exact (harmless_addressMapping _).bind fun _ _ => harmless_ok _

/-! ### Whole runs -/

/-- A part that is made for every rank keeps the commands threaded. -/
theorem ensures_ranks {f : MemorySystem → ℕ → Outcome MemorySystem}
    (hf : ∀ s i, Harmless Overflow (f s i)) (hquiet : ∀ s i s', f s i = .ok s' → Quiet s s')
    (h : Threaded cfg s) (ranks : List ℕ) : Ensures Overflow (ranks.foldlM f s) (Threaded cfg) :=
  foldlM_ensures (fun s i _ hs => (hf s i).ensures fun s' hs' => hs.quiet (hquiet s i s' hs')) h

/-- **Until a transaction is scheduled**, the commands stay threaded, and no queue overflows. -/
theorem untilSchedule_threaded (h : Threaded cfg s) :
    Ensures Overflow (s.untilSchedule cfg) (Threaded cfg) := by
  have hranks : Ensures Overflow ((List.range cfg.numRanks).foldlM (updateRank cfg) s)
      (Threaded cfg) :=
    ensures_ranks harmless_updateRank (fun _ _ _ => updateRank_quiet) h _
  refine hranks.bind fun s₁ hs₁ => ?_
  have hbanks : Threaded cfg ((s₁.addPending cfg).updateBanks cfg) :=
    (hs₁.quiet (addPending_quiet s₁)).quiet (updateBanks_quiet _)
  refine (harmless_moveCommand _).bind fun s₂ h₂ => (harmless_moveData s₂).bind fun s₃ h₃ => ?_
  have hmoved := (hbanks.moved (moveCommand_moved h₂)).movedData (moveData_moved h₃)
  refine (harmless_sendWriteData s₃).bind fun s₄ h₄ => ?_
  refine (harmless_checkRefresh s₄).bind fun s₅ h₅ => ?_
  have hchecked := (hmoved.quiet (sendWriteData_quiet h₄)).checked (checkRefresh_checked h₅)
  exact (harmless_popCommand s₅).ensures fun s₆ h₆ => hchecked.issued (popCommand_issued h₆)

theorem afterSchedule_threaded (h : Threaded cfg s) :
    Ensures Overflow (s.afterSchedule cfg) (Threaded cfg) := by
  have hranks : Ensures Overflow ((List.range cfg.numRanks).foldlM (managePower cfg) s)
      (Threaded cfg) :=
    ensures_ranks harmless_managePower (fun _ _ _ => managePower_quiet) h _
  refine hranks.bind fun s₁ hs₁ => (harmless_returnData s₁).bind fun s₂ h₂ => ensures_ok ?_
  exact (hs₁.returned (returnData_returned h₂)).countDown.stepClocks

/-- **A step** keeps the commands threaded, and overflows no queue. -/
theorem step_threaded {e : MemoryEvent} (h : Threaded cfg s) :
    Ensures Overflow (s.step cfg e) (Threaded cfg) := by
  cases e with
  | addTransaction t => exact ensures_ok (h.quiet (addTransaction_quiet s t))
  | addRequest isWrite addr callback =>
    exact ensures_ok (h.quiet (addRequest_quiet s isWrite addr callback))
  | update =>
    show Ensures Overflow (s.update cfg) (Threaded cfg)
    rw [update_eq]
    refine (untilSchedule_threaded h).bind fun s₁ hs₁ => ?_
    refine (harmless_schedule hs₁).bind fun s₂ h₂ => ?_
    exact afterSchedule_threaded (hs₁.scheduled (schedule_scheduled h₂))

/-- **The depth of the queues**: no run overflows a command queue, and in every update of a run what
is scheduled fits, and what does not fit stays in the transaction queue. -/
theorem queues_within_depth (cfg : DRAMConfig) (events : List MemoryEvent) :
    exec (MemorySystem.step cfg) (MemorySystem.init cfg) events ≠ .error overflow ∧
      ∀ s s₁, exec (MemorySystem.step cfg) (MemorySystem.init cfg) events = .ok s →
        s.untilSchedule cfg = .ok s₁ → WithinDepth cfg s₁ := by
  have hrun : Ensures Overflow (exec (MemorySystem.step cfg) (MemorySystem.init cfg) events)
      (Threaded cfg) :=
    exec_ensures (fun _ _ => step_threaded) (Threaded.init cfg) events
  constructor
  · intro herror
    exact hrun.2 _ herror rfl
  · intro s s₁ hs hs₁
    exact withinDepth ((untilSchedule_threaded (hrun.1 s hs)).1 s₁ hs₁)

/-- Two ranks: the commands of a read of rank 1 fit the queue that it shares with rank 0. -/
theorem queues_within_depth_twoRanks :
    ∃ s s₁, exec (MemorySystem.step twoRanks) (MemorySystem.init twoRanks)
        [.addTransaction { transactionType := .dataRead, address := 1 }] = .ok s ∧
      s.untilSchedule twoRanks = .ok s₁ ∧ WithinDepth twoRanks s₁ := by
  have huntil : ((((MemorySystem.init twoRanks).addTransaction twoRanks
      { transactionType := .dataRead, address := 1 })).untilSchedule twoRanks).toBool = true := by
    decide +kernel
  cases hs₁ : ((MemorySystem.init twoRanks).addTransaction twoRanks
      { transactionType := .dataRead, address := 1 }).untilSchedule twoRanks with
  | error e =>
    rw [hs₁] at huntil
    cases huntil
  | ok s₁ =>
    refine ⟨_, s₁, rfl, hs₁, ?_⟩
    exact (queues_within_depth twoRanks
      [.addTransaction { transactionType := .dataRead, address := 1 }]).2 _ s₁ rfl hs₁

end PIMSim.DDR
