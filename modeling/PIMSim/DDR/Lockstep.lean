import PIMSim.DDR.Exits
import PIMSim.DDR.Pairing

/-!
# The lockstep of controller and rank

With one rank, and a command bus of one cycle, every command that the controller puts on the bus is
accepted by the rank, and the rank is powered down and up at the right times: no run of the memory
system ends in an exit of the rank, as long as no time wraps around.

## Main definitions

* `Follows`: the table of the rank fits that of the controller, after the command on the bus
* `Steady cfg t s`: the invariant of the runs, at the time `t`
* `Lockstep cfg d s cs r`: the invariant of the memory system `s`, whose controller has the bank table
  `cs` and whose rank is `r`, when the command on the bus arrives at the time `d`

## Main results

* `update_lockstep`: an update keeps the lockstep and does not end in an exit of the rank
* `commands_accepted`: no run ends in an exit of the rank, and the command on the bus is accepted
* `not_accepted_wrapped`: a read at the wrap of the clocks ends in an exit
-/

namespace PIMSim.DDR

open CSharp Transition

/-- The table of the rank fits that of the controller, once the command on the bus has arrived. -/
def Follows (cfg : DRAMConfig) (d : UInt64) (cs us : List BankState) : Option BusPacket → Prop
  | none => InSync cs us
  | some p => ∃ us', Rank.receiveBanks cfg d p us = .ok us' ∧ InSync cs us'

/-- The controller and its rank are in step. -/
structure Lockstep (cfg : DRAMConfig) (d : UInt64) (s : MemorySystem) (cs : List BankState) (r : Rank) :
    Prop where
  ranks : s.ranks = [r]
  banks : s.controller.bankStates = [cs]
  length : cs.length = cfg.numBanks
  sane : ∀ b ∈ cs, Sane cfg b
  follows : Follows cfg d cs r.bankStates s.controller.outgoingCmdPacket
  left : s.controller.outgoingCmdPacket ≠ none → s.controller.cmdCyclesLeft = 1
  flight : s.controller.outgoingCmdPacket ≠ none → r.isPowerDown = false
  power : s.controller.powerDown = [r.isPowerDown]
  up : r.isPowerDown = false → ∀ b ∈ cs, b.currentBankState ≠ .powerDown
  down : r.isPowerDown = true → ∀ b ∈ cs, b.currentBankState = .powerDown ∧
    ∀ u ∈ r.bankStates, u.nextPowerUp = b.nextPowerUp
  queued : Queued cfg cs s.controller.commandQueue
  clock : r.currentClockCycle = s.controller.currentClockCycle
  queueClock : s.controller.commandQueue.currentClockCycle = s.controller.currentClockCycle
  write : ∀ p ∈ s.controller.writeDataToSend, p.busPacketType = .data
  data : ∀ p, s.controller.outgoingDataPacket = some p → p.busPacketType = .data

/-- The memory system is in step, for some tables. -/
def InLockstep (cfg : DRAMConfig) (d : UInt64) (s : MemorySystem) : Prop := ∃ cs r, Lockstep cfg d s cs r

variable {cfg : DRAMConfig} {d : UInt64} {s s' : MemorySystem} {cs us : List BankState} {r r' : Rank}
  {p : BusPacket}

theorem mapBanks_singleton (f : ℕ → ℕ → BankState → BankState) (cs : List BankState) :
    mapBanks f [cs] = [cs.mapIdx (f 0)] := by
  rw [mapBanks, List.mapIdx_singleton]

theorem mapIdx_const (f : BankState → BankState) (cs : List BankState) :
    (cs.mapIdx fun _ s => f s) = cs.map f := by
  apply List.ext_getElem?
  intro j
  rw [List.getElem?_mapIdx, List.getElem?_map]

theorem listAt_singleton {α : Type} {a b : α} {i : ℕ} (h : listAt [a] i = .ok b) :
    i = 0 ∧ b = a := by
  have h := listAt_natCast.mp h
  have hlt := (List.getElem?_eq_some_iff.mp h).1
  rw [List.length_singleton, Nat.lt_one_iff] at hlt
  subst hlt
  cases h
  exact ⟨rfl, rfl⟩

/-- All banks are powered down, or none is. -/
theorem Lockstep.uniform (h : Lockstep cfg d s cs r) :
    ∀ b, cs[0]? = some b → b.currentBankState ≠ .powerDown →
      ∀ b ∈ cs, b.currentBankState ≠ .powerDown := by
  intro b hb hawake
  apply h.up
  cases hpower : r.isPowerDown with
  | false => rfl
  | true => exact absurd (h.down hpower b (List.mem_of_getElem? hb)).1 hawake

/-- The rank may change what its banks, its power state and its clock do not depend on. -/
theorem Lockstep.setRank (h : Lockstep cfg d s cs r) (hkeeps : r.Keeps r') :
    Lockstep cfg d { s with ranks := s.ranks.set 0 r' } cs r' := by
  refine { h with
    ranks := ?_, follows := ?_, flight := ?_, power := ?_, up := ?_, down := ?_, clock := ?_ }
  · change s.ranks.set 0 r' = [r']
    rw [h.ranks, List.set_cons_zero]
  · rw [hkeeps.banks]
    exact h.follows
  · rw [hkeeps.power]
    exact h.flight
  · rw [hkeeps.power]
    exact h.power
  · rw [hkeeps.power]
    exact h.up
  · rw [hkeeps.power, hkeeps.banks]
    exact h.down
  · rw [hkeeps.clock]
    exact h.clock

/-! ### The updates of the rank, and transactions -/

theorem receiveFromBus_lockstep (h : Lockstep cfg d s cs r) :
    Ensures RankExit (s.receiveFromBus p) (InLockstep cfg d) := by
  unfold MemorySystem.receiveFromBus
  split_ifs
  · exact ensures_error (by decide)
  · cases p.callback with
    | none => exact ensures_error not_rankExit_null
    | some callback => exact ensures_ok ⟨cs, r, { h with }⟩

theorem updateRank_lockstep {i : ℕ} (h : InLockstep cfg d s) :
    Ensures RankExit (s.updateRank cfg i) (InLockstep cfg d) := by
  obtain ⟨cs, r, h⟩ := h
  refine (harmless_at _ _).bind fun r₀ hr₀ => ?_
  rw [h.ranks] at hr₀
  obtain ⟨rfl, rfl⟩ := listAt_singleton hr₀
  refine (Rank.update_keeps r₀).bind fun x hkeeps => ?_
  obtain ⟨arrived, r'⟩ := x
  have h' := h.setRank hkeeps
  cases arrived with
  | none => exact ensures_ok ⟨cs, r', h'⟩
  | some p => exact receiveFromBus_lockstep h'

theorem Lockstep.accept (h : Lockstep cfg d s cs r) (t : Transaction) :
    Lockstep cfg d (s.accept t) cs r := { h with }

theorem addTransaction_lockstep (h : InLockstep cfg d s) (t : Transaction) :
    InLockstep cfg d (s.addTransaction cfg t) := by
  obtain ⟨cs, r, h⟩ := h
  unfold MemorySystem.addTransaction
  split_ifs
  · exact ⟨cs, r, h.accept t⟩
  · exact ⟨cs, r, h⟩

theorem addRequest_lockstep (h : InLockstep cfg d s) (isWrite : Bool) (addr : UInt64)
    (callback : CallBackInfo) : InLockstep cfg d (s.addRequest cfg isWrite addr callback) := by
  obtain ⟨cs, r, h⟩ := h
  unfold MemorySystem.addRequest
  dsimp only
  by_cases haccept : s.willAcceptTransaction cfg = true
  · rw [if_pos haccept]
    exact ⟨cs, r, h.accept _⟩
  · rw [if_neg haccept]
    exact ⟨cs, r, { h with }⟩

theorem addPending_lockstep (h : InLockstep cfg d s) : InLockstep cfg d (s.addPending cfg) := by
  obtain ⟨cs, r, h⟩ := h
  unfold MemorySystem.addPending
  cases s.pendingTransactions with
  | nil => exact ⟨cs, r, h⟩
  | cons t ts =>
    dsimp only
    split_ifs
    · have h' : Lockstep cfg d { s with pendingTransactions := ts } cs r := { h with }
      exact ⟨cs, r, h'.accept t⟩
    · exact ⟨cs, r, h⟩

/-! ### The buses -/

theorem tick_down {b : BankState} (hsane : Sane cfg b) (hdown : b.currentBankState = .powerDown) :
    b.tick cfg = b := by
  have := hsane.still (.inr hdown)
  unfold BankState.tick
  rw [if_neg (by omega)]

theorem tick_awake {b : BankState} (hawake : b.currentBankState ≠ .powerDown) :
    (b.tick cfg).currentBankState ≠ .powerDown := by
  obtain ⟨n, hn, -⟩ | ⟨-, hs⟩ := tick_cases cfg b
  · rw [hn]
    exact hawake
  · rw [hs]
    obtain ⟨heq, -⟩ | ⟨-, heq⟩ | ⟨-, heq⟩ :=
      changeState_cases cfg { b with stateChangeCountdown := 0 } <;> rw [heq]
    · exact hawake
    · nofun
    · nofun

theorem Follows.tick (hsane : ∀ b ∈ cs, Sane cfg b) {out : Option BusPacket}
    (h : Follows cfg d cs us out) : Follows cfg d (cs.map (BankState.tick cfg)) us out := by
  cases out with
  | none => exact InSync.tick hsane h
  | some p =>
    obtain ⟨us', hreceive, hsync⟩ := h
    exact ⟨us', hreceive, hsync.tick hsane⟩

theorem updateBanks_lockstep (h : InLockstep cfg d s) : InLockstep cfg d (s.updateBanks cfg) := by
  obtain ⟨cs, r, h⟩ := h
  refine ⟨cs.map (BankState.tick cfg), r, { h with
    banks := ?_, length := ?_, sane := ?_, follows := h.follows.tick h.sane, up := ?_, down := ?_
    queued := h.queued.congr fun q hq => hq.tick }⟩
  · change mapBanks _ s.controller.bankStates = _
    rw [h.banks, mapBanks_singleton, mapIdx_const]
  · rw [List.length_map, h.length]
  · intro b hb
    obtain ⟨b₀, hb₀, rfl⟩ := List.mem_map.mp hb
    exact (h.sane b₀ hb₀).tick
  · intro hpower b hb
    obtain ⟨b₀, hb₀, rfl⟩ := List.mem_map.mp hb
    exact tick_awake (h.up hpower b₀ hb₀)
  · intro hpower b hb
    obtain ⟨b₀, hb₀, rfl⟩ := List.mem_map.mp hb
    have hdown := h.down hpower b₀ hb₀
    rw [tick_down (h.sane b₀ hb₀) hdown.1]
    exact hdown

/-- The command bus is free, and the clock of the controller stands. -/
structure Free (cfg : DRAMConfig) (now : UInt64) (s : MemorySystem) : Prop where
  lockstep : InLockstep cfg (now + 1) s
  free : s.controller.outgoingCmdPacket = none
  now : s.controller.currentClockCycle = now

/-- A free bus does not tell when a command arrives. -/
theorem Lockstep.free (h : Lockstep cfg d s cs r)
    (hfree : s.controller.outgoingCmdPacket = none) :
    Free cfg s.controller.currentClockCycle s := by
  refine ⟨⟨cs, r, { h with follows := ?_ }⟩, hfree, rfl⟩
  have hfollows := h.follows
  rw [hfree] at hfollows ⊢
  exact hfollows

/-- A packet that the banks of the rank accept is delivered. -/
theorem deliver_spec (hranks : s.ranks = [r])
    (hreceive : Rank.receiveBanks cfg r.currentClockCycle p r.bankStates = .ok us) :
    Ensures RankExit (s.deliver cfg p) fun s' =>
      ∃ r', Rank.Keeps { r with bankStates := us } r' ∧
        s' = { s with ranks := [r'], history := s.history ++ [.received p.rank p] } := by
  refine (harmless_at _ _).bind fun r₀ hr₀ => ?_
  rw [hranks] at hr₀
  obtain ⟨hrank, rfl⟩ := listAt_singleton hr₀
  refine (Rank.receiveFromBus_keeps hreceive).bind fun r' hkeeps => ensures_ok ⟨r', hkeeps, ?_⟩
  unfold MemorySystem.note
  rw [hranks, hrank, List.set_cons_zero]

/-- **The command arrives** at the rank, which accepts it. -/
theorem moveCommand_lockstep (h : InLockstep cfg s.controller.currentClockCycle s) :
    Ensures RankExit (s.moveCommand cfg) (Free cfg s.controller.currentClockCycle) := by
  obtain ⟨cs, r, h⟩ := h
  unfold MemorySystem.moveCommand
  cases hout : s.controller.outgoingCmdPacket with
  | none => exact ensures_ok (h.free hout)
  | some p =>
    -- the bus takes one cycle, so the command arrives now
    have hleft : s.controller.cmdCyclesLeft - 1 = 0 := by
      rw [h.left (by rw [hout]; nofun)]
      rfl
    have hfollows := h.follows
    rw [hout] at hfollows
    obtain ⟨us, hreceive, hsync⟩ := hfollows
    rw [← h.clock] at hreceive
    dsimp only
    rw [if_pos hleft]
    refine Ensures.bind (deliver_spec (r := r) h.ranks hreceive) ?_
    rintro s' ⟨r', hkeeps, rfl⟩
    refine ensures_ok ⟨⟨cs, r', ?_⟩, rfl, rfl⟩
    have hpower : r'.isPowerDown = r.isPowerDown := hkeeps.power
    have hawake := h.flight (by rw [hout]; nofun)
    exact {
      ranks := rfl
      banks := h.banks
      length := h.length
      sane := h.sane
      follows := by
        change InSync cs r'.bankStates
        rw [hkeeps.banks]
        exact hsync
      left := fun hnone => absurd rfl hnone
      flight := fun hnone => absurd rfl hnone
      power := by
        rw [hpower]
        exact h.power
      up := by
        rw [hpower]
        exact h.up
      down := fun hdown => by
        rw [hpower, hawake] at hdown
        cases hdown
      queued := h.queued
      clock := hkeeps.clock.trans h.clock
      queueClock := h.queueClock
      write := h.write
      data := h.data }

variable {now : UInt64}

theorem receiveBanks_data (hdata : p.busPacketType = .data) (us : List BankState) :
    Rank.receiveBanks cfg d p us = .ok us := by
  have hkeep : us.mapIdx (Rank.bankAfter cfg d p) = us := by
    apply List.ext_getElem?
    intro j
    rw [List.getElem?_mapIdx]
    cases us[j]? with
    | none => rfl
    | some u =>
      unfold Rank.bankAfter
      rw [hdata]
      rfl
  unfold Rank.receiveBanks Rank.allows
  rw [hdata]
  exact congrArg Except.ok hkeep

/-- Data on the data bus does not change the tables. -/
theorem moveData_lockstep (h : Free cfg now s) :
    Ensures RankExit (s.moveData cfg) (Free cfg now) := by
  obtain ⟨⟨cs, r, h⟩, hfree, hnow⟩ := h
  unfold MemorySystem.moveData
  cases hout : s.controller.outgoingDataPacket with
  | none => exact ensures_ok ⟨⟨cs, r, h⟩, hfree, hnow⟩
  | some p =>
    -- the data arrive, or their countdown goes on
    dsimp only
    split_ifs
    · have hreceive : Rank.receiveBanks cfg r.currentClockCycle p r.bankStates =
          .ok r.bankStates := receiveBanks_data (h.data p hout) r.bankStates
      refine Ensures.bind (deliver_spec (r := r) h.ranks hreceive) ?_
      rintro s' ⟨r', hkeeps, rfl⟩
      refine ensures_ok ⟨⟨cs, r', ?_⟩, hfree, hnow⟩
      have h' : Lockstep cfg (now + 1) { s with ranks := s.ranks.set 0 r' } cs r' :=
        h.setRank ⟨hkeeps.banks, hkeeps.power, hkeeps.clock⟩
      exact { h' with ranks := rfl, data := nofun }
    · exact ensures_ok ⟨⟨cs, r, { h with }⟩, hfree, hnow⟩

theorem sendWriteData_lockstep (h : Free cfg now s) :
    Ensures RankExit (s.sendWriteData cfg) (Free cfg now) := by
  obtain ⟨⟨cs, r, h⟩, hfree, hnow⟩ := h
  unfold MemorySystem.sendWriteData
  dsimp only
  split_ifs
  · -- the bus is taken: the exit is not the rank's
    exact ensures_error (by decide)
  · cases hwrite : s.controller.writeDataToSend with
    | nil => exact ensures_error not_rankExit_range
    | cons p packets =>
      have hall := h.write
      rw [hwrite] at hall
      refine ensures_ok ⟨⟨cs, r, { h with write := ?_, data := ?_ }⟩, hfree, hnow⟩
      · exact fun q hq => hall q (List.mem_cons_of_mem p hq)
      · intro q hq
        cases hq
        exact hall p List.mem_cons_self
  · exact ensures_ok ⟨⟨cs, r, { h with }⟩, hfree, hnow⟩

theorem awaitRefresh_spec (i : ℕ) (hranks : s.ranks = [r]) :
    Ensures RankExit (s.awaitRefresh i) fun s' =>
      ∃ r', r.Keeps r' ∧ s' = { s with ranks := s.ranks.set 0 r' } := by
  refine (harmless_at _ _).bind fun r₀ hr₀ => ?_
  rw [hranks] at hr₀
  obtain ⟨rfl, rfl⟩ := listAt_singleton hr₀
  exact ensures_ok ⟨{ r₀ with refreshWaiting := true }, ⟨rfl, rfl, rfl⟩, rfl⟩

theorem checkRefresh_lockstep (h : Free cfg now s) :
    Ensures RankExit (s.checkRefresh cfg) (Free cfg now) := by
  obtain ⟨⟨cs, r, h⟩, hfree, hnow⟩ := h
  refine (harmless_at _ _).bind fun countdown _ => ?_
  by_cases hdue : countdown = 0
  · rw [if_pos hdue]
    refine (awaitRefresh_spec _ h.ranks).bind ?_
    rintro s' ⟨r', hkeeps, rfl⟩
    have h' := h.setRank hkeeps
    -- only the slot of the queue for a waiting refresh is set
    have hqueued : Queued cfg cs
        (s.controller.commandQueue.needRefresh s.controller.refreshRank) :=
      ⟨⟨h.queued.built.queues, h.queued.built.rows, h.queued.built.placed⟩, h.queued.fits⟩
    exact ensures_ok ⟨⟨cs, r', { h' with queued := hqueued, queueClock := h.queueClock }⟩, hfree,
      hnow⟩
  · rw [if_neg hdue]
    refine (harmless_at _ _).bind fun down _ => ?_
    split_ifs
    · refine (awaitRefresh_spec _ h.ranks).mono ?_
      rintro s' ⟨r', hkeeps, rfl⟩
      exact ⟨⟨cs, r', h.setRank hkeeps⟩, hfree, hnow⟩
    · exact ensures_ok ⟨⟨cs, r, h⟩, hfree, hnow⟩

/-! ### Commands -/

/-- A command does not power a bank down. -/
theorem afterCommand_awake {j : ℕ} {t : UInt64} {b : BankState} (hrank : p.rank = 0)
    (hb : cs[j]? = some b) (hadmitted : Admitted cs t p) (hawake : b.currentBankState ≠ .powerDown) :
    (b.afterCommand cfg t p 0 j).currentBankState ≠ .powerDown := by
  by_cases hrefresh : p.busPacketType = .refresh
  · simp only [BankState.afterCommand, hrefresh, hrank, if_true]
    simp
  -- a command other than a refresh changes its own bank only
  by_cases hj : j = p.bank
  · subst hj
    rw [(afterCommand_own hrank hb hadmitted hrefresh).2]
    split_ifs <;> simp
  · rw [(afterCommand_other hrank hj hrefresh).1]
    exact hawake

/-- The bank of a command is not idle after it. -/
theorem afterCommand_busy {t : UInt64} {b : BankState} (hrank : p.rank = 0)
    (hb : cs[p.bank]? = some b) (hadmitted : Admitted cs t p) :
    (b.afterCommand cfg t p 0 p.bank).currentBankState ≠ .idle := by
  by_cases hrefresh : p.busPacketType = .refresh
  · simp only [BankState.afterCommand, hrefresh, hrank, if_true]
    simp
  · rw [(afterCommand_own hrank hb hadmitted hrefresh).2]
    split_ifs <;> simp

/-- The bank of a command is not powered down. -/
theorem Admitted.awake {t : UInt64} {b : BankState} (h : Admitted cs t p) (hb : cs[p.bank]? = some b) :
    b.currentBankState ≠ .powerDown := by
  unfold Admitted at h
  cases htype : p.busPacketType <;> rw [htype] at h <;> dsimp only at h
  case activate =>
    obtain ⟨b', hb', hstate, -⟩ := h
    cases hb.symm.trans hb'
    rcases hstate with hstate | hstate <;> rw [hstate] <;> nofun
  case refresh => exact (h b (List.mem_of_getElem? hb)).2.1
  all_goals
    obtain ⟨b', hb', hopen, -⟩ := h
    cases hb.symm.trans hb'
    exact hopen.not_down

/-- While a command is on the bus some bank is not idle, and the rank is not powered down. -/
structure Busy (cfg : DRAMConfig) (now : UInt64) (s : MemorySystem) (cs : List BankState) (r : Rank) :
    Prop where
  lockstep : Lockstep cfg (now + 1) s cs r
  busy : s.controller.outgoingCmdPacket ≠ none → ∃ b ∈ cs, b.currentBankState ≠ .idle
  now : s.controller.currentClockCycle = now

/-- **A command goes on the bus** that was tested as the rank will test it. -/
theorem issue_lockstep (hcmd : cfg.tCMD = 1) (hwrap : BelowWrap cfg (now.toNat + 1))
    (h : Lockstep cfg (now + 1) s cs r)
    (hfree : s.controller.outgoingCmdPacket = none) (hnow : s.controller.currentClockCycle = now)
    {cq : CommandQueue} (hpopped : Popped cfg cs now p cq) (hclock : cq.currentClockCycle = now) :
    Ensures RankExit
      (MemorySystem.issue cfg { s with controller := { s.controller with commandQueue := cq } } p)
      fun s' => ∃ cs r, Busy cfg now s' cs r := by
  obtain ⟨hrank, ⟨b, hb⟩, hadmitted, hauto, hqueued⟩ := hpopped
  -- In a rank that is powered down every bank is, and the command's bank is not.
  have hpower : r.isPowerDown = false := by
    cases hpower : r.isPowerDown with
    | false => rfl
    | true =>
      exact absurd (h.down hpower b (List.mem_of_getElem? hb)).1 (hadmitted.awake hb)
  have hsync : InSync cs r.bankStates := by
    have hfollows := h.follows
    rw [hfree] at hfollows
    exact hfollows
  have hmem : ∀ b' ∈ cs.mapIdx (fun j b => b.afterCommand cfg now p 0 j), ∃ j, ∃ b : BankState,
      cs[j]? = some b ∧ b' = b.afterCommand cfg now p 0 j := by
    intro b' hb'
    obtain ⟨j, hj⟩ := List.getElem?_of_mem hb'
    rw [List.getElem?_mapIdx] at hj
    obtain ⟨b, hb, rfl⟩ := Option.map_eq_some_iff.mp hj
    exact ⟨j, b, hb, rfl⟩
  unfold MemorySystem.issue
  dsimp only
  by_cases hdata : p.busPacketType = .data
  · rw [if_pos hdata]
    exact ensures_error (by decide)
  rw [if_neg hdata, if_neg (not_not.mpr hfree)]
  refine ensures_ok ⟨cs.mapIdx fun j b => b.afterCommand cfg now p 0 j, r, ?_, fun _ => ?_, hnow⟩
  · -- The controller changes its table now, and the rank will change its own when the command
    -- arrives.
    exact {
      ranks := h.ranks
      banks := by
        change mapBanks (fun i j b => b.afterCommand cfg s.controller.currentClockCycle p i j)
          s.controller.bankStates = _
        rw [h.banks, mapBanks_singleton, hnow]
      length := by rw [List.length_mapIdx, h.length]
      sane := fun b' hb' => by
        obtain ⟨j, b, hb, rfl⟩ := hmem b' hb'
        exact (h.sane b (List.mem_of_getElem? hb)).afterCommand hrank hb hadmitted hauto
      follows := hsync.issue hwrap hrank hadmitted
      left := fun _ => hcmd
      flight := fun _ => hpower
      power := h.power
      up := fun _ b' hb' => by
        obtain ⟨j, b, hb, rfl⟩ := hmem b' hb'
        exact afterCommand_awake hrank hb hadmitted (h.up hpower b (List.mem_of_getElem? hb))
      down := fun hdown => by
        rw [hpower] at hdown
        cases hdown
      queued := hqueued
      clock := h.clock
      queueClock := hclock.trans hnow.symm
      write := fun q hq => by
        change q ∈ ite _ _ _ at hq
        split_ifs at hq
        · rcases List.mem_append.mp hq with hq | hq
          · exact h.write q hq
          · cases List.mem_singleton.mp hq
            rfl
        · exact h.write q hq
      data := h.data }
  · refine ⟨b.afterCommand cfg now p 0 p.bank, ?_, afterCommand_busy hrank hb hadmitted⟩
    apply List.mem_of_getElem? (i := p.bank)
    rw [List.getElem?_mapIdx, hb]
    rfl

theorem popCommand_lockstep (hcmd : cfg.tCMD = 1) (hwrap : BelowWrap cfg (now.toNat + 1))
    (h : Free cfg now s) :
    Ensures RankExit (s.popCommand cfg) fun s' => ∃ cs r, Busy cfg now s' cs r := by
  obtain ⟨⟨cs, r, h⟩, hfree, hnow⟩ := h
  refine (CommandQueue.harmless_pop _).bind fun x hpop => ?_
  obtain ⟨found, cq⟩ := x
  have hpops := CommandQueue.pop_spec hpop
  rw [h.banks] at hpops
  cases found with
  | none =>
    have hsame := hpops.same_of_none
    refine ensures_ok ⟨cs, r, { h with queued := ?_, queueClock := ?_ }, ?_, hnow⟩
    · exact h.queued.same hsame
    · exact hsame.clock.trans h.queueClock
    · exact fun hbus => absurd hfree hbus
  -- the queue tests with the controller's table, at the controller's clock
  | some p =>
    have hpopped := h.queued.pops h.length h.sane h.uniform hpops
    rw [h.queueClock, hnow] at hpopped
    exact issue_lockstep hcmd hwrap h hfree hnow hpopped (hpops.clock.trans (h.queueClock.trans hnow))

/-! ### Transactions and power -/

theorem getBusPacketType_column {t : Transaction} {type : BusPacketType}
    (h : t.getBusPacketType cfg = .ok type) :
    if cfg.rowBufferPolicy = .closePage then type = .readP ∨ type = .writeP
      else type ≠ .readP ∧ type ≠ .writeP := by
  unfold Transaction.getBusPacketType at h
  cases htype : t.transactionType <;> cases hpolicy : cfg.rowBufferPolicy <;>
    rw [htype, hpolicy] at h <;> cases h
  · exact ⟨nofun, nofun⟩
  · exact .inl rfl
  · exact ⟨nofun, nofun⟩
  · exact .inr rfl

theorem enqueue_clock {cq cq' : CommandQueue} (h : cq.enqueue cfg p = .ok cq') :
    cq'.currentClockCycle = cq.currentClockCycle := by
  obtain ⟨ref, -, -, rfl⟩ := CommandQueue.enqueue_eq_ok h
  rfl

/-- A transaction enters its queue as an activate and a column access. -/
theorem schedule_lockstep (h : Busy cfg now s cs r) :
    Ensures RankExit (s.schedule cfg) fun s' => Busy cfg now s' cs r := by
  obtain ⟨h, hbusy, hnow⟩ := h
  refine (harmless_firstWithRoom _ _ _).bind fun next _ => ?_
  cases next with
  | none => exact ensures_ok ⟨h, hbusy, hnow⟩
  | some found =>
    obtain ⟨i, t, place⟩ := found
    refine (harmless_getBusPacketType t).bind fun type htype => ?_
    refine (CommandQueue.harmless_enqueue (by decide) _).bind fun cq₁ hfirst => ?_
    refine (CommandQueue.harmless_enqueue (by decide) _).bind fun cq₂ hsecond => ensures_ok ?_
    have hcolumn := getBusPacketType_column htype
    refine ⟨{ h with queued := ?_, queueClock := ?_ }, hbusy, hnow⟩
    · refine h.queued.enqueue ?_ ?_ ?_ ?_ ?_ ?_ hfirst hsecond
      · rfl
      · exact hcolumn
      all_goals rfl
    · exact ((enqueue_clock hsecond).trans (enqueue_clock hfirst)).trans h.queueClock

/-- A command is on the bus, or the tables fit. -/
theorem Lockstep.sync (h : Lockstep cfg d s cs r)
    (hfree : s.controller.outgoingCmdPacket = none) : InSync cs r.bankStates := by
  have hfollows := h.follows
  rw [hfree] at hfollows
  exact hfollows

/-- The change of the power state of all banks: `f` in the table of the controller, and `g` in that of
the rank. -/
theorem Lockstep.setPower (h : Lockstep cfg d s cs r)
    (hfree : s.controller.outgoingCmdPacket = none)
    (hclosed : ∀ b ∈ cs, b.currentBankState ≠ .rowActive) (down : Bool)
    (f g : BankState → BankState) (hsane : ∀ b ∈ cs, Sane cfg (f b))
    (hsync : ∀ b u, Sync b u → Sync (f b) (g u))
    (hstate : ∀ b, (f b).currentBankState = if down then .powerDown else .idle)
    (hnext : ∀ b u, down = true → (g u).nextPowerUp = (f b).nextPowerUp) :
    Lockstep cfg d
      { s with
        ranks := [{ r with isPowerDown := down, bankStates := r.bankStates.map g }]
        controller := { s.controller with powerDown := [down], bankStates := [cs.map f] } }
      (cs.map f) { r with isPowerDown := down, bankStates := r.bankStates.map g } := by
  -- No command is in flight, so that the two tables are in step themselves, and stay so bank by
  -- bank.
  exact {
    ranks := rfl
    banks := rfl
    length := by rw [List.length_map, h.length]
    sane := fun b hb => by
      obtain ⟨b₀, hb₀, rfl⟩ := List.mem_map.mp hb
      exact hsane b₀ hb₀
    follows := by
      have hmap := (h.sync hfree).mapIdx (f := fun _ => f) (g := fun _ => g)
        fun _ b u _ => hsync b u
      rw [mapIdx_const, mapIdx_const] at hmap
      change Follows cfg d _ _ s.controller.outgoingCmdPacket
      rw [hfree]
      exact hmap
    left := h.left
    flight := fun hbus => absurd hfree hbus
    power := rfl
    up := fun hdown b hb => by
      obtain ⟨b₀, -, rfl⟩ := List.mem_map.mp hb
      have hdown : down = false := hdown
      rw [hstate, hdown]
      nofun
    down := fun hdown b hb => by
      obtain ⟨b₀, -, rfl⟩ := List.mem_map.mp hb
      have hdown : down = true := hdown
      refine ⟨by rw [hstate, hdown]; rfl, fun u hu => ?_⟩
      obtain ⟨u₀, -, rfl⟩ := List.mem_map.mp hu
      exact hnext b₀ u₀ hdown
    queued := by
      apply h.queued.congr
      rintro q ⟨b, hb, hactive, -⟩
      exact absurd hactive (hclosed b (List.mem_of_getElem? hb))
    clock := h.clock
    queueClock := h.queueClock
    write := h.write
    data := h.data }

/-- **The rank is powered down** when all of its banks are idle. -/
theorem powerDownRank_lockstep (h : Busy cfg now s cs r)
    (hidle : ∀ b ∈ cs, b.currentBankState = .idle) :
    Ensures RankExit (s.powerDownRank cfg 0) fun s' => ∃ cs r, Busy cfg now s' cs r := by
  obtain ⟨h, hbusy, hnow⟩ := h
  -- a command on the bus would keep some bank busy
  have hfree : s.controller.outgoingCmdPacket = none := by
    by_contra hbus
    obtain ⟨b, hb, hstate⟩ := hbusy hbus
    exact hstate (hidle b hb)
  have hsync := h.sync hfree
  -- the banks of the rank are idle too
  have hrank : ¬(r.bankStates.any fun u => decide (u.currentBankState ≠ .idle)) = true := by
    intro hany
    obtain ⟨u, hu, hstate⟩ := List.any_eq_true.mp hany
    obtain ⟨j, hj⟩ := List.getElem?_of_mem hu
    have hlt := (List.getElem?_eq_some_iff.mp hj).1
    rw [hsync.1] at hlt
    have hb := hidle cs[j] (List.getElem_mem hlt)
    refine of_decide_eq_true hstate ?_
    refine (hsync.2 j cs[j] u (List.getElem?_eq_getElem hlt) hj).closed (fun hopen => ?_) ?_
    · cases hopen.1.symm.trans hb
    · rw [hb]
      nofun
  refine (harmless_at _ _).bind fun r₀ hr₀ => ?_
  rw [h.ranks] at hr₀
  obtain ⟨-, rfl⟩ := listAt_singleton hr₀
  unfold Rank.powerDown
  rw [if_neg hrank, pure_bind]
  dsimp only
  rw [h.banks, h.power, h.ranks, mapBanks_singleton]
  simp only [if_true, List.set_cons_zero]
  rw [mapIdx_const]
  have hset := h.setPower hfree (fun b hb => by rw [hidle b hb]; nofun) true
    (fun b => { b with
      currentBankState := .powerDown
      nextPowerUp := s.controller.currentClockCycle + cfg.tCKE.toUInt64 })
    (fun u => { u with
      currentBankState := .powerDown
      nextPowerUp := r₀.currentClockCycle + cfg.tCKE.toUInt64 })
    (fun b hb => ?_) ?_ (fun _ => rfl) ?_
  · exact ensures_ok ⟨_, _, hset, fun hbus => absurd hfree hbus, hnow⟩
  · have hsane := h.sane b hb
    exact ⟨fun _ => hsane.still (.inl (hidle b hb)), nofun, hsane.auto⟩
  · intro b u hbu
    exact ⟨hbu.activate, fun _ hdown => absurd rfl hdown, fun _ => rfl,
      fun hopen => nomatch hopen.1⟩
  · intro b u _
    change r₀.currentClockCycle + cfg.tCKE.toUInt64 = s.controller.currentClockCycle + cfg.tCKE.toUInt64
    rw [h.clock]

/-- **The rank is powered up** after the least time of the power-down. -/
theorem powerUpRank_lockstep (h : Busy cfg now s cs r) (hdown : r.isPowerDown = true)
    (htime : ∀ b, cs[0]? = some b → b.nextPowerUp ≤ now) (hbank : ∃ b, cs[0]? = some b) :
    Ensures RankExit (s.powerUpRank cfg 0) fun s' => ∃ cs r, Busy cfg now s' cs r := by
  obtain ⟨h, hbusy, hnow⟩ := h
  -- no command is on the bus of a rank that is powered down
  have hfree : s.controller.outgoingCmdPacket = none := by
    by_contra hbus
    have hawake := h.flight hbus
    rw [hdown] at hawake
    cases hawake
  have hbanks := h.down hdown
  -- all banks of the rank may be powered up since the first of the controller may
  have hearly : ¬(r.bankStates.any fun u => decide (r.currentClockCycle < u.nextPowerUp)) = true := by
    intro hany
    obtain ⟨u, hu, hlt⟩ := List.any_eq_true.mp hany
    obtain ⟨b, hb⟩ := hbank
    have hnext := (hbanks b (List.mem_of_getElem? hb)).2 u hu
    have hlt : r.currentClockCycle < u.nextPowerUp := of_decide_eq_true hlt
    rw [hnext, h.clock, hnow] at hlt
    exact UInt64.not_lt.mpr (htime b hb) hlt
  refine (harmless_at _ _).bind fun r₀ hr₀ => ?_
  rw [h.ranks] at hr₀
  obtain ⟨-, rfl⟩ := listAt_singleton hr₀
  unfold Rank.powerUp
  rw [if_neg (by rw [hdown]; nofun), if_neg hearly, pure_bind]
  dsimp only
  rw [h.banks, h.power, h.ranks, mapBanks_singleton]
  simp only [if_true, List.set_cons_zero]
  rw [mapIdx_const]
  have hset := h.setPower hfree (fun b hb => by rw [(hbanks b hb).1]; nofun) false
    (fun b => { b with
      currentBankState := .idle
      nextActivate := s.controller.currentClockCycle + cfg.tXP.toUInt64 })
    (fun u => { u with
      nextActivate := r₀.currentClockCycle + cfg.tXP.toUInt64
      currentBankState := .idle })
    (fun b hb => ?_) ?_ (fun _ => rfl) ?_
  · exact ensures_ok ⟨_, _, hset, fun hbus => absurd hfree hbus, hnow⟩
  · have hsane := h.sane b hb
    exact ⟨fun _ => hsane.still (.inr (hbanks b hb).1), nofun, hsane.auto⟩
  · intro b u hbu
    refine sync_of_closed ?_ (fun hopen => nomatch hopen.1) nofun rfl
    change (r₀.currentClockCycle + cfg.tXP.toUInt64).toNat ≤
      (s.controller.currentClockCycle + cfg.tXP.toUInt64).toNat + 1
    rw [h.clock]
    exact Nat.le_succ _
  · intro b u hfalse
    cases hfalse

theorem managePower_lockstep {i : ℕ} (hi : i = 0) (h : ∃ cs r, Busy cfg now s cs r) :
    Ensures RankExit (s.managePower cfg i) fun s' => ∃ cs r, Busy cfg now s' cs r := by
  subst hi
  obtain ⟨cs, r, h⟩ := h
  unfold MemorySystem.managePower
  by_cases hlow : cfg.useLowPower = true
  · rw [if_pos hlow]
    refine (CommandQueue.harmless_isEmpty _).bind fun empty _ => ?_
    refine (harmless_at _ _).bind fun r₀ hr₀ => ?_
    rw [h.lockstep.ranks] at hr₀
    obtain ⟨-, rfl⟩ := listAt_singleton hr₀
    refine (harmless_at _ _).bind fun banks hbanks => ?_
    rw [h.lockstep.banks] at hbanks
    obtain ⟨-, rfl⟩ := listAt_singleton hbanks
    -- with nothing queued and no refresh waiting the rank is powered down, else it is powered up
    by_cases hidle : empty = true ∧ r₀.refreshWaiting = false
    · rw [if_pos hidle]
      split_ifs with hall
      · refine powerDownRank_lockstep h fun b hb => ?_
        exact of_decide_eq_true (List.all_eq_true.mp hall b hb)
      · exact ensures_ok ⟨banks, r₀, h⟩
    · rw [if_neg hidle]
      refine (harmless_at _ _).bind fun b hb => ?_
      refine (harmless_at _ _).bind fun down hdown => ?_
      rw [h.lockstep.power] at hdown
      obtain ⟨-, rfl⟩ := listAt_singleton hdown
      have hb : banks[0]? = some b := listAt_natCast.mp hb
      split_ifs with hup
      · refine powerUpRank_lockstep h hup.2 (fun b' hb' => ?_) ⟨b, hb⟩
        cases hb.symm.trans hb'
        rw [← h.now]
        exact hup.1
      · exact ensures_ok ⟨banks, r₀, h⟩
  · rw [if_neg hlow]
    exact ensures_ok ⟨cs, r, h⟩

theorem returnData_lockstep (h : ∃ cs r, Busy cfg now s cs r) :
    Ensures RankExit (s.returnData cfg) fun s' => ∃ cs r, Busy cfg now s' cs r := by
  obtain ⟨cs, r, h, hbusy, hnow⟩ := h
  unfold MemorySystem.returnData
  dsimp only
  cases s.controller.returnTransaction with
  | nil => exact ensures_ok ⟨cs, r, h, hbusy, hnow⟩
  | cons t ts =>
    dsimp only
    -- which transaction returns does not matter to the tables
    generalize s.controller.pendingReadTransactions.findIdx _ = i
    cases s.controller.pendingReadTransactions[i]? with
    | none => exact ensures_error (by decide)
    | some t' =>
      refine (harmless_addressMapping t.address).bind fun _ _ => ensures_ok ?_
      exact ⟨cs, r, { h with }, hbusy, hnow⟩

/-! ### Whole updates and runs -/

/-- The clocks of the queue, of the rank and of the controller. -/
theorem Busy.step (h : Busy cfg now s cs r) :
    InLockstep cfg (now + 1) s.countDown.stepClocks ∧
      s.countDown.stepClocks.controller.currentClockCycle = now + 1 := by
  obtain ⟨h, -, hnow⟩ := h
  refine ⟨⟨cs, r.step, { h with
    ranks := ?_
    queued := ⟨⟨h.queued.built.queues, h.queued.built.rows, h.queued.built.placed⟩, h.queued.fits⟩
    clock := congrArg (· + 1) h.clock
    queueClock := congrArg (· + 1) h.queueClock }⟩, congrArg (· + 1) hnow⟩
  change s.ranks.map Rank.step = [r.step]
  rw [h.ranks]
  rfl

/-- The invariant of the runs at the time `t`: the command on the bus arrives in the next update. -/
structure Steady (cfg : DRAMConfig) (t : UInt64) (s : MemorySystem) : Prop where
  lockstep : InLockstep cfg t s
  clock : s.controller.currentClockCycle = t

variable {t : UInt64}

/-- **The controller** puts a command on the bus that arrives in the next cycle. -/
theorem controllerUpdate_lockstep (hranks : cfg.numRanks = 1) (hcmd : cfg.tCMD = 1)
    (hwrap : BelowWrap cfg (t.toNat + 1)) (h : Steady cfg t s) :
    Ensures RankExit (s.controllerUpdate cfg) fun s' => Steady cfg (t + 1) s'.stepClocks := by
  -- The stages one after the other; behind the command's arrival the bus is free, and may be taken
  -- again.
  obtain ⟨h, rfl⟩ := h
  have hticked : InLockstep cfg (s.updateBanks cfg).controller.currentClockCycle
      (s.updateBanks cfg) := updateBanks_lockstep h
  unfold MemorySystem.controllerUpdate
  refine (moveCommand_lockstep hticked).bind fun s₁ h₁ => ?_
  refine (moveData_lockstep h₁).bind fun s₂ h₂ => ?_
  refine (sendWriteData_lockstep h₂).bind fun s₃ h₃ => ?_
  refine (checkRefresh_lockstep h₃).bind fun s₄ h₄ => ?_
  refine (popCommand_lockstep hcmd hwrap h₄).bind fun s₅ h₅ => ?_
  obtain ⟨cs, r, h₅⟩ := h₅
  refine (schedule_lockstep h₅).bind fun s₆ h₆ => ?_
  have hpower : Ensures RankExit
      ((List.range cfg.numRanks).foldlM (MemorySystem.managePower cfg) s₆)
      fun s' => ∃ cs r, Busy cfg s.controller.currentClockCycle s' cs r :=
    foldlM_ensures (fun s' i hi hs => ?_) ⟨cs, r, h₆⟩
  · refine hpower.bind fun s₇ h₇ => ?_
    refine (returnData_lockstep h₇).bind fun s₈ h₈ => ensures_ok ?_
    obtain ⟨cs, r, h₈⟩ := h₈
    exact ⟨h₈.step.1, h₈.step.2⟩
  · rw [hranks] at hi
    exact managePower_lockstep (List.mem_singleton.mp hi) hs

theorem accept_clock (s : MemorySystem) (t : Transaction) :
    (s.accept t).controller.currentClockCycle = s.controller.currentClockCycle := rfl

theorem addPending_clock (s : MemorySystem) :
    (s.addPending cfg).controller.currentClockCycle = s.controller.currentClockCycle := by
  unfold MemorySystem.addPending
  cases s.pendingTransactions with
  | nil => rfl
  | cons t ts =>
    dsimp only
    split_ifs <;> rfl

theorem receiveFromBus_clock (h : s.receiveFromBus p = .ok s') :
    s'.controller.currentClockCycle = s.controller.currentClockCycle := by
  unfold MemorySystem.receiveFromBus at h
  split_ifs at h
  cases hcallback : p.callback <;> rw [hcallback] at h <;> cases h
  rfl

theorem updateRank_clock {i : ℕ} (h : s.updateRank cfg i = .ok s') :
    s'.controller.currentClockCycle = s.controller.currentClockCycle := by
  obtain ⟨r, -, h⟩ := Outcome.bind_eq_ok.mp h
  obtain ⟨⟨arrived, r'⟩, -, h⟩ := Outcome.bind_eq_ok.mp h
  cases arrived with
  | none =>
    cases h
    rfl
  | some p => exact receiveFromBus_clock (s := { s with ranks := s.ranks.set i r' }) h

/-- **An update** keeps the lockstep. -/
theorem update_lockstep (hranks : cfg.numRanks = 1) (hcmd : cfg.tCMD = 1)
    (hwrap : BelowWrap cfg (t.toNat + 1)) (h : Steady cfg t s) :
    Ensures RankExit (s.update cfg) (Steady cfg (t + 1)) := by
  -- first the ranks, then one pending transaction, then the controller
  have hrank : ∀ s' : MemorySystem, ∀ i ∈ List.range cfg.numRanks, Steady cfg t s' →
      Ensures RankExit (s'.updateRank cfg i) (Steady cfg t) := by
    intro s' i _ h
    have hupdate := updateRank_lockstep (i := i) h.lockstep
    exact ⟨fun s'' hs'' => ⟨hupdate.1 s'' hs'', (updateRank_clock hs'').trans h.clock⟩, hupdate.2⟩
  unfold MemorySystem.update
  refine (foldlM_ensures hrank h).bind fun s₁ h₁ => ?_
  have hpending : Steady cfg t (s₁.addPending cfg) :=
    ⟨addPending_lockstep h₁.lockstep, (addPending_clock s₁).trans h₁.clock⟩
  exact (controllerUpdate_lockstep hranks hcmd hwrap hpending).bind fun s₂ h₂ => ensures_ok h₂

theorem addTransaction_steady (h : Steady cfg t s) (transaction : Transaction) :
    Steady cfg t (s.addTransaction cfg transaction) := by
  refine ⟨addTransaction_lockstep h.lockstep transaction, Eq.trans ?_ h.clock⟩
  unfold MemorySystem.addTransaction
  split_ifs <;> rfl

theorem addRequest_steady (h : Steady cfg t s) (isWrite : Bool) (addr : UInt64)
    (callback : CallBackInfo) : Steady cfg t (s.addRequest cfg isWrite addr callback) := by
  refine ⟨addRequest_lockstep h.lockstep isWrite addr callback, Eq.trans ?_ h.clock⟩
  unfold MemorySystem.addRequest
  dsimp only
  by_cases haccept : s.willAcceptTransaction cfg = true
  · rw [if_pos haccept, accept_clock]
  · rw [if_neg haccept]

/-- **The lockstep of a run**, as long as no time wraps around. -/
theorem run_lockstep (hranks : cfg.numRanks = 1) (hcmd : cfg.tCMD = 1) (events : List MemoryEvent) :
    ∀ {t : UInt64} {s : MemorySystem}, Steady cfg t s →
      BelowWrap cfg (t.toNat + events.count .update) →
        Ensures RankExit (exec (MemorySystem.step cfg) s events) fun s' => ∃ t', Steady cfg t' s' := by
  induction events with
  | nil => exact fun {t s} h _ => ensures_ok ⟨t, h⟩
  | cons e events ih =>
    intro t s h hwrap
    cases e with
    | addTransaction transaction =>
      rw [List.count_cons_of_ne (by simp)] at hwrap
      exact exec_cons_ensures (ensures_ok (addTransaction_steady h transaction)) fun s' hs' =>
        ih hs' hwrap
    | addRequest isWrite addr callback =>
      rw [List.count_cons_of_ne (by simp)] at hwrap
      exact exec_cons_ensures (ensures_ok (addRequest_steady h isWrite addr callback)) fun s' hs' =>
        ih hs' hwrap
    | update =>
      rw [List.count_cons_self] at hwrap
      -- the time of this update is below the wrap, and so are those of the rest
      have hnow : BelowWrap cfg (t.toNat + 1) := hwrap.mono (by omega)
      refine exec_cons_ensures (update_lockstep hranks hcmd hnow h) fun s' hs' => ih hs' ?_
      rw [next_toNat hnow.now]
      exact hwrap.mono (by omega)

theorem steady_init (hranks : cfg.numRanks = 1) : Steady cfg 0 (MemorySystem.init cfg) := by
  have hstate : ∀ b ∈ List.replicate cfg.numBanks ({} : BankState), b = {} := fun b hb =>
    List.eq_of_mem_replicate hb
  refine ⟨⟨List.replicate cfg.numBanks {}, Rank.init cfg, ?_⟩, rfl⟩
  exact {
    ranks := by
      change List.replicate cfg.numRanks (Rank.init cfg) = _
      rw [hranks, List.replicate_one]
    banks := by
      change List.replicate cfg.numRanks _ = _
      rw [hranks, List.replicate_one]
    length := List.length_replicate
    sane := fun b hb => by
      rw [hstate b hb]
      exact ⟨fun _ => le_rfl, nofun, fun _ => ⟨nofun, nofun⟩⟩
    follows := by
      refine ⟨rfl, fun j b u hb hu => ?_⟩
      rw [hstate b (List.mem_of_getElem? hb), hstate u (List.mem_of_getElem? hu)]
      exact sync_of_closed (Nat.zero_le _) (fun hopen => nomatch hopen.1) nofun rfl
    left := fun hbus => absurd rfl hbus
    flight := fun hbus => absurd rfl hbus
    power := by
      change List.replicate cfg.numRanks false = _
      rw [hranks, List.replicate_one]
      rfl
    up := fun _ b hb => by
      rw [hstate b hb]
      nofun
    down := nofun
    queued := Queued.init cfg _
    clock := rfl
    queueClock := rfl
    write := fun p hp => absurd hp List.not_mem_nil
    data := nofun }

/-- The command on the bus will be accepted. -/
theorem Steady.accepted (h : Steady cfg t s) (hout : s.controller.outgoingCmdPacket = some p) :
    ∃ r, s.ranks = [r] ∧ Rank.allows r.currentClockCycle p r.bankStates = .ok true := by
  obtain ⟨⟨cs, r, h⟩, hclock⟩ := h
  have hfollows := h.follows
  rw [hout, ← hclock, ← h.clock] at hfollows
  obtain ⟨us, hreceive, -⟩ := hfollows
  obtain ⟨allowed, hallows, hrest⟩ := Outcome.bind_eq_ok.mp hreceive
  cases allowed with
  | true => exact ⟨r, h.ranks, hallows⟩
  | false => cases hrest

/-- **Lockstep**: with one rank and a command bus of one cycle no run of the memory system in which
no time wraps around ends in an exit of the rank, and after every such run the rank will accept the
command on the bus. -/
theorem commands_accepted (cfg : DRAMConfig) (hranks : cfg.numRanks = 1) (hcmd : cfg.tCMD = 1)
    (events : List MemoryEvent) (hwrap : BelowWrap cfg (events.count .update)) :
    (∀ e, RankExit e → exec (MemorySystem.step cfg) (MemorySystem.init cfg) events ≠ .error e) ∧
      ∀ s p, exec (MemorySystem.step cfg) (MemorySystem.init cfg) events = .ok s →
        s.controller.outgoingCmdPacket = some p →
          ∃ r, s.ranks = [r] ∧ Rank.allows r.currentClockCycle p r.bankStates = .ok true := by
  have hrun := run_lockstep hranks hcmd events (steady_init hranks) (by simpa using hwrap)
  refine ⟨fun e he herror => hrun.2 e herror he, fun s p hok hout => ?_⟩
  obtain ⟨t, h⟩ := hrun.1 s hok
  exact h.accepted hout

/-- One rank of two banks, with power-down: a write is added and the system is updated four times. -/
theorem commands_accepted_write :
    let cfg : DRAMConfig := {
      numBanks := 2, numBanksLog := 1, numRowsLog := 4, numColsLog := 4, colLowBitWidth := 1
      numRanks := 1, refreshPeriod := 40, tCK := 1, cl := 3, al := 0, bl := 4, tRAS := 6
      tRCD := 3, tRRD := 2, tRC := 9, tRP := 3, tCCD := 2, tRTP := 2, tWTR := 2, tWR := 3
      tRTRS := 1, tRFC := 10, tFAW := 8, tCKE := 2, tXP := 3, tCMD := 1, transQueueDepth := 8
      cmdQueueDepth := 8, totalRowAccesses := 4, useLowPower := true }
    let events := [.addTransaction { transactionType := .dataWrite, address := 64 }, .update, .update,
      .update, .update]
    (∀ e, RankExit e → exec (MemorySystem.step cfg) (MemorySystem.init cfg) events ≠ .error e) ∧
      ∀ s p, exec (MemorySystem.step cfg) (MemorySystem.init cfg) events = .ok s →
        s.controller.outgoingCmdPacket = some p →
          ∃ r, s.ranks = [r] ∧ Rank.allows r.currentClockCycle p r.bankStates = .ok true :=
  commands_accepted _ rfl rfl _ (by decide +kernel)

/-! ### The wrap of the clock -/

/-- One rank of one bank, with a refresh in every fourth cycle. -/
def refreshed : DRAMConfig := {
  rowBufferPolicy := .openPage, numBanks := 1, numRowsLog := 4, numColsLog := 4, colLowBitWidth := 1
  numRanks := 1, refreshPeriod := 4, tCK := 1, cl := 3, al := 1, bl := 4, tRAS := 6, tRCD := 3
  tRRD := 2, tRC := 9, tRP := 3, tCCD := 2, tRTP := 2, tWTR := 2, tWR := 3, tRTRS := 1, tRFC := 1
  tFAW := 8, tCKE := 2, tXP := 3, tCMD := 1, transQueueDepth := 8, cmdQueueDepth := 8
  totalRowAccesses := 4 }

/-- The refresh of the rank. -/
def refreshPacket : BusPacket := { busPacketType := .refresh }

/-- The command queue at the time `t` without commands. -/
def emptyQueue (sendAct : Bool) (t : UInt64) : CommandQueue :=
  { CommandQueue.init refreshed with refreshRank := -1, sendAct, currentClockCycle := t }

/-- The memory system at the time `t` without commands, with a refresh in `k` cycles. The banks of
controller and rank may be activated from the times `a` and `b` on. -/
def resting (k : UInt32) (sendAct : Bool) (t a b : UInt64) (history : List Happening) :
    MemorySystem where
  controller := {
    bankStates := [[{ nextActivate := a, lastCommand := .refresh }]]
    commandQueue := emptyQueue sendAct t
    refreshCountdown := [k]
    powerDown := [false]
    currentClockCycle := t }
  ranks := [{ bankStates := [{ nextActivate := b }], currentClockCycle := t }]
  history := history

/-- The memory system of `resting 0` after its refresh was asked for. -/
def asked (sendAct : Bool) (t a b : UInt64) (history : List Happening) : MemorySystem where
  controller := {
    bankStates := [[{ nextActivate := a, lastCommand := .refresh }]]
    commandQueue := (emptyQueue sendAct t).needRefresh 0
    refreshCountdown := [4]
    powerDown := [false]
    currentClockCycle := t }
  ranks := [{
    refreshWaiting := true, bankStates := [{ nextActivate := b }], currentClockCycle := t }]
  history := history ++ [.needRefresh 0]

/-- The memory system with a refresh on the command bus and the next one in `k` cycles. The
controller may activate the bank from the time `a` on, after a countdown of `n`. -/
def refreshing (k : UInt32) (n : Int) (sendAct : Bool) (t a b : UInt64) (history : List Happening) :
    MemorySystem where
  controller := {
    bankStates := [[{
      currentBankState := .refreshing, nextActivate := a, lastCommand := .refresh
      stateChangeCountdown := n }]]
    commandQueue := emptyQueue sendAct t
    refreshCountdown := [k]
    powerDown := [false]
    outgoingCmdPacket := some refreshPacket
    cmdCyclesLeft := 1
    currentClockCycle := t }
  ranks := [{
    refreshWaiting := true, bankStates := [{ nextActivate := b }], currentClockCycle := t }]
  history := history

variable {a b : UInt64} {sendAct : Bool} {history : List Happening}

theorem checkRefresh_resting : (resting 0 sendAct t a b history).checkRefresh refreshed =
    .ok (asked sendAct t a b history) := by
  have hcycles : refreshed.refreshCycles = 4 := by decide +kernel
  unfold MemorySystem.checkRefresh
  rw [hcycles]
  with_unfolding_all rfl

/-- The bank is closed, and its time has come. -/
theorem scanBanks_asked (h : a ≤ t) : ((emptyQueue sendAct t).needRefresh 0).tickWindows.scanBanks
    refreshed [[{ nextActivate := a, lastCommand := .refresh }]] =
      .ok (none, true, ((emptyQueue sendAct t).needRefresh 0).tickWindows) := by
  have hscan : ((emptyQueue sendAct t).needRefresh 0).tickWindows.scanBanks refreshed
      [[{ nextActivate := a, lastCommand := .refresh }]] =
        if t < a then .ok (none, false, ((emptyQueue sendAct t).needRefresh 0).tickWindows)
        else .ok (none, true, ((emptyQueue sendAct t).needRefresh 0).tickWindows) := by
    with_unfolding_all rfl
  rw [hscan, if_neg (UInt64.not_lt.mpr h)]

theorem pop_asked (h : a ≤ t) : ((emptyQueue sendAct t).needRefresh 0).pop refreshed
    [[{ nextActivate := a, lastCommand := .refresh }]] =
      .ok (some refreshPacket, emptyQueue (!sendAct) t) := by
  have hrefresh : ((emptyQueue sendAct t).needRefresh 0).tickWindows.popRefresh refreshed
      [[{ nextActivate := a, lastCommand := .refresh }]] =
        .ok (some refreshPacket, emptyQueue sendAct t) := by
    unfold CommandQueue.popRefresh
    rw [scanBanks_asked h]
    with_unfolding_all rfl
  unfold CommandQueue.pop CommandQueue.choose
  rw [hrefresh]
  cases sendAct <;> with_unfolding_all rfl

theorem popCommand_asked (h : a ≤ t) : (asked sendAct t a b history).popCommand refreshed =
    .ok (refreshing 4 1 (!sendAct) t (t + 1) b
      (history ++ [.needRefresh 0] ++ [.issued refreshPacket])) := by
  have hcountdown : (1 : Int) = toInt refreshed.tRFC.toNat := by decide +kernel
  have hpop : ((emptyQueue sendAct t).needRefresh 0).pop refreshed
      [[{ nextActivate := a, lastCommand := .refresh }]] =
        .ok (some refreshPacket, emptyQueue (!sendAct) t) := pop_asked h
  unfold MemorySystem.popCommand asked
  rw [hpop, hcountdown]
  with_unfolding_all rfl

/-- The update in which the refresh is due. -/
theorem update_due (h : a ≤ t) : (resting 0 sendAct t a b history).update refreshed =
    .ok (refreshing 3 1 (!sendAct) (t + 1) (t + 1) b
      (history ++ [.needRefresh 0] ++ [.issued refreshPacket])) := by
  have hparts : (resting 0 sendAct t a b history).controllerUpdate refreshed = (do
      let s ← (resting 0 sendAct t a b history).checkRefresh refreshed
      let s ← s.popCommand refreshed
      let s ← s.schedule refreshed
      let s ← (List.range refreshed.numRanks).foldlM (MemorySystem.managePower refreshed) s
      let s ← s.returnData refreshed
      return s.countDown) := by
    with_unfolding_all rfl
  have hupdate : (resting 0 sendAct t a b history).update refreshed = (do
      let s ← (resting 0 sendAct t a b history).controllerUpdate refreshed
      return s.stepClocks) := by
    with_unfolding_all rfl
  rw [hupdate, hparts, checkRefresh_resting, Outcome.ok_bind, popCommand_asked h, Outcome.ok_bind]
  with_unfolding_all rfl

/-- The update in which the rank receives the refresh. -/
theorem update_refreshing : (refreshing 3 1 sendAct t a b history).update refreshed =
    .ok (resting 2 sendAct (t + 1) a (t + 1) (history ++ [.received 0 refreshPacket])) := by
  with_unfolding_all rfl

theorem update_two : (resting 2 sendAct t a b history).update refreshed =
    .ok (resting 1 sendAct (t + 1) a b history) := by
  with_unfolding_all rfl

theorem update_one : (resting 1 sendAct t a b history).update refreshed =
    .ok (resting 0 sendAct (t + 1) a b history) := by
  with_unfolding_all rfl

theorem run_round (sendAct : Bool) (b : UInt64) (history : List Happening) (h : a ≤ t) :
    exec (MemorySystem.step refreshed) (resting 0 sendAct t a b history)
      (List.replicate 4 .update) =
        .ok (resting 0 (!sendAct) (t + 1 + 1 + 1 + 1) (t + 1) (t + 1 + 1) (history ++
          [.needRefresh 0] ++ [.issued refreshPacket] ++ [.received 0 refreshPacket])) :=
  exec_cons_eq_ok.mpr ⟨_, update_due h, exec_cons_eq_ok.mpr ⟨_, update_refreshing,
    exec_cons_eq_ok.mpr ⟨_, update_two, exec_cons_eq_ok.mpr ⟨_, update_one, rfl⟩⟩⟩⟩

/-- The history of `n` refreshes. -/
def refreshes : ℕ → List Happening
  | 0 => []
  | n + 1 =>
    refreshes n ++ [.needRefresh 0] ++ [.issued refreshPacket] ++ [.received 0 refreshPacket]

/-- The refreshes do not stop, and each finds the bank closed. -/
theorem run_refreshes (n : ℕ) (hn : 4 * n + 8 < 2 ^ 64) :
    exec (MemorySystem.step refreshed) (MemorySystem.init refreshed)
      (List.replicate (4 * n + 8) .update) =
        .ok (resting 0 (decide (n % 2 = 1)) (UInt64.ofNat (4 * n + 8)) (UInt64.ofNat (4 * n + 5))
          (UInt64.ofNat (4 * n + 6)) (refreshes (n + 1))) := by
  induction n with
  | zero => decide +kernel
  | succ n ih =>
    have hclosed : UInt64.ofNat (4 * n + 5) ≤ UInt64.ofNat (4 * n + 8) := by
      have hsize : UInt64.size = 2 ^ 64 := rfl
      rw [UInt64.ofNat_le_iff_le (by omega) (by omega)]
      omega
    have hround := run_round (decide (n % 2 = 1)) (UInt64.ofNat (4 * n + 6)) (refreshes (n + 1))
      hclosed
    have hnext (k : ℕ) : UInt64.ofNat k + 1 = UInt64.ofNat (k + 1) := (UInt64.ofNat_add k 1).symm
    have hsend : (!decide (n % 2 = 1)) = decide ((n + 1) % 2 = 1) := by
      rw [Bool.eq_iff_iff]
      simp
      omega
    rw [hnext, hnext, hnext, hnext, hsend] at hround
    have hrun := exec_append_eq_ok.mpr ⟨_, ih (by omega), hround⟩
    rw [List.replicate_append_replicate] at hrun
    exact hrun

/-- A read is added three cycles before the clocks wrap around. Its activate goes on the bus two
cycles before, and the read time of the controller has wrapped around at once: the column access goes
on the bus in the last cycle, and the rank receives it at the time 0. -/
theorem not_accepted_wrapped :
    exec (MemorySystem.step refreshed) (MemorySystem.init refreshed)
      (List.replicate (2 ^ 64 - 4) .update ++
        [.update, .addTransaction { transactionType := .dataRead, address := 0 }, .update, .update,
          .update, .update]) = .error (Rank.notAllowed .read) := by
  have hrun := run_refreshes (2 ^ 62 - 3) (by norm_num)
  have hlength : 4 * (2 ^ 62 - 3) + 8 = 2 ^ 64 - 4 := by norm_num
  have hsend : decide ((2 ^ 62 - 3) % 2 = 1) = true := by norm_num
  have hclosed : 4 * (2 ^ 62 - 3) + 5 = 18446744073709551609 := by norm_num
  have hready : 4 * (2 ^ 62 - 3) + 6 = 18446744073709551610 := by norm_num
  rw [hlength, hsend, hclosed, hready] at hrun
  refine exec_append_eq_error.mpr (.inr ⟨_, hrun, ?_⟩)
  apply Outcome.eq_error_of_map (f := fun _ => ())
  decide +kernel

end PIMSim.DDR
