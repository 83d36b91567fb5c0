import PIMSim.DDR.AddressMapping
import PIMSim.DDR.CommandQueue
import PIMSim.DDR.Rank

/-!
# The memory controller and its ranks

`MemoryController.update` moves the commands and the data on its buses, refreshes the ranks, pops a
command, schedules a transaction, powers the ranks down and up, and returns read data.
`MemorySystem.update` runs it between the updates of the ranks and the steps of the clocks. Energies,
latencies and counts of accesses are left out.

## Main definitions

* `MemoryController`, `MemorySystem`: the states
* `BankState.tick`, `BankState.afterCommand`: the bank table of the controller
* `MemorySystem.controllerUpdate`: `MemoryController.update`
* `MemorySystem.update`, `MemorySystem.addTransaction`, `MemorySystem.step`
-/

namespace PIMSim.DDR

open CSharp

structure MemoryController where
  transactionQueue : List Transaction := []
  bankStates : List (List BankState)
  commandQueue : CommandQueue
  refreshCountdown : List UInt32
  writeDataToSend : List BusPacket := []
  writeDataCountdown : List UInt32 := []
  returnTransaction : List Transaction := []
  pendingReadTransactions : List Transaction := []
  powerDown : List Bool
  outgoingCmdPacket : Option BusPacket := none
  cmdCyclesLeft : UInt32 := 0
  outgoingDataPacket : Option BusPacket := none
  dataCyclesLeft : UInt32 := 0
  refreshRank : ℕ := 0
  currentClockCycle : UInt64 := 0
deriving DecidableEq

/-- What happens in a run: a call of `needRefresh`, a transaction broken up into an activate and a
column access, a command put on the bus, a packet that a rank receives, and the two callbacks. -/
inductive Happening
  | needRefresh (rank : ℕ)
  | scheduled (t : Transaction) (act command : BusPacket)
  | issued (p : BusPacket)
  | received (rank : ℕ) (p : BusPacket)
  | writeDataDone (address : UInt64) (callback : Option CallBackInfo)
  | returnReadData (t : Transaction)
deriving DecidableEq

/-- A memory system with its history. -/
structure MemorySystem where
  controller : MemoryController
  ranks : List Rank
  pendingTransactions : List Transaction := []
  history : List Happening := []
deriving DecidableEq

/-! ### The bank table of the controller -/

namespace BankState

variable (cfg : DRAMConfig)

/-- The implicit state change when the countdown of a bank has run out. -/
def changeState (s : BankState) : BankState :=
  match s.lastCommand with
  | .writeP => { s with
      currentBankState := .precharging
      lastCommand := .precharge
      stateChangeCountdown := toInt cfg.tRP.toNat }
  | .readP => { s with
      currentBankState := .precharging
      lastCommand := .precharge
      stateChangeCountdown := toInt cfg.tRP.toNat }
  | .refresh => { s with currentBankState := .idle }
  | .precharge => { s with currentBankState := .idle }
  | _ => s

/-- The countdown of a bank. -/
def tick (s : BankState) : BankState :=
  if 0 < s.stateChangeCountdown then
    let s := { s with stateChangeCountdown := s.stateChangeCountdown - 1 }
    if s.stateChangeCountdown = 0 then s.changeState cfg else s
  else s

/-- The times of a bank after a column access of another bank or of its own. -/
def afterColumn (now : UInt64) (read write : UInt64) (s : BankState) : BankState :=
  { s with nextRead := max (now + read) s.nextRead, nextWrite := max (now + write) s.nextWrite }

/-- A column access with automatic precharge: the read and write times keep the bank from being
accessed until it is activated again. -/
def closeAt (now : UInt64) (lastCommand : BusPacketType) (autopre toPre : UInt32) (s : BankState) :
    BankState :=
  { s with
    nextActivate := max (now + autopre.toUInt64) s.nextActivate
    lastCommand := lastCommand
    stateChangeCountdown := toInt toPre.toNat }

def holdAt (s : BankState) : BankState :=
  { s with nextRead := s.nextActivate, nextWrite := s.nextActivate }

/-- A column access of an open row. -/
def accessAt (now : UInt64) (lastCommand : BusPacketType) (toPre : UInt32) (s : BankState) :
    BankState :=
  { s with
    nextPrecharge := max (now + toPre.toUInt64) s.nextPrecharge
    lastCommand := lastCommand }

/-- The read at the time `now`, for the bank `j` of the rank `i`. -/
def afterRead (now : UInt64) (p : BusPacket) (i j : ℕ) (s : BankState) : BankState :=
  if i ≠ p.rank then
    if s.currentBankState = .rowActive then
      s.afterColumn now ((cfg.bl / 2).toUInt64 + cfg.tRTRS.toUInt64) cfg.readToWriteDelay.toUInt64
    else s
  else
    let column :=
      afterColumn now (max cfg.tCCD (cfg.bl / 2)).toUInt64 cfg.readToWriteDelay.toUInt64
    if j ≠ p.bank then column s
    else if p.busPacketType = .readP then
      holdAt (column (s.closeAt now .readP cfg.readAutopreDelay cfg.readToPreDelay))
    else column (s.accessAt now .read cfg.readToPreDelay)

/-- The write at the time `now`, for the bank `j` of the rank `i`. -/
def afterWrite (now : UInt64) (p : BusPacket) (i j : ℕ) (s : BankState) : BankState :=
  if i ≠ p.rank then
    if s.currentBankState = .rowActive then
      s.afterColumn now cfg.writeToReadDelayR.toUInt64 ((cfg.bl / 2).toUInt64 + cfg.tRTRS.toUInt64)
    else s
  else
    let column :=
      afterColumn now cfg.writeToReadDelayB.toUInt64 (max (cfg.bl / 2) cfg.tCCD).toUInt64
    if j ≠ p.bank then column s
    else if p.busPacketType = .writeP then
      holdAt (column (s.closeAt now .writeP cfg.writeAutopreDelay cfg.writeToPreDelay))
    else column (s.accessAt now .write cfg.writeToPreDelay)

/-- The update of the bank `j` of the rank `i` by a command popped at the time `now`. -/
def afterCommand (now : UInt64) (p : BusPacket) (i j : ℕ) (s : BankState) : BankState :=
  match p.busPacketType with
  | .readP => s.afterRead cfg now p i j
  | .read => s.afterRead cfg now p i j
  | .writeP => s.afterWrite cfg now p i j
  | .write => s.afterWrite cfg now p i j
  | .activate =>
    if i ≠ p.rank then s
    else if j ≠ p.bank then { s with nextActivate := max (now + cfg.tRRD.toUInt64) s.nextActivate }
    else { s with
      currentBankState := .rowActive
      lastCommand := .activate
      openRowAddress := toInt p.row
      nextActivate := max (now + cfg.tRC.toUInt64) s.nextActivate
      nextPrecharge := max (now + cfg.tRAS.toUInt64) s.nextPrecharge
      nextRead := max (now + (cfg.tRCD - cfg.al).toUInt64) s.nextRead
      nextWrite := max (now + (cfg.tRCD - cfg.al).toUInt64) s.nextWrite }
  | .precharge =>
    if i = p.rank ∧ j = p.bank then { s with
      currentBankState := .precharging
      lastCommand := .precharge
      stateChangeCountdown := toInt cfg.tRP.toNat
      nextActivate := max (now + cfg.tRP.toUInt64) s.nextActivate }
    else s
  | .refresh =>
    if i = p.rank then { s with
      nextActivate := now + cfg.tRFC.toUInt64
      currentBankState := .refreshing
      lastCommand := .refresh
      stateChangeCountdown := toInt cfg.tRFC.toNat }
    else s
  | .data => s

end BankState

/-- A function of rank, bank and state, on every bank of the table. -/
def mapBanks (f : ℕ → ℕ → BankState → BankState) (bankStates : List (List BankState)) :
    List (List BankState) :=
  bankStates.mapIdx fun i row => row.mapIdx fun j s => f i j s

/-! ### The parts of `update` -/

namespace MemorySystem

variable (cfg : DRAMConfig)

/-- The constructors. -/
def init : MemorySystem where
  controller := {
    bankStates := List.replicate cfg.numRanks (List.replicate cfg.numBanks {})
    commandQueue := CommandQueue.init cfg
    refreshCountdown := (List.range cfg.numRanks).map cfg.firstRefresh
    powerDown := List.replicate cfg.numRanks false }
  ranks := List.replicate cfg.numRanks (Rank.init cfg)

/-- The history grows by what happens. -/
def note (s : MemorySystem) (h : Happening) : MemorySystem := { s with history := s.history ++ [h] }

/-- A rank receives a packet from a bus. -/
def deliver (s : MemorySystem) (p : BusPacket) : Outcome MemorySystem := do
  let r ← listAt s.ranks p.rank
  let r ← r.receiveFromBus cfg p
  return { s with ranks := s.ranks.set p.rank r }.note (.received p.rank p)

/-- The bank states are updated. -/
def updateBanks (s : MemorySystem) : MemorySystem :=
  { s with controller := { s.controller with
      bankStates := mapBanks (fun _ _ b => b.tick cfg) s.controller.bankStates } }

/-- The countdown of the command bus. -/
def moveCommand (s : MemorySystem) : Outcome MemorySystem :=
  match s.controller.outgoingCmdPacket with
  | none => return s
  | some p => do
    let left := s.controller.cmdCyclesLeft - 1
    let s := { s with controller := { s.controller with cmdCyclesLeft := left } }
    if left = 0 then do
      let s ← s.deliver cfg p
      return { s with controller := { s.controller with outgoingCmdPacket := none } }
    else return s

/-- The countdown of the data bus. -/
def moveData (s : MemorySystem) : Outcome MemorySystem :=
  match s.controller.outgoingDataPacket with
  | none => return s
  | some p => do
    let left := s.controller.dataCyclesLeft - 1
    let s := { s with controller := { s.controller with dataCyclesLeft := left } }
    if left = 0 then do
      let s ← (s.note (.writeDataDone p.physicalAddress p.callback)).deliver cfg p
      return { s with controller := { s.controller with outgoingDataPacket := none } }
    else return s

/-- Write data whose latency has passed is put on the data bus. -/
def sendWriteData (s : MemorySystem) : Outcome MemorySystem :=
  let countdown := s.controller.writeDataCountdown.map fun n => n - 1
  if countdown.head? = some 0 then
    if s.controller.outgoingDataPacket ≠ none then .error (.exit 1 "Data Bus Collision")
    else
      match s.controller.writeDataToSend with
      | [] => .error .argumentOutOfRange
      | p :: packets => return { s with controller := { s.controller with
          outgoingDataPacket := some p
          dataCyclesLeft := cfg.bl / 2
          writeDataCountdown := countdown.tail
          writeDataToSend := packets } }
  else return { s with controller := { s.controller with writeDataCountdown := countdown } }

/-- The rank waits for a refresh. -/
def awaitRefresh (s : MemorySystem) (rank : ℕ) : Outcome MemorySystem := do
  let r ← listAt s.ranks rank
  return { s with ranks := s.ranks.set rank { r with refreshWaiting := true } }

/-- A refresh is asked for when the countdown of the next rank has run out. -/
def checkRefresh (s : MemorySystem) : Outcome MemorySystem := do
  let c := s.controller
  let countdown ← listAt c.refreshCountdown c.refreshRank
  if countdown = 0 then do
    let s ← s.awaitRefresh c.refreshRank
    return { s with controller := { c with
        commandQueue := c.commandQueue.needRefresh c.refreshRank
        refreshCountdown := c.refreshCountdown.set c.refreshRank cfg.refreshCycles
        refreshRank := if c.refreshRank + 1 = cfg.numRanks then 0 else c.refreshRank + 1 } }.note
      (.needRefresh c.refreshRank)
  else do
    let down ← listAt c.powerDown c.refreshRank
    if down = true ∧ countdown ≤ cfg.tXP then s.awaitRefresh c.refreshRank else return s

/-- A popped command is put on the command bus. -/
def issue (s : MemorySystem) (p : BusPacket) : Outcome MemorySystem :=
  let c := s.controller
  if p.busPacketType = .data then .error (.exit 1 "Popped a command we shouldn't have of type")
  else if c.outgoingCmdPacket ≠ none then .error (.exit 1 "Command Bus Collision")
  else
    let write := p.busPacketType = .write ∨ p.busPacketType = .writeP
    let data := BusPacket.new .data p.physicalAddress p.column p.row p.rank p.bank p.data p.callback
    return { s with controller := { c with
        writeDataToSend := if write then c.writeDataToSend ++ [data] else c.writeDataToSend
        writeDataCountdown :=
          if write then c.writeDataCountdown ++ [cfg.wl] else c.writeDataCountdown
        bankStates :=
          mapBanks (fun i j b => b.afterCommand cfg c.currentClockCycle p i j) c.bankStates
        outgoingCmdPacket := some p
        cmdCyclesLeft := cfg.tCMD } }.note (.issued p)

def popCommand (s : MemorySystem) : Outcome MemorySystem := do
  let (found, cq) ← s.controller.commandQueue.pop cfg s.controller.bankStates
  let s := { s with controller := { s.controller with commandQueue := cq } }
  match found with
  | none => return s
  | some p => s.issue cfg p

/-- The first transaction whose queue has room for two commands, with its number and place. -/
def firstWithRoom (cq : CommandQueue) :
    ℕ → List Transaction → Outcome (Option (ℕ × Transaction × Place))
  | _, [] => return none
  | i, t :: ts => do
    let place ← addressMapping cfg t.address
    let room ← cq.hasRoomFor cfg 2 place.rank place.bank
    if room then return some (i, t, place) else firstWithRoom cq (i + 1) ts

/-- A transaction is broken up into an activate and a column access. -/
def schedule (s : MemorySystem) : Outcome MemorySystem := do
  let c := s.controller
  let next ← firstWithRoom cfg c.commandQueue 0 c.transactionQueue
  match next with
  | none => return s
  | some (i, t, place) => do
    let actCommand := BusPacket.new .activate t.address place.column place.row place.rank place.bank
      0 none
    let bpType ← t.getBusPacketType cfg
    let command := BusPacket.new bpType t.address place.column place.row place.rank place.bank
      t.data t.callback
    -- `firstWithRoom` has asked for the room of both packets
    let cq ← c.commandQueue.enqueue cfg actCommand
    let cq ← cq.enqueue cfg command
    return { s with controller := { c with
        transactionQueue := c.transactionQueue.eraseIdx i
        commandQueue := cq
        pendingReadTransactions :=
          if t.transactionType = TransactionType.dataRead then c.pendingReadTransactions ++ [t]
          else c.pendingReadTransactions } }.note (.scheduled t actCommand command)

/-- The rank and its banks in the table of the controller are powered down. -/
def powerDownRank (s : MemorySystem) (i : ℕ) : Outcome MemorySystem := do
  let r ← listAt s.ranks i
  let r ← r.powerDown cfg
  let c := s.controller
  return { s with
    ranks := s.ranks.set i r
    controller := { c with
      powerDown := c.powerDown.set i true
      bankStates := mapBanks (fun k _ b => if k = i then { b with
          currentBankState := .powerDown
          nextPowerUp := c.currentClockCycle + cfg.tCKE.toUInt64 } else b) c.bankStates } }

/-- The rank and its banks in the table of the controller are powered up. -/
def powerUpRank (s : MemorySystem) (i : ℕ) : Outcome MemorySystem := do
  let r ← listAt s.ranks i
  let r ← r.powerUp cfg
  let c := s.controller
  return { s with
    ranks := s.ranks.set i r
    controller := { c with
      powerDown := c.powerDown.set i false
      bankStates := mapBanks (fun k _ b => if k = i then { b with
          currentBankState := .idle
          nextActivate := c.currentClockCycle + cfg.tXP.toUInt64 } else b) c.bankStates } }

/-- The power management of rank `i`. -/
def managePower (s : MemorySystem) (i : ℕ) : Outcome MemorySystem :=
  if cfg.useLowPower then do
    let empty ← s.controller.commandQueue.isEmpty cfg i
    let r ← listAt s.ranks i
    let banks ← listAt s.controller.bankStates i
    if empty = true ∧ r.refreshWaiting = false then
      -- with a bank open or refreshing the rank stays up, and is not asked to wake either
      if banks.all fun b => decide (b.currentBankState = .idle) then s.powerDownRank cfg i
      else return s
    else do
      let b ← listAt banks 0
      let down ← listAt s.controller.powerDown i
      if b.nextPowerUp ≤ s.controller.currentClockCycle ∧ down = true then s.powerUpRank cfg i
      else return s
  else return s

/-- Read data that has arrived is returned. -/
def returnData (s : MemorySystem) : Outcome MemorySystem :=
  let c := s.controller
  match c.returnTransaction with
  | [] => return s
  | r :: rs =>
    -- the oldest read of the address, whoever asked for it
    let i := c.pendingReadTransactions.findIdx fun t => decide (t.address = r.address)
    match c.pendingReadTransactions[i]? with
    | none => .error (.exit 0 "Can't find a matching transaction")
    | some t => do
      let _ ← addressMapping cfg r.address
      return { s with controller := { c with
          returnTransaction := rs
          pendingReadTransactions := c.pendingReadTransactions.eraseIdx i } }.note
        (.returnReadData t)

/-- The refresh counters and the clock of the command queue. -/
def countDown (s : MemorySystem) : MemorySystem :=
  let c := s.controller
  { s with controller := { c with
      refreshCountdown := c.refreshCountdown.map fun n => n - 1
      commandQueue := { c.commandQueue with
        currentClockCycle := c.commandQueue.currentClockCycle + 1 } } }

/-- `MemoryController.update` -/
def controllerUpdate (s : MemorySystem) : Outcome MemorySystem := do
  let s ← (s.updateBanks cfg).moveCommand cfg
  let s ← s.moveData cfg
  let s ← s.sendWriteData cfg
  let s ← s.checkRefresh cfg
  let s ← s.popCommand cfg
  let s ← s.schedule cfg
  let s ← (List.range cfg.numRanks).foldlM (managePower cfg) s
  let s ← s.returnData cfg
  return s.countDown

/-! ### The memory system -/

/-- `MemoryController.receiveFromBus` -/
def receiveFromBus (s : MemorySystem) (p : BusPacket) : Outcome MemorySystem :=
  if p.busPacketType ≠ .data then
    .error (.exit 1 "Memory Controller received a non-DATA bus packet from rank")
  else
    match p.callback with
    | none => .error .nullReference
    | some callback => return { s with controller := { s.controller with
        returnTransaction := s.controller.returnTransaction ++ [{
          transactionType := .returnData
          address := p.physicalAddress
          data := p.data
          callback := some callback }] } }

/-- The update of rank `i`. -/
def updateRank (s : MemorySystem) (i : ℕ) : Outcome MemorySystem := do
  let r ← listAt s.ranks i
  let (arrived, r) ← r.update cfg
  let s := { s with ranks := s.ranks.set i r }
  match arrived with
  | none => return s
  | some p => s.receiveFromBus p

def willAcceptTransaction (s : MemorySystem) : Bool :=
  decide (s.controller.transactionQueue.length < cfg.transQueueDepth)

/-- `MemoryController.addTransaction`, when it accepts. -/
def accept (s : MemorySystem) (t : Transaction) : MemorySystem :=
  { s with controller := { s.controller with
      transactionQueue := s.controller.transactionQueue ++
        [{ t with timeAdded := s.controller.currentClockCycle }] } }

/-- `addTransaction` of a transaction, which may be refused. -/
def addTransaction (s : MemorySystem) (t : Transaction) : MemorySystem :=
  if s.willAcceptTransaction cfg then s.accept t else s

/-- `addTransaction` of an address, which waits when it is not accepted. -/
def addRequest (s : MemorySystem) (isWrite : Bool) (addr : UInt64) (callback : CallBackInfo) :
    MemorySystem :=
  let t : Transaction := {
    transactionType := if isWrite then .dataWrite else .dataRead
    address := addr
    callback := some callback }
  if s.willAcceptTransaction cfg then s.accept t
  else { s with pendingTransactions := s.pendingTransactions ++ [t] }

/-- A transaction that waits is added. -/
def addPending (s : MemorySystem) : MemorySystem :=
  match s.pendingTransactions with
  | [] => s
  | t :: ts =>
    if s.willAcceptTransaction cfg then { s with pendingTransactions := ts }.accept t else s

/-- The clocks of the ranks and of the controller. -/
def stepClocks (s : MemorySystem) : MemorySystem :=
  { s with
    ranks := s.ranks.map Rank.step
    controller := { s.controller with
      currentClockCycle := s.controller.currentClockCycle + 1 } }

/-- `MemorySystem.update` -/
def update (s : MemorySystem) : Outcome MemorySystem := do
  let s ← (List.range cfg.numRanks).foldlM (updateRank cfg) s
  let s ← (s.addPending cfg).controllerUpdate cfg
  return s.stepClocks

end MemorySystem

/-- The calls of a memory system. -/
inductive MemoryEvent
  | addTransaction (t : Transaction)
  | addRequest (isWrite : Bool) (addr : UInt64) (callback : CallBackInfo)
  | update
deriving DecidableEq

def MemorySystem.step (cfg : DRAMConfig) (s : MemorySystem) : MemoryEvent → Outcome MemorySystem
  | .addTransaction t => return s.addTransaction cfg t
  | .addRequest isWrite addr callback => return s.addRequest cfg isWrite addr callback
  | .update => s.update cfg

end PIMSim.DDR
