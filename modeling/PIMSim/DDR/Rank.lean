import PIMSim.DDR.DRAMConfig

/-!
# Ranks

A rank keeps its own table of the states of its banks, tests every command against it, and returns
the data of reads after the read latency.

## Main definitions

* `Rank`: the state of a rank
* `Rank.bankAfter`: what a command does to the state of one bank
* `Rank.receiveFromBus`, `Rank.update`, `Rank.powerDown`, `Rank.powerUp`
-/

namespace PIMSim.DDR

open CSharp

structure Rank where
  isPowerDown : Bool := false
  refreshWaiting : Bool := false
  readReturnPacket : List BusPacket := []
  readReturnCountdown : List UInt32 := []
  bankStates : List BankState
  outgoingDataPacket : Option BusPacket := none
  dataCyclesLeft : UInt32 := 0
  currentClockCycle : UInt64 := 0
deriving DecidableEq

namespace Rank

variable (cfg : DRAMConfig)

/-- The constructor. -/
def init : Rank where
  bankStates := List.replicate cfg.numBanks {}

/-- What a column access does to the times of every bank. -/
def afterColumn (now : UInt64) (read write : UInt32) (s : BankState) : BankState :=
  { s with
    nextRead := max s.nextRead (now + read.toUInt64)
    nextWrite := max s.nextWrite (now + write.toUInt64) }

/-- What an automatic precharge after `delay` does to the bank. -/
def autoPrecharge (now : UInt64) (delay : UInt32) (s : BankState) : BankState :=
  { s with
    currentBankState := .idle
    nextActivate := max s.nextActivate (now + delay.toUInt64) }

/-- The update of the state table by a command at the time `now`, for bank `i`. -/
def bankAfter (now : UInt64) (p : BusPacket) (i : ℕ) (s : BankState) : BankState :=
  match p.busPacketType with
  | .read =>
    let s :=
      if i = p.bank then
        { s with nextPrecharge := max s.nextPrecharge (now + cfg.readToPreDelay.toUInt64) }
      else s
    afterColumn now (max cfg.tCCD (cfg.bl / 2)) cfg.readToWriteDelay s
  | .readP =>
    let s := if i = p.bank then autoPrecharge now cfg.readAutopreDelay s else s
    afterColumn now (max (cfg.bl / 2) cfg.tCCD) cfg.readToWriteDelay s
  | .write =>
    let s :=
      if i = p.bank then
        { s with nextPrecharge := max s.nextPrecharge (now + cfg.writeToPreDelay.toUInt64) }
      else s
    afterColumn now cfg.writeToReadDelayB (max (cfg.bl / 2) cfg.tCCD) s
  | .writeP =>
    let s := if i = p.bank then autoPrecharge now cfg.writeAutopreDelay s else s
    afterColumn now cfg.writeToReadDelayB (max cfg.tCCD (cfg.bl / 2)) s
  | .activate =>
    if i = p.bank then
      { s with
        currentBankState := .rowActive
        nextActivate := now + cfg.tRC.toUInt64
        openRowAddress := toInt p.row
        nextWrite := now + (cfg.tRCD - cfg.al).toUInt64
        nextRead := now + (cfg.tRCD - cfg.al).toUInt64
        nextPrecharge := now + cfg.tRAS.toUInt64 }
    else { s with nextActivate := max s.nextActivate (now + cfg.tRRD.toUInt64) }
  | .precharge =>
    if i = p.bank then
      { s with
        currentBankState := .idle
        nextActivate := max s.nextActivate (now + cfg.tRP.toUInt64) }
    else s
  -- every bank of the rank is set, whatever bank the packet names
  | .refresh => { s with nextActivate := now + cfg.tRFC.toUInt64 }
  | .data => s

/-- A column access is allowed in its row and not before its time. -/
def columnAllowed (now : UInt64) (p : BusPacket) (next : UInt64) (s : BankState) : Bool :=
  decide (s.currentBankState = .rowActive ∧ next ≤ now ∧ (p.row : Int) = s.openRowAddress)

/-- The error of a command that is not allowed. -/
def notAllowed : BusPacketType → Fault
  | .read => .exit 1 "received a READ when not allowed"
  | .readP => .exit 1 "received a READ_P when not allowed"
  | .write => .exit 1 "received a WRITE when not allowed"
  | .writeP => .exit 1 "received a WRITE_P when not allowed"
  | .activate => .exit 1 "received an ACT when not allowed"
  | .precharge => .exit 1 "received a PRE when not allowed"
  | .refresh => .exit 1 "received a REF when not allowed"
  | .data => .exit 1 "received a DATA packet"

/-- The test that a rank makes of a command at the time `now`. -/
def allows (now : UInt64) (p : BusPacket) (bankStates : List BankState) : Outcome Bool :=
  match p.busPacketType with
  | .read => do
    let s ← listAt bankStates p.bank
    return columnAllowed now p s.nextRead s
  | .readP => do
    let s ← listAt bankStates p.bank
    return columnAllowed now p s.nextRead s
  | .write => do
    let s ← listAt bankStates p.bank
    return columnAllowed now p s.nextWrite s
  | .writeP => do
    let s ← listAt bankStates p.bank
    return columnAllowed now p s.nextWrite s
  | .activate => do
    let s ← listAt bankStates p.bank
    return decide (s.currentBankState = .idle ∧ s.nextActivate ≤ now)
  | .precharge => do
    let s ← listAt bankStates p.bank
    return decide (s.currentBankState = .rowActive ∧ s.nextPrecharge ≤ now)
  | .refresh => return bankStates.all fun s => decide (s.currentBankState = .idle)
  | .data => return true

/-- The test of a command, and the update of the state table. -/
def receiveBanks (now : UInt64) (p : BusPacket) (bankStates : List BankState) :
    Outcome (List BankState) := do
  let allowed ← allows now p bankStates
  if allowed then return bankStates.mapIdx (bankAfter cfg now p)
  else .error (notAllowed p.busPacketType)

/-- `receiveFromBus`. With `NO_STORAGE` the bank looks into its rows, which are never made. -/
def receiveFromBus (r : Rank) (packet : BusPacket) : Outcome Rank := do
  let bankStates ← receiveBanks cfg r.currentClockCycle packet r.bankStates
  let r := { r with bankStates }
  match packet.busPacketType with
  | .read => returnLater r
  | .readP => returnLater r
  | .refresh => return { r with refreshWaiting := false }
  | .data =>
    if cfg.noStorage then
      if cfg.numCols ≤ packet.column then .error (.exit (-1) "Bus Packet column out of bounds")
      else .error .nullReference
    else return r
  | _ => return r
where
  /-- The data of a read waits for the read latency. -/
  returnLater (r : Rank) : Outcome Rank :=
    if cfg.noStorage then .error .nullReference
    else return { r with
      readReturnPacket := r.readReturnPacket ++ [{ packet with busPacketType := .data }]
      readReturnCountdown := r.readReturnCountdown ++ [cfg.rl] }

/-- The book-keeping of the packet on the data bus: the packet that has arrived. -/
def transfer (r : Rank) : Option BusPacket × Rank :=
  match r.outgoingDataPacket with
  | none => (none, r)
  | some p =>
    let left := r.dataCyclesLeft - 1
    if left = 0 then (some p, { r with outgoingDataPacket := none, dataCyclesLeft := left })
    else (none, { r with dataCyclesLeft := left })

/-- The book-keeping of the packets that wait for the read latency. -/
def countDown (r : Rank) : Outcome Rank :=
  let countdown := r.readReturnCountdown.map fun n => n - 1
  if countdown.head? = some 0 then
    match r.readReturnPacket with
    | [] => .error .argumentOutOfRange
    | p :: packets => return { r with
        outgoingDataPacket := some p
        dataCyclesLeft := cfg.bl / 2
        readReturnPacket := packets
        readReturnCountdown := countdown.tail }
  else return { r with readReturnCountdown := countdown }

/-- `update`: the packet the controller receives, if any. -/
def update (r : Rank) : Outcome (Option BusPacket × Rank) := do
  let (arrived, r) := r.transfer
  let r ← r.countDown cfg
  return (arrived, r)

def notPoweredDown : Fault := .exit 1 "Trying to power up rank while it is not already powered down"

def tooEarly : Fault := .exit 1 "Trying to power up rank before we're allowed to"

def notAllIdle : Fault := .exit 1 "Trying to power down rank while not all banks are idle"

def powerUp (r : Rank) : Outcome Rank :=
  if r.isPowerDown = false then .error notPoweredDown
  else if r.bankStates.any fun s => decide (r.currentClockCycle < s.nextPowerUp) then
    .error tooEarly
  else return { r with
    isPowerDown := false
    bankStates := r.bankStates.map fun s =>
      { s with nextActivate := r.currentClockCycle + cfg.tXP.toUInt64, currentBankState := .idle } }

def powerDown (r : Rank) : Outcome Rank :=
  if r.bankStates.any fun s => decide (s.currentBankState ≠ .idle) then .error notAllIdle
  else return { r with
    isPowerDown := true
    bankStates := r.bankStates.map fun s =>
      { s with
        nextPowerUp := r.currentClockCycle + cfg.tCKE.toUInt64, currentBankState := .powerDown } }

def step (r : Rank) : Rank := { r with currentClockCycle := r.currentClockCycle + 1 }

end Rank

end PIMSim.DDR
