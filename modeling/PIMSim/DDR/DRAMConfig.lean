import Mathlib.Data.Rat.Floor
import PIMSim.General

/-!
# Settings and packets of the DRAM model

The settings of `DRAMConfig` with the delays derived from them, and the objects its memory system
passes around: transactions, bus packets, and the state of a bank. Counts are natural numbers; the
timing parameters and what is derived from them are 32-bit numbers, and clocks and times are 64-bit
numbers, which wrap around.

## Main definitions

* `DRAMConfig`: the settings and derived delays
* `BusPacket`, `BusPacket.new`: a command or data on the bus, and its constructor
* `BankState`: the state of a bank as a table of times
* `Transaction`: a read or write of the upper levels
-/

namespace PIMSim.DDR

open CSharp

inductive AddressMappingScheme
  | scheme1
  | scheme2
  | scheme3
  | scheme4
  | scheme5
  | scheme6
  | scheme7
deriving DecidableEq, Repr

inductive RowBufferPolicy
  | openPage
  | closePage
deriving DecidableEq, Repr

inductive QueuingStructure
  | perRank
  | perRankPerBank
deriving DecidableEq, Repr

inductive SchedulingPolicy
  | rankThenBankRoundRobin
  | bankThenRankRoundRobin
deriving DecidableEq, Repr

/-- The settings of `DRAMConfig`. -/
structure DRAMConfig where
  rowBufferPolicy : RowBufferPolicy := .closePage
  schedulingPolicy : SchedulingPolicy := .bankThenRankRoundRobin
  addressMappingScheme : AddressMappingScheme := .scheme1
  queuingStructure : QueuingStructure := .perRankPerBank
  numBanks : ℕ := 0
  numBanksLog : ℕ := 0
  numChansLog : ℕ := 0
  numRowsLog : ℕ := 0
  numCols : ℕ := 0
  numColsLog : ℕ := 0
  byteOffsetWidth : ℕ := 0
  colLowBitWidth : ℕ := 0
  numRanks : ℕ := 0
  numRanksLog : ℕ := 0
  refreshPeriod : UInt32 := 0
  tCK : ℚ := 0
  cl : UInt32 := 0
  al : UInt32 := 0
  bl : UInt32 := 0
  tRAS : UInt32 := 0
  tRCD : UInt32 := 0
  tRRD : UInt32 := 0
  tRC : UInt32 := 0
  tRP : UInt32 := 0
  tCCD : UInt32 := 0
  tRTP : UInt32 := 0
  tWTR : UInt32 := 0
  tWR : UInt32 := 0
  tRTRS : UInt32 := 0
  tRFC : UInt32 := 0
  tFAW : UInt32 := 0
  tCKE : UInt32 := 0
  tXP : UInt32 := 0
  tCMD : UInt32 := 0
  noStorage : Bool := false
  transQueueDepth : ℕ := 0
  cmdQueueDepth : ℕ := 0
  totalRowAccesses : ℕ := 0
  useLowPower : Bool := false

/-- `(int)n` -/
def toInt (n : ℕ) : Int := Int.bmod n (2 ^ 32)

/-- `(int)q`: a quotient is cut toward zero. -/
def truncate (q : ℚ) : Int := q.num.tdiv q.den

namespace DRAMConfig

variable (cfg : DRAMConfig)

def rl : UInt32 := cfg.cl + cfg.al

def wl : UInt32 := cfg.rl - 1

def readToPreDelay : UInt32 := cfg.al + cfg.bl / 2 + max cfg.tRTP cfg.tCCD - cfg.tCCD

def writeToPreDelay : UInt32 := cfg.wl + cfg.bl / 2 + cfg.tWR

def readToWriteDelay : UInt32 := cfg.rl + cfg.bl / 2 + cfg.tRTRS - cfg.wl

def readAutopreDelay : UInt32 := cfg.al + cfg.tRTP + cfg.tRP

def writeAutopreDelay : UInt32 := cfg.wl + cfg.bl / 2 + cfg.tWR + cfg.tRP

/-- Between banks. -/
def writeToReadDelayB : UInt32 := cfg.wl + cfg.bl / 2 + cfg.tWTR

/-- Between ranks. -/
def writeToReadDelayR : UInt32 := cfg.wl + cfg.bl / 2 + cfg.tRTRS - cfg.rl

/-- The countdown between two refreshes of a rank. The period is cast to a signed number first. -/
def refreshCycles : UInt32 := UInt32.ofInt (truncate (toInt cfg.refreshPeriod.toNat / cfg.tCK))

/-- The first countdown of rank `i`. -/
def firstRefresh (i : ℕ) : UInt32 :=
  UInt32.ofNat ((Rat.floor (cfg.refreshPeriod.toNat / cfg.tCK / cfg.numRanks)).toNat * (i + 1))

/-- The number of queues of a rank. -/
def numBankQueues : ℕ :=
  match cfg.queuingStructure with
  | .perRank => 1
  | .perRankPerBank => cfg.numBanks

end DRAMConfig

inductive BusPacketType
  | read
  | readP
  | write
  | writeP
  | activate
  | precharge
  | refresh
  | data
deriving DecidableEq, Repr

structure BusPacket where
  busPacketType : BusPacketType
  column : ℕ := 0
  row : ℕ := 0
  bank : ℕ := 0
  rank : ℕ := 0
  physicalAddress : UInt64 := 0
  data : UInt64 := 0
  callback : Option CallBackInfo := none
deriving DecidableEq

/-- The constructor. It does not use the rank it is given. -/
def BusPacket.new (packtype : BusPacketType) (physicalAddr : UInt64) (col rw : ℕ) (_r : Int) (b : ℕ)
    (dat : UInt64) (callback : Option CallBackInfo) : BusPacket where
  callback := callback
  busPacketType := packtype
  column := col
  row := rw
  bank := b
  physicalAddress := physicalAddr
  data := dat

inductive CurrentBankState
  | idle
  | rowActive
  | precharging
  | refreshing
  | powerDown
deriving DecidableEq, Repr

structure BankState where
  currentBankState : CurrentBankState := .idle
  openRowAddress : Int := 0
  nextRead : UInt64 := 0
  nextWrite : UInt64 := 0
  nextActivate : UInt64 := 0
  nextPrecharge : UInt64 := 0
  nextPowerUp : UInt64 := 0
  lastCommand : BusPacketType := .read
  stateChangeCountdown : Int := 0
deriving DecidableEq

inductive TransactionType
  | dataRead
  | dataWrite
  | returnData
deriving DecidableEq, Repr

structure Transaction where
  transactionType : TransactionType
  address : UInt64
  data : UInt64 := 0
  timeAdded : UInt64 := 0
  callback : Option CallBackInfo := none
deriving DecidableEq

/-- `getBusPacketType` -/
def Transaction.getBusPacketType (cfg : DRAMConfig) (t : Transaction) : Outcome BusPacketType :=
  match t.transactionType, cfg.rowBufferPolicy with
  | .dataRead, .closePage => .ok .readP
  | .dataRead, .openPage => .ok .read
  | .dataWrite, .closePage => .ok .writeP
  | .dataWrite, .openPage => .ok .write
  | .returnData, _ =>
    .error (.exit 1 "This transaction type doesn't have a corresponding bus packet type")

/-- The state of bank `b` of rank `r`. -/
def bankAt (bankStates : List (List BankState)) (r b : Int) : Outcome BankState := do
  let row ← listAt bankStates r
  listAt row b

end PIMSim.DDR
