import PIMSim.DDR.MemoryController
import PIMSim.DDR.MultiChannel
import PIMSim.Memory.Merge

/-!
# The memory object of the DRAM model

`DDRMem` collects the requests of the memory controllers, merges them, and gives one after the other
to its channels as a transaction. A transaction that is refused waits in a slot. The transaction
receiver counts the transactions that were given away by their addresses until a callback of the
memory system takes them off.

The processors that a callback tells are left out: they do not touch the memory object. The clocks
of both domains are equal, so that every step of the memory object updates the channels once, and
`clockCycle` stays 0, so that a refused transaction is retried in every step.

## Main definitions

* `TransactionReceiver`: the requests that were added and not completed, by address
* `DDRMem`: the state of the memory object, with its history
* `DDRMem.step`: the calls of `addTransation` and `Step`
* `DDRMem.isDone`: `done`
-/

namespace PIMSim.DDR

open CSharp

/-! ### The transaction receiver -/

/-- The cycles in which the requests of an address were added. -/
abbrev PendingRequests := Std.TreeMap UInt64 (List UInt64)

namespace PendingRequests

def add (requests : PendingRequests) (address cycle : UInt64) : PendingRequests :=
  match requests[address]? with
  | some cycles => requests.insert address (cycles ++ [cycle])
  | none => requests.insert address [cycle]

/-- The oldest request of an address is taken off. The messages are those of an address that is not
there, and of one without cycles. -/
def complete (absent nothing : String) (requests : PendingRequests) (address : UInt64) :
    Outcome PendingRequests :=
  match requests[address]? with
  | none => .error (.exit 1 absent)
  | some [] => .error (.exit 1 nothing)
  | some [_] => return requests.erase address
  | some (_ :: cycles) => return requests.insert address cycles

end PendingRequests

structure TransactionReceiver where
  pendingReadRequests : PendingRequests := {}
  pendingWriteRequests : PendingRequests := {}

namespace TransactionReceiver

def addPending (r : TransactionReceiver) (t : Transaction) (cycle : UInt64) :
    Outcome TransactionReceiver :=
  match t.transactionType with
  | .dataRead => return { r with
      pendingReadRequests := r.pendingReadRequests.add t.address cycle }
  | .dataWrite => return { r with
      pendingWriteRequests := r.pendingWriteRequests.add t.address cycle }
  | .returnData => .error (.exit 1 "ERROR  This should never happen")

def readComplete (r : TransactionReceiver) (addr : UInt64) : Outcome TransactionReceiver := do
  let requests ← r.pendingReadRequests.complete "ERROR: Cant find a pending read for this one"
    "ERROR:Nothing here, either" addr
  return { r with pendingReadRequests := requests }

def writeComplete (r : TransactionReceiver) (addr : UInt64) : Outcome TransactionReceiver := do
  let requests ← r.pendingWriteRequests.complete "ERROR  : Cant find a pending read for this one"
    "ERROR  : Nothing here, either" addr
  return { r with pendingWriteRequests := requests }

/-- The registered callbacks. -/
def callBack (r : TransactionReceiver) : Happening → Outcome TransactionReceiver
  | .returnReadData t => r.readComplete t.address
  | .writeDataDone address _ => r.writeComplete address
  | _ => return r

end TransactionReceiver

/-! ### The memory object -/

/-- The settings of the memory object. -/
structure DDRConfig where
  dram : DRAMConfig
  numChans : UInt32 := 1
  throwAwayBits : UInt32 := 0

/-- `RETURN_TRANSACTIONS`, which is set where it is declared and nowhere else. -/
def returnTransactions : Bool := true

theorem returnTransactions_eq : returnTransactions = true := rfl

/-- What happens to the requests: one is taken from a controller or added, one is dropped since it
neither reads nor writes, and a transaction is accepted by the memory system. -/
inductive RequestHappening
  | taken (req : MemRequest)
  | dropped (req : MemRequest)
  | accepted (t : Transaction)
deriving DecidableEq

structure DDRMem where
  transactionReceiver : TransactionReceiver := {}
  channels : List MemorySystem
  transationQueue : List MemRequest := []
  trans : Option Transaction := none
  pendingTrans : Bool := false
  cycle : UInt64 := 0
  history : List RequestHappening := []

/-- The kind of transaction of a request. -/
def MemReqType.transType : MemReqType → TransactionType
  | .read => .dataRead
  | .write => .dataWrite
  | .returnData => .returnData
  | .flush => .dataWrite
  | .load => .dataRead
  | .store => .dataWrite
  | .null => .returnData

/-- The transaction of a request. -/
def transactionOf (req : MemRequest) : Transaction where
  transactionType := MemReqType.transType req.memtype
  address := req.address
  data := req.data
  callback := some (System.callBackInfo req)

/-- The low order bits which correspond to the size of a transaction are zeroed out. -/
def alignTransactionAddress (cfg : DDRConfig) (t : Transaction) : Transaction :=
  { t with
    address := (t.address >>> cfg.throwAwayBits.toUInt64) <<< cfg.throwAwayBits.toUInt64 }

/-- `MultiChannelMemorySystem.addTransaction`: the transaction as it was accepted, if it was. -/
def MultiChannelMemorySystem.addTransaction (cfg : DDRConfig) (channels : List MemorySystem)
    (t : Transaction) : Outcome (Option Transaction × List MemorySystem) := do
  let channelNumber ← findChannelNumber cfg.numChans cfg.dram t.address
  let c ← listAt channels channelNumber
  if c.willAcceptTransaction cfg.dram then
    return (some { t with timeAdded := c.controller.currentClockCycle },
      channels.set channelNumber (c.addTransaction cfg.dram t))
  else return (none, channels)

namespace DDRMem

variable (cfg : DDRConfig)

/-- The constructor. -/
def init : DDRMem where
  channels := List.replicate cfg.numChans.toNat (MemorySystem.init cfg.dram)

def note (s : DDRMem) (h : List RequestHappening) : DDRMem := { s with history := s.history ++ h }

/-- One channel is updated. It calls the receiver back, if that is registered. -/
def updateChannel (s : DDRMem) (i : ℕ) : Outcome DDRMem := do
  let c ← listAt s.channels i
  let c' ← c.update cfg.dram
  let receiver ←
    if returnTransactions then
      (c'.history.drop c.history.length).foldlM TransactionReceiver.callBack s.transactionReceiver
    else pure s.transactionReceiver
  return { s with channels := s.channels.set i c', transactionReceiver := receiver }

/-- `memorySystem.update` -/
def update (s : DDRMem) : Outcome DDRMem :=
  (List.range cfg.numChans.toNat).foldlM (updateChannel cfg) s

/-- A transaction is given to the memory system for the first time. -/
def giveTransaction (s : DDRMem) (t : Transaction) : Outcome DDRMem := do
  let (accepted, channels) ← MultiChannelMemorySystem.addTransaction cfg s.channels t
  match accepted with
  | none => return { s with trans := some t, pendingTrans := true }
  | some t => do
    let receiver ←
      if returnTransactions then s.transactionReceiver.addPending t s.cycle
      else pure s.transactionReceiver
    return { s with channels, transactionReceiver := receiver, trans := none }.note [.accepted t]

/-- The transaction in the slot is given to the memory system again. -/
def retryTransaction (s : DDRMem) : Outcome DDRMem :=
  match s.trans with
  | none => .error .nullReference
  | some t => do
    let (accepted, channels) ← MultiChannelMemorySystem.addTransaction cfg s.channels t
    match accepted with
    -- refused again: the slot is kept for the next step
    | none => return s
    | some t => do
      let receiver ← s.transactionReceiver.addPending t s.cycle
      return { s with
        channels
        transactionReceiver := receiver
        trans := none
        pendingTrans := false }.note [.accepted t]

/-- `addTransation` -/
def addTransation (s : DDRMem) (req : MemRequest) : DDRMem :=
  { s with transationQueue := s.transationQueue ++ [req] }.note [.taken req]

/-- The part of `Step` that updates the memory: the transaction in the slot or the next request is
given to the memory system. A request that neither reads nor writes is dropped, and the memory system
is not updated. -/
def updateMemory (s : DDRMem) : Outcome DDRMem :=
  if s.pendingTrans then do
    let s ← s.retryTransaction cfg
    s.update cfg
  else
    match s.transationQueue with
    | [] => s.update cfg
    | req :: queue =>
      let s := { s with transationQueue := queue }
      if MemReqType.transType req.memtype = .returnData then return s.note [.dropped req]
      else do
        let s ← s.giveTransaction cfg (alignTransactionAddress cfg (transactionOf req))
        s.update cfg

/-- `Step`, with the requests that the controllers hand out. -/
def memStep (s : DDRMem) (requests : List MemRequest) : Outcome DDRMem := do
  let queue ← PIMSim.DDRMem.mergeSame (s.transationQueue ++ requests)
  updateMemory cfg ({ s with
    cycle := s.cycle + 1
    transationQueue := queue }.note (requests.map .taken))

/-- `done` -/
def isDone (s : DDRMem) : Bool :=
  s.transationQueue.isEmpty && s.transactionReceiver.pendingReadRequests.isEmpty &&
    s.transactionReceiver.pendingWriteRequests.isEmpty

end DDRMem

/-- The calls of the memory object. -/
inductive DDRMemEvent
  | addTransation (req : MemRequest)
  | step (requests : List MemRequest)
deriving DecidableEq

def DDRMem.step (cfg : DDRConfig) (s : DDRMem) : DDRMemEvent → Outcome DDRMem
  | .addTransation req => return s.addTransation req
  | .step requests => s.memStep cfg requests

end PIMSim.DDR
