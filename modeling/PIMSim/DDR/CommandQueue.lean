import PIMSim.DDR.DRAMConfig
import PIMSim.Library.Loop

/-!
# The command queue of a memory controller

`CommandQueue` holds the commands that wait for the bus. Its lists of queues are objects that may be
shared, so the queues are reached through references; the constructor adds one and the same list of
queues for every rank.

## Main definitions

* `CommandQueue.init`: the constructor
* `CommandQueue.enqueue`, `CommandQueue.pop`: a command enters, and one is chosen for the bus
* `CommandQueue.isIssuable`: the state of its bank allows a command
-/

namespace PIMSim.DDR

open CSharp

/-- `queues` holds a reference to a list of queues for every rank, `rows` the lists of references to
queues, and `cells` the queues. -/
structure CommandQueue where
  queues : List ℕ
  rows : List (List ℕ)
  cells : List (List BusPacket)
  nextBank : ℕ := 0
  nextRank : ℕ := 0
  nextBankPRE : ℕ := 0
  nextRankPRE : ℕ := 0
  refreshRank : Int := 0
  refreshWaiting : Bool := false
  tFAWCountdown : List (List UInt32)
  rowAccessCounters : List (List ℕ)
  sendAct : Bool := true
  currentClockCycle : UInt64 := 0
deriving DecidableEq

namespace CommandQueue

variable (cfg : DRAMConfig) (bankStates : List (List BankState))

/-- The constructor. `perBankQueue` is made once, before the loop over the ranks. -/
def init : CommandQueue where
  queues := List.replicate cfg.numRanks 0
  rows := [List.range (cfg.numRanks * cfg.numBankQueues)]
  cells := List.replicate (cfg.numRanks * cfg.numBankQueues) []
  tFAWCountdown := List.replicate cfg.numRanks []
  rowAccessCounters := List.replicate cfg.numRanks (List.replicate cfg.numBanks 0)

/-- `getCommandQueue`: the reference to the queue of a rank and a bank. -/
def getCommandQueue (cq : CommandQueue) (rank bank : Int) : Outcome ℕ := do
  let row ← listAt cq.queues rank
  let perBank ← listAt cq.rows row
  match cfg.queuingStructure with
  | .perRankPerBank => listAt perBank bank
  | .perRank => listAt perBank 0

/-- The packets of a queue. -/
def cell (cq : CommandQueue) (ref : ℕ) : List BusPacket := cq.cells.getD ref []

def setCell (cq : CommandQueue) (ref : ℕ) (queue : List BusPacket) : CommandQueue :=
  { cq with cells := cq.cells.set ref queue }

def enqueue (cq : CommandQueue) (newBusPacket : BusPacket) : Outcome CommandQueue := do
  let ref ← cq.getCommandQueue cfg newBusPacket.rank newBusPacket.bank
  let queue := cq.cell ref ++ [newBusPacket]
  if cfg.cmdQueueDepth < queue.length then
    .error (.exit 1 "Enqueued more than allowed in command queue")
  else return cq.setCell ref queue

def hasRoomFor (cq : CommandQueue) (numberToEnqueue : ℕ) (rank bank : Int) : Outcome Bool := do
  let ref ← cq.getCommandQueue cfg rank bank
  return decide ((numberToEnqueue : Int) ≤ cfg.cmdQueueDepth - (cq.cell ref).length)

def isEmpty (cq : CommandQueue) (rank : ℕ) : Outcome Bool :=
  match cfg.queuingStructure with
  | .perRank => do
    let ref ← cq.getCommandQueue cfg rank 0
    return (cq.cell ref).isEmpty
  | .perRankPerBank => do
    let refs ← (List.range cfg.numBanks).mapM fun b => cq.getCommandQueue cfg rank b
    return refs.all fun ref => (cq.cell ref).isEmpty

def needRefresh (cq : CommandQueue) (rank : ℕ) : CommandQueue :=
  { cq with refreshWaiting := true, refreshRank := rank }

/-- `rowAccessCounters[rank][bank]` -/
def accesses (cq : CommandQueue) (rank bank : Int) : Outcome ℕ := do
  let row ← listAt cq.rowAccessCounters rank
  listAt row bank

def setAccesses (cq : CommandQueue) (rank bank n : ℕ) : CommandQueue :=
  { cq with rowAccessCounters := cq.rowAccessCounters.modify rank fun row => row.set bank n }

/-- The test that `isIssuable` makes for reads and writes. -/
def columnIssuable (cq : CommandQueue) (p : BusPacket) (next : BankState → UInt64) :
    Outcome Bool := do
  let s ← bankAt bankStates p.rank p.bank
  if s.currentBankState = .rowActive ∧ next s ≤ cq.currentClockCycle ∧
      (p.row : Int) = s.openRowAddress then do
    let n ← cq.accesses p.rank p.bank
    return decide (n < cfg.totalRowAccesses)
  else return false

def isIssuable (cq : CommandQueue) (p : BusPacket) : Outcome Bool :=
  match p.busPacketType with
  -- `pop` makes the refresh itself and does not ask
  | .refresh => return false
  | .activate => do
    let s ← bankAt bankStates p.rank p.bank
    if (s.currentBankState = .idle ∨ s.currentBankState = .refreshing) ∧
        s.nextActivate ≤ cq.currentClockCycle then do
      let window ← listAt cq.tFAWCountdown p.rank
      return decide (window.length < 4)
    else return false
  | .write => cq.columnIssuable cfg bankStates p BankState.nextWrite
  | .writeP => cq.columnIssuable cfg bankStates p BankState.nextWrite
  | .readP => cq.columnIssuable cfg bankStates p BankState.nextRead
  | .read => cq.columnIssuable cfg bankStates p BankState.nextRead
  | .precharge => do
    let s ← bankAt bankStates p.rank p.bank
    return decide (s.currentBankState = .rowActive ∧ s.nextPrecharge ≤ cq.currentClockCycle)
  | .data => .error (.exit 0 "Trying to issue a crazy bus packet type")

/-- `nextRankAndBank` -/
def nextRankAndBank (rb : ℕ × ℕ) : ℕ × ℕ :=
  match cfg.schedulingPolicy with
  | .rankThenBankRoundRobin =>
    if rb.1 + 1 = cfg.numRanks then
      (0, if rb.2 + 1 = cfg.numBanks then 0 else rb.2 + 1)
    else (rb.1 + 1, rb.2)
  | .bankThenRankRoundRobin =>
    if rb.2 + 1 = cfg.numBanks then
      (if rb.1 + 1 = cfg.numRanks then 0 else rb.1 + 1, 0)
    else (rb.1, rb.2 + 1)

/-! ### The parts of `pop` -/

/-- The book-keeping of the activation window. -/
def tickWindow (window : List UInt32) : List UInt32 :=
  let window := window.map fun n => n - 1
  if window.head? = some 0 then window.tail else window

def tickWindows (cq : CommandQueue) : CommandQueue :=
  { cq with tFAWCountdown := cq.tFAWCountdown.map tickWindow }

/-- The packet at place `i` of a queue leaves it. -/
def removeAt (cq : CommandQueue) (ref i : ℕ) : CommandQueue :=
  cq.setCell ref ((cq.cell ref).eraseIdx i)

/-- The refresh command, which resets the flag and the rank that waits. -/
def sendRefresh (cq : CommandQueue) : BusPacket × CommandQueue :=
  (BusPacket.new .refresh 0 0 0 cq.refreshRank 0 0 none,
    { cq with refreshRank := -1, refreshWaiting := false })

/-- The first packet of a queue that goes to a row of a bank, with its place. -/
def firstToRow (queue : List BusPacket) (row : Int) (bank : ℕ) : Option (BusPacket × ℕ) :=
  let i := queue.findIdx fun p => decide ((p.row : Int) = row ∧ p.bank = bank)
  queue[i]?.map fun p => (p, i)

/-- The loop over the banks that looks for an open bank while a refresh waits, with closed pages: the
packet it sends, and whether all banks are closed and their times have come. -/
def scanClose (cq : CommandQueue) : List ℕ → Outcome (Option BusPacket × Bool × CommandQueue)
  | [] => return (none, true, cq)
  | b :: bs => do
    let ref ← cq.getCommandQueue cfg cq.refreshRank b
    let s ← bankAt bankStates cq.refreshRank b
    if s.currentBankState = .rowActive then
      match firstToRow (cq.cell ref) s.openRowAddress b with
      | none => return (none, false, cq)
      | some (packet, j) =>
        if packet.busPacketType = .activate then return (none, false, cq)
        else do
          let issuable ← cq.isIssuable cfg bankStates packet
          if issuable then return (some packet, false, cq.removeAt ref j)
          else return (none, false, cq)
    else if cq.currentClockCycle < s.nextActivate then return (none, false, cq)
    else scanClose cq bs

/-- The loop over the banks while a refresh waits, with open pages. An open bank is closed when no
command is left for its row. -/
def scanOpen (cq : CommandQueue) : List ℕ → Outcome (Option BusPacket × Bool × CommandQueue)
  | [] => return (none, true, cq)
  | b :: bs => do
    let s ← bankAt bankStates cq.refreshRank b
    if s.currentBankState = .rowActive then do
      let ref ← cq.getCommandQueue cfg cq.refreshRank b
      match firstToRow (cq.cell ref) s.openRowAddress b with
      | some (packet, j) =>
        -- an activate first: no command in front of it needs the open row
        if packet.busPacketType = .activate then closeRow cq s b
        else do
          let issuable ← cq.isIssuable cfg bankStates packet
          if issuable then return (some packet, false, cq.removeAt ref j)
          else return (none, false, cq)
      | none => closeRow cq s b
    else if cq.currentClockCycle < s.nextActivate then return (none, false, cq)
    else scanOpen cq bs
where
  /-- The bank is closed once it may be. -/
  closeRow (cq : CommandQueue) (s : BankState) (b : ℕ) :
      Outcome (Option BusPacket × Bool × CommandQueue) :=
    if s.nextPrecharge ≤ cq.currentClockCycle then
      return (some (BusPacket.new .precharge 0 0 0 cq.refreshRank b 0 none), false,
        cq.setAccesses cq.refreshRank.toNat b 0)
    else return (none, false, cq)

/-- The loop over the banks while a refresh waits. -/
def scanBanks (cq : CommandQueue) : Outcome (Option BusPacket × Bool × CommandQueue) :=
  match cfg.rowBufferPolicy with
  | .closePage => cq.scanClose cfg bankStates (List.range cfg.numBanks)
  | .openPage => cq.scanOpen cfg bankStates (List.range cfg.numBanks)

/-- The part of `pop` for a waiting refresh. -/
def popRefresh (cq : CommandQueue) : Outcome (Option BusPacket × CommandQueue) :=
  if cq.refreshWaiting then do
    let (found, closed, cq) ← cq.scanBanks cfg bankStates
    if closed then do
      let s ← bankAt bankStates cq.refreshRank 0
      if s.currentBankState ≠ .powerDown then
        let (packet, cq) := cq.sendRefresh
        return (some packet, cq)
      else return (none, cq)
    else return (found, cq)
  else return (none, cq)

/-- The first issuable packet of a queue that is not paired with the activate before it. -/
def firstUnpaired (cq : CommandQueue) : Option BusPacket → ℕ → List BusPacket → Outcome (Option ℕ)
  | _, _, [] => return none
  | prev, i, p :: ps => do
    let issuable ← cq.isIssuable cfg bankStates p
    let paired := prev.any fun a =>
      decide (a.busPacketType = .activate ∧ a.physicalAddress = p.physicalAddress)
    if issuable && !paired then return some i
    else firstUnpaired cq (some p) (i + 1) ps

/-- The first issuable packet of a queue that depends on none of the packets `before` it. -/
def firstIndependent (cq : CommandQueue) : List BusPacket → List BusPacket → Outcome (Option ℕ)
  | _, [] => return none
  | before, p :: ps => do
    let issuable ← cq.isIssuable cfg bankStates p
    let dependency := before.any fun q =>
      decide (q.busPacketType ≠ .activate ∧ q.bank = p.bank ∧ q.row = p.row)
    if issuable && !dependency then return some before.length
    else firstIndependent cq (before ++ [p]) ps

/-- What a visit of a queue with closed pages takes from it. -/
def takeClose (cq : CommandQueue) (ref : ℕ) : Outcome (Option BusPacket × CommandQueue) :=
  match cfg.queuingStructure with
  | .perRank => do
    let i ← cq.firstUnpaired cfg bankStates none 0 (cq.cell ref)
    match i with
    | none => return (none, cq)
    | some i => return ((cq.cell ref)[i]?, cq.removeAt ref i)
  | .perRankPerBank =>
    match cq.cell ref with
    | [] => return (none, cq)
    | p :: _ => do
      let issuable ← cq.isIssuable cfg bankStates p
      if issuable then return (some p, cq.removeAt ref 0) else return (none, cq)

/-- What a visit of a queue with open pages takes from it: the activate before a column access goes
with it. -/
def takeOpen (cq : CommandQueue) (ref : ℕ) : Outcome (Option BusPacket × CommandQueue) := do
  let i ← cq.firstIndependent cfg bankStates [] (cq.cell ref)
  match i with
  | none => return (none, cq)
  | some i =>
    match (cq.cell ref)[i]? with
    | none => return (none, cq)
    | some p =>
      if 0 < i ∧ (cq.cell ref)[i - 1]?.any (fun a => decide (a.busPacketType = .activate)) then do
        let n ← cq.accesses p.rank p.bank
        return (some p, ((cq.setAccesses p.rank p.bank (n + 1)).removeAt ref i).removeAt ref (i - 1))
      else return (some p, cq.removeAt ref i)

/-- The next queue to visit. -/
def rotate (cq : CommandQueue) : CommandQueue :=
  match cfg.queuingStructure with
  | .perRank => { cq with nextRank := (cq.nextRank + 1) % cfg.numRanks }
  | .perRankPerBank =>
    let (rank, bank) := nextRankAndBank cfg (cq.nextRank, cq.nextBank)
    { cq with nextRank := rank, nextBank := bank }

/-- No round robin makes more rounds. -/
def rounds : ℕ := cfg.numRanks * (cfg.numBanks + 1) + 1

/-- What a visit takes from a queue, unless its rank waits for a refresh. -/
def takeFrom (cq : CommandQueue) (ref : ℕ) : Outcome (Option BusPacket × CommandQueue) :=
  if cq.cell ref ≠ [] ∧ ¬((cq.nextRank : Int) = cq.refreshRank ∧ cq.refreshWaiting = true) then
    match cfg.rowBufferPolicy with
    | .closePage => cq.takeClose cfg bankStates ref
    | .openPage => cq.takeOpen cfg bankStates ref
  else return (none, cq)

/-- The round robin is back where it started. -/
def backAt (cq : CommandQueue) (start : ℕ × ℕ) : Bool :=
  match cfg.queuingStructure with
  | .perRank => decide (cq.nextRank = start.1)
  | .perRankPerBank => decide ((cq.nextRank, cq.nextBank) = start)

/-- The visit of one queue in the round robin over the queues, that started at `start`. -/
def visitQueue (start : ℕ × ℕ) (s : Option BusPacket × CommandQueue) :
    Outcome ((Option BusPacket × CommandQueue) × Bool) := do
  let ref ← s.2.getCommandQueue cfg s.2.nextRank s.2.nextBank
  let (found, cq) ← s.2.takeFrom cfg bankStates ref
  match found with
  | some p => return ((some p, cq), false)
  | none => return ((none, cq.rotate cfg), !(cq.rotate cfg).backAt cfg start)

/-- The round robin over the queues. Each queue is visited once. -/
def searchQueues (cq : CommandQueue) : Outcome (Option BusPacket × CommandQueue) :=
  doWhile (visitQueue cfg bankStates (cq.nextRank, cq.nextBank)) (rounds cfg) (none, cq)

/-- The bank `nextBankPRE` of the rank `nextRankPRE` is open, has no command for its row left or
was accessed often enough, and may be closed. -/
def closable (cq : CommandQueue) : Outcome Bool := do
  let ref ← cq.getCommandQueue cfg cq.nextRankPRE cq.nextBankPRE
  let s ← bankAt bankStates cq.nextRankPRE cq.nextBankPRE
  if s.currentBankState = .rowActive then do
    let found := (cq.cell ref).any fun p =>
      decide (p.bank = cq.nextBankPRE ∧ (p.row : Int) = s.openRowAddress)
    let n ← cq.accesses cq.nextRankPRE cq.nextBankPRE
    return (!found || decide (n = cfg.totalRowAccesses)) &&
      decide (s.nextPrecharge ≤ cq.currentClockCycle)
  else return false

/-- The visit of one bank in the round robin over the banks, that started at `start`. -/
def visitBank (start : ℕ × ℕ) (s : Option BusPacket × CommandQueue) :
    Outcome ((Option BusPacket × CommandQueue) × Bool) := do
  let rank := s.2.nextRankPRE
  let bank := s.2.nextBankPRE
  let close ← s.2.closable cfg bankStates
  if close then
    return ((some (BusPacket.new .precharge 0 0 0 rank bank 0 none),
      s.2.setAccesses rank bank 0), false)
  else
    let next := nextRankAndBank cfg (rank, bank)
    return ((none, { s.2 with nextRankPRE := next.1, nextBankPRE := next.2 }),
      decide (next ≠ start))

/-- The round robin over the banks, with open pages. -/
def searchBanks (cq : CommandQueue) : Outcome (Option BusPacket × CommandQueue) :=
  doWhile (visitBank cfg bankStates (cq.nextRankPRE, cq.nextBankPRE)) (rounds cfg) (none, cq)

/-- The search of `pop` for a packet: first a waiting refresh, then the queues, and with open pages
the banks to close. -/
def choose (cq : CommandQueue) : Outcome (Option BusPacket × CommandQueue) := do
  let (found, cq) ← cq.popRefresh cfg bankStates
  match found with
  | some p => return (some p, cq)
  | none => do
    let (found, cq) ← cq.searchQueues cfg bankStates
    match found, cfg.rowBufferPolicy with
    | none, .openPage => cq.searchBanks cfg bankStates
    | found, _ => return (found, cq)

/-- The end of `pop`: with posted accesses the column access is sent behind its activate, and an
activate enters the activation window of its rank. -/
def finish (cq : CommandQueue) (p : BusPacket) : CommandQueue :=
  let cq :=
    if 0 < cfg.al ∧ cq.sendAct = true then { cq with sendAct := false }
    else
      let (rank, bank) := nextRankAndBank cfg (cq.nextRank, cq.nextBank)
      { cq with sendAct := true, nextRank := rank, nextBank := bank }
  if p.busPacketType = .activate then
    { cq with tFAWCountdown := cq.tFAWCountdown.modify p.rank fun w => w ++ [cfg.tFAW] }
  else cq

def pop (cq : CommandQueue) : Outcome (Option BusPacket × CommandQueue) := do
  let (found, cq) ← cq.tickWindows.choose cfg bankStates
  match found with
  | none => return (none, cq)
  | some p => return (some p, cq.finish cfg p)

end CommandQueue

end PIMSim.DDR
