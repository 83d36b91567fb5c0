import PIMSim.DDR.MemoryController
import PIMSim.Library.Postcondition

/-!
# The exits of the ranks

A rank stops the simulation when it receives a command it does not allow, and when it is powered up
or down at the wrong time. The command queue and the parts of the controller that do not touch the
state of the ranks may stop the simulation too, but with few faults, and none of a rank.

## Main definitions

* `rankExits`, `RankExit`: the exits of the ranks
* `overflow`, `queueFaults`: the faults of the command queue
* `Foreign`: faults that are none of the queue, but perhaps the overflow

## Main results

* `CommandQueue.harmless_pop`, `CommandQueue.harmless_enqueue`: the command queue
* `Rank.update_keeps`: the update of a rank keeps the states of its banks
-/

namespace PIMSim.DDR

open CSharp

/-- The exits of the ranks. -/
def rankExits : List Fault :=
  [Rank.notAllowed .read, Rank.notAllowed .readP, Rank.notAllowed .write, Rank.notAllowed .writeP,
    Rank.notAllowed .activate, Rank.notAllowed .precharge, Rank.notAllowed .refresh,
    Rank.notAllowed .data, Rank.notPoweredDown, Rank.tooEarly, Rank.notAllIdle]

abbrev RankExit (e : Fault) : Prop := e ∈ rankExits

variable {cfg : DRAMConfig} {bankStates : List (List BankState)}

/-- The exit of a command that enters a full queue. -/
def overflow : Fault := .exit 1 "Enqueued more than allowed in command queue"

/-- The other faults of the command queue, and of the questions about addresses and transactions. -/
def queueFaults : List Fault :=
  [.argumentOutOfRange, .nonTermination, .exit 0 "Trying to issue a crazy bus packet type",
    .exit 1 "This transaction type doesn't have a corresponding bus packet type",
    .exit (-1) "Unknown Address Mapping Scheme"]

/-- None of these faults is a bad one. -/
class Foreign (bad : Fault → Prop) : Prop where
  not_queue : ∀ e ∈ queueFaults, ¬bad e

instance : Foreign RankExit := ⟨by decide⟩

variable {bad : Fault → Prop} [Foreign bad]

theorem not_rankExit_range : ¬RankExit .argumentOutOfRange := by decide

theorem not_rankExit_null : ¬RankExit .nullReference := by decide

theorem harmless_at {α : Type} (xs : List α) (i : Int) : Harmless bad (listAt xs i) :=
  harmless_listAt (Foreign.not_queue _ (by decide)) xs i

theorem harmless_bankAt (r b : Int) : Harmless bad (bankAt bankStates r b) :=
  (harmless_at _ _).bind fun _ _ => harmless_at _ _

theorem harmless_getBusPacketType (t : Transaction) :
    Harmless bad (t.getBusPacketType cfg) := by
  unfold Transaction.getBusPacketType
  cases t.transactionType <;> cases cfg.rowBufferPolicy
  case returnData.openPage => exact harmless_error (Foreign.not_queue _ (by decide))
  case returnData.closePage => exact harmless_error (Foreign.not_queue _ (by decide))
  all_goals exact harmless_ok _

theorem harmless_addressMapping (address : UInt64) :
    Harmless bad (addressMapping cfg address) := by
  unfold addressMapping
  cases cfg.addressMappingScheme
  case scheme7 => exact harmless_error (Foreign.not_queue _ (by decide))
  all_goals exact harmless_ok _

namespace CommandQueue

variable {cq : CommandQueue}

theorem harmless_getCommandQueue (cq : CommandQueue) (rank bank : Int) :
    Harmless bad (cq.getCommandQueue cfg rank bank) := by
  refine (harmless_at _ _).bind fun row _ => (harmless_at _ _).bind fun perBank _ => ?_
  cases cfg.queuingStructure <;> exact harmless_at _ _

theorem harmless_enqueue (hbad : ¬bad overflow) (p : BusPacket) :
    Harmless bad (cq.enqueue cfg p) := by
  refine (harmless_getCommandQueue cq _ _).bind fun ref _ => ?_
  dsimp only
  split_ifs
  · exact harmless_error hbad
  · exact harmless_ok _

theorem harmless_hasRoomFor (n : ℕ) (rank bank : Int) :
    Harmless bad (cq.hasRoomFor cfg n rank bank) :=
  (harmless_getCommandQueue cq rank bank).bind fun _ _ => harmless_ok _

theorem harmless_isEmpty (rank : ℕ) : Harmless bad (cq.isEmpty cfg rank) := by
  unfold isEmpty
  cases cfg.queuingStructure with
  | perRank => exact (harmless_getCommandQueue cq _ _).bind fun _ _ => harmless_ok _
  | perRankPerBank =>
    refine (mapM_harmless (fun b => ?_) _).bind fun _ _ => harmless_ok _
    exact harmless_getCommandQueue cq rank b

theorem harmless_accesses (cq : CommandQueue) (rank bank : Int) :
    Harmless bad (cq.accesses rank bank) :=
  (harmless_at _ _).bind fun _ _ => harmless_at _ _

theorem harmless_columnIssuable (p : BusPacket) (next : BankState → UInt64) :
    Harmless bad (cq.columnIssuable cfg bankStates p next) := by
  refine (harmless_bankAt _ _).bind fun s _ => ?_
  split_ifs
  · exact (harmless_accesses cq _ _).bind fun _ _ => harmless_ok _
  · exact harmless_ok _

theorem harmless_isIssuable (cq : CommandQueue) (p : BusPacket) :
    Harmless bad (cq.isIssuable cfg bankStates p) := by
  unfold isIssuable
  cases p.busPacketType <;> dsimp only
  case refresh => exact harmless_ok _
  case activate =>
    refine (harmless_bankAt _ _).bind fun s _ => ?_
    split_ifs
    · exact (harmless_at _ _).bind fun _ _ => harmless_ok _
    · exact harmless_ok _
  case precharge => exact (harmless_bankAt _ _).bind fun _ _ => harmless_ok _
  case data => exact harmless_error (Foreign.not_queue _ (by decide))
  all_goals exact harmless_columnIssuable p _

/-- The first packet to an open row is issued if it may be. -/
theorem harmless_issueFirst (packet : BusPacket) (ref j : ℕ) :
    Harmless bad (do
      let issuable ← cq.isIssuable cfg bankStates packet
      if issuable then return (some packet, false, cq.removeAt ref j)
      else return (none, false, cq) : Outcome (Option BusPacket × Bool × CommandQueue)) := by
  refine (harmless_isIssuable cq packet).bind fun issuable _ => ?_
  cases issuable <;> exact harmless_ok _

theorem harmless_scanClose (banks : List ℕ) :
    Harmless bad (cq.scanClose cfg bankStates banks) := by
  induction banks with
  | nil => exact harmless_ok _
  | cons b banks ih =>
    refine (harmless_getCommandQueue cq _ _).bind fun ref _ => ?_
    refine (harmless_bankAt _ _).bind fun s _ => ?_
    split_ifs
    · cases firstToRow (cq.cell ref) s.openRowAddress b with
      | none => exact harmless_ok _
      | some e =>
        obtain ⟨packet, j⟩ := e
        dsimp only
        split_ifs
        · exact harmless_ok _
        · exact harmless_issueFirst packet ref j
    · exact harmless_ok _
    · exact ih

omit [Foreign bad] in
theorem harmless_closeRow (s : BankState) (b : ℕ) :
    Harmless bad (scanOpen.closeRow cq s b) := by
  unfold scanOpen.closeRow
  split_ifs <;> exact harmless_ok _

theorem harmless_scanOpen (banks : List ℕ) :
    Harmless bad (cq.scanOpen cfg bankStates banks) := by
  induction banks with
  | nil => exact harmless_ok _
  | cons b banks ih =>
    refine (harmless_bankAt _ _).bind fun s _ => ?_
    split_ifs
    · refine (harmless_getCommandQueue cq _ _).bind fun ref _ => ?_
      cases firstToRow (cq.cell ref) s.openRowAddress b with
      | none => exact harmless_closeRow s b
      | some e =>
        obtain ⟨packet, j⟩ := e
        dsimp only
        split_ifs
        · exact harmless_closeRow s b
        · exact harmless_issueFirst packet ref j
    · exact harmless_ok _
    · exact ih

theorem harmless_scanBanks : Harmless bad (cq.scanBanks cfg bankStates) := by
  unfold scanBanks
  cases cfg.rowBufferPolicy
  · exact harmless_scanOpen _
  · exact harmless_scanClose _

theorem harmless_popRefresh : Harmless bad (cq.popRefresh cfg bankStates) := by
  unfold popRefresh
  split_ifs
  · refine harmless_scanBanks.bind fun r _ => ?_
    obtain ⟨found, closed, cq₁⟩ := r
    cases closed with
    | false => exact harmless_ok _
    | true =>
      refine (harmless_bankAt _ _).bind fun s _ => ?_
      split_ifs <;> exact harmless_ok _
  · exact harmless_ok _

theorem harmless_firstUnpaired (prev : Option BusPacket) (i : ℕ) (queue : List BusPacket) :
    Harmless bad (cq.firstUnpaired cfg bankStates prev i queue) := by
  induction queue generalizing prev i with
  | nil => exact harmless_ok _
  | cons p queue ih =>
    refine (harmless_isIssuable cq p).bind fun issuable _ => ?_
    dsimp only
    split_ifs
    · exact harmless_ok _
    · exact ih _ _

theorem harmless_firstIndependent (before queue : List BusPacket) :
    Harmless bad (cq.firstIndependent cfg bankStates before queue) := by
  induction queue generalizing before with
  | nil => exact harmless_ok _
  | cons p queue ih =>
    refine (harmless_isIssuable cq p).bind fun issuable _ => ?_
    dsimp only
    split_ifs
    · exact harmless_ok _
    · exact ih _

theorem harmless_takeClose (ref : ℕ) : Harmless bad (cq.takeClose cfg bankStates ref) := by
  unfold takeClose
  cases cfg.queuingStructure <;> dsimp only
  · refine (harmless_firstUnpaired _ _ _).bind fun i _ => ?_
    cases i <;> exact harmless_ok _
  · cases cq.cell ref with
    | nil => exact harmless_ok _
    | cons p queue =>
      refine (harmless_isIssuable cq p).bind fun issuable _ => ?_
      cases issuable <;> exact harmless_ok _

theorem harmless_takeOpen (ref : ℕ) : Harmless bad (cq.takeOpen cfg bankStates ref) := by
  refine (harmless_firstIndependent _ _).bind fun i _ => ?_
  cases i with
  | none => exact harmless_ok _
  | some i =>
    dsimp only
    cases (cq.cell ref)[i]? with
    | none => exact harmless_ok _
    | some p =>
      dsimp only
      split_ifs
      · exact (harmless_accesses cq _ _).bind fun _ _ => harmless_ok _
      · exact harmless_ok _

theorem harmless_takeFrom (ref : ℕ) : Harmless bad (cq.takeFrom cfg bankStates ref) := by
  unfold takeFrom
  split_ifs
  · cases cfg.rowBufferPolicy
    · exact harmless_takeOpen ref
    · exact harmless_takeClose ref
  · exact harmless_ok _

theorem harmless_searchQueues : Harmless bad (cq.searchQueues cfg bankStates) := by
  refine doWhile_harmless (Foreign.not_queue _ (by decide)) (fun s => ?_) _ _
  refine (harmless_getCommandQueue s.2 _ _).bind fun ref _ => ?_
  refine (harmless_takeFrom ref).bind fun r _ => ?_
  obtain ⟨found, cq₁⟩ := r
  cases found <;> exact harmless_ok _

theorem harmless_closable (cq : CommandQueue) : Harmless bad (cq.closable cfg bankStates) := by
  refine (harmless_getCommandQueue cq _ _).bind fun ref _ => ?_
  refine (harmless_bankAt _ _).bind fun s _ => ?_
  split_ifs
  · exact (harmless_accesses cq _ _).bind fun _ _ => harmless_ok _
  · exact harmless_ok _

theorem harmless_searchBanks : Harmless bad (cq.searchBanks cfg bankStates) := by
  refine doWhile_harmless (Foreign.not_queue _ (by decide)) (fun s => ?_) _ _
  refine (harmless_closable s.2).bind fun close _ => ?_
  cases close <;> exact harmless_ok _

theorem harmless_choose : Harmless bad (cq.choose cfg bankStates) := by
  refine harmless_popRefresh.bind fun r _ => ?_
  obtain ⟨found, cq₁⟩ := r
  cases found with
  | some p => exact harmless_ok _
  | none =>
    refine harmless_searchQueues.bind fun r _ => ?_
    obtain ⟨found, cq₂⟩ := r
    cases found with
    | some p => exact harmless_ok _
    | none =>
      cases cfg.rowBufferPolicy
      · exact harmless_searchBanks
      · exact harmless_ok _

/-- **The command queue** does not stop the simulation with an exit of a rank. -/
theorem harmless_pop (cq : CommandQueue) : Harmless bad (cq.pop cfg bankStates) := by
  refine harmless_choose.bind fun r _ => ?_
  obtain ⟨found, cq₁⟩ := r
  cases found <;> exact harmless_ok _

end CommandQueue

theorem harmless_firstWithRoom (cq : CommandQueue) (i : ℕ) (ts : List Transaction) :
    Harmless bad (MemorySystem.firstWithRoom cfg cq i ts) := by
  induction ts generalizing i with
  | nil => exact harmless_ok _
  | cons t ts ih =>
    refine (harmless_addressMapping t.address).bind fun place _ => ?_
    refine (CommandQueue.harmless_hasRoomFor _ _ _).bind fun room _ => ?_
    cases room with
    | true => exact harmless_ok _
    | false => exact ih (i + 1)

namespace Rank

/-- Two states of a rank with the same banks, power state and clock. -/
structure Keeps (r r' : Rank) : Prop where
  banks : r'.bankStates = r.bankStates
  power : r'.isPowerDown = r.isPowerDown
  clock : r'.currentClockCycle = r.currentClockCycle

theorem transfer_keeps (r : Rank) : Keeps r r.transfer.2 := by
  unfold transfer
  cases r.outgoingDataPacket with
  | none => exact ⟨rfl, rfl, rfl⟩
  | some p =>
    dsimp only
    split_ifs <;> exact ⟨rfl, rfl, rfl⟩

theorem countDown_keeps (r : Rank) : Ensures RankExit (r.countDown cfg) (Keeps r) := by
  unfold countDown
  dsimp only
  split_ifs
  · cases r.readReturnPacket with
    | nil => exact ensures_error not_rankExit_range
    | cons p packets => exact ensures_ok ⟨rfl, rfl, rfl⟩
  · exact ensures_ok ⟨rfl, rfl, rfl⟩

/-- The update of a rank keeps the states of its banks. -/
theorem update_keeps (r : Rank) : Ensures RankExit (r.update cfg) fun x => Keeps r x.2 := by
  have hfirst := transfer_keeps r
  unfold update
  generalize r.transfer = x at hfirst
  obtain ⟨arrived, r₁⟩ := x
  refine (countDown_keeps r₁).bind fun r₂ hsecond => ensures_ok ?_
  exact ⟨hsecond.banks.trans hfirst.banks, hsecond.power.trans hfirst.power,
    hsecond.clock.trans hfirst.clock⟩

/-- A packet that the banks of a rank accept is received. -/
theorem receiveFromBus_keeps {r : Rank} {p : BusPacket} {us : List BankState}
    (h : receiveBanks cfg r.currentClockCycle p r.bankStates = .ok us) :
    Ensures RankExit (r.receiveFromBus cfg p) (Keeps { r with bankStates := us }) := by
  have hlater : ∀ r' : Rank, Keeps { r with bankStates := us } r' →
      Ensures RankExit (receiveFromBus.returnLater cfg p r')
        (Keeps { r with bankStates := us }) := by
    intro r' hkeeps
    unfold receiveFromBus.returnLater
    split_ifs
    · exact ensures_error not_rankExit_null
    · exact ensures_ok ⟨hkeeps.banks, hkeeps.power, hkeeps.clock⟩
  unfold receiveFromBus
  rw [h, Outcome.ok_bind]
  cases p.busPacketType <;> dsimp only
  case read => exact hlater _ ⟨rfl, rfl, rfl⟩
  case readP => exact hlater _ ⟨rfl, rfl, rfl⟩
  case data =>
    split_ifs
    · exact ensures_error (by decide)
    · exact ensures_error not_rankExit_null
    · exact ensures_ok ⟨rfl, rfl, rfl⟩
  all_goals exact ensures_ok ⟨rfl, rfl, rfl⟩

end Rank

end PIMSim.DDR
