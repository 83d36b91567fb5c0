import PIMSim.DDR.Coupling
import PIMSim.DDR.Exits

/-!
# The accounts of a memory system

A read waits in the transaction queue and then among the pending reads, until its data has made its
way from the command queue through a rank back to the controller. The data of a write goes from the
command queue to the list of data to send and over the data bus. At every point of an update the
accepted transactions are those completed and those under way, and every read whose data is under way
is among the pending ones, so that the data finds it.

## Main definitions

* `completedReads`, `pendingReads`, `completedWrites`, `pendingWrites`: the accounts
* `returning`: the addresses of the reads whose data is under way
* `Accounts cfg accepted s`: what holds of the accounts
* `completionFaults`, `Lost`: the exits for a completion that matches nothing

## Main results

* `Accounts.accept`: a transaction is accepted
* `update_accounts`: an update keeps the accounts, and does not end in that exit
-/

namespace PIMSim.DDR

open CSharp CommandQueue

/-! ### The accounts -/

def TransactionType.isRead (type : TransactionType) : Bool := type = .dataRead

def TransactionType.isWrite (type : TransactionType) : Bool := type = .dataWrite

namespace BusPacketType

def isRead : BusPacketType → Bool
  | .read | .readP => true
  | _ => false

def isWrite : BusPacketType → Bool
  | .write | .writeP => true
  | _ => false

end BusPacketType

/-- A read or a write by what its callback tells: the address, and the information of the request. -/
abbrev Call := UInt64 × Option CallBackInfo

def Transaction.call (t : Transaction) : Call := (t.address, t.callback)

def BusPacket.call (p : BusPacket) : Call := (p.physicalAddress, p.callback)

/-- A read that is returned. -/
def Happening.read? : Happening → Option Transaction
  | .returnReadData t => some t
  | _ => none

/-- A write whose data was sent. -/
def Happening.write? : Happening → Option Call
  | .writeDataDone address callback => some (address, callback)
  | _ => none

/-- The data of reads that a rank holds. -/
def Rank.readData (r : Rank) : List BusPacket := r.readReturnPacket ++ r.outgoingDataPacket.toList

namespace MemorySystem

variable (s : MemorySystem)

def completedReads : List Transaction := s.history.filterMap Happening.read?

def completedWrites : List Call := s.history.filterMap Happening.write?

/-- The reads that were accepted and not returned. -/
def pendingReads : List Transaction :=
  (s.controller.transactionQueue.filter fun t => t.transactionType.isRead) ++
    s.controller.pendingReadTransactions

/-- The writes that were accepted and whose data was not sent. -/
def pendingWrites : List Call :=
  (s.controller.transactionQueue.filter fun t => t.transactionType.isWrite).map Transaction.call ++
    (s.controller.commandQueue.columns.filter fun p => p.busPacketType.isWrite).map
      BusPacket.call ++
    s.controller.writeDataToSend.map BusPacket.call ++
    s.controller.outgoingDataPacket.toList.map BusPacket.call

/-- The commands and the data of reads under way to the list of transactions to return. -/
def readPackets : List BusPacket :=
  (s.controller.commandQueue.columns.filter fun p => p.busPacketType.isRead) ++
    (s.controller.outgoingCmdPacket.toList.filter fun p => p.busPacketType.isRead) ++
    (s.ranks.map Rank.readData).flatten

/-- The addresses of the reads whose data is under way. -/
def returning : List UInt64 :=
  s.readPackets.map BusPacket.physicalAddress ++ s.controller.returnTransaction.map Transaction.address

/-- The addresses of the reads that wait for data. -/
def awaited : List UInt64 := s.controller.pendingReadTransactions.map Transaction.address

end MemorySystem

open MemorySystem

/-- The books of a memory system that accepted these transactions: each of them is completed or
pending, and the data under way is awaited. -/
structure Balanced (accepted : List Transaction) (s : MemorySystem) : Prop where
  reads : (s.completedReads ++ s.pendingReads).Perm
    (accepted.filter fun t => t.transactionType.isRead)
  writes : (s.completedWrites ++ s.pendingWrites).Perm
    ((accepted.filter fun t => t.transactionType.isWrite).map Transaction.call)
  due : ∀ a, s.returning.count a ≤ s.awaited.count a
  data : ∀ p ∈ s.controller.writeDataToSend ++ s.controller.outgoingDataPacket.toList,
    p.busPacketType = .data

/-- The exits for data without a pending read, and for a callback without an entry of the receiver. -/
def completionFaults : List Fault :=
  [.exit 0 "Can't find a matching transaction",
    .exit 1 "ERROR: Cant find a pending read for this one", .exit 1 "ERROR:Nothing here, either",
    .exit 1 "ERROR  : Cant find a pending read for this one", .exit 1 "ERROR  : Nothing here, either"]

abbrev Lost (e : Fault) : Prop := e ∈ completionFaults

instance : Foreign Lost := ⟨by decide⟩

variable {cfg : DRAMConfig} {accepted : List Transaction} {s s' : MemorySystem}

/-! ### Parts that do not touch the accounts -/

/-- The accounts are the same. -/
structure Untouched (s s' : MemorySystem) : Prop where
  reads : s'.completedReads = s.completedReads
  writes : s'.completedWrites = s.completedWrites
  queue : s'.controller.transactionQueue = s.controller.transactionQueue
  awaiting : s'.controller.pendingReadTransactions = s.controller.pendingReadTransactions
  toReturn : s'.controller.returnTransaction = s.controller.returnTransaction
  cells : s'.controller.commandQueue.cells = s.controller.commandQueue.cells
  toSend : s'.controller.writeDataToSend = s.controller.writeDataToSend
  data : s'.controller.outgoingDataPacket = s.controller.outgoingDataPacket
  command : s'.controller.outgoingCmdPacket = s.controller.outgoingCmdPacket
  ranks : s'.ranks.map Rank.readData = s.ranks.map Rank.readData

theorem Balanced.untouched (h : Balanced accepted s) (hsame : Untouched s s') :
    Balanced accepted s' := by
  have hcolumns : s'.controller.commandQueue.columns = s.controller.commandQueue.columns := by
    unfold CommandQueue.columns
    rw [hsame.cells]
  refine ⟨?_, ?_, fun a => ?_, ?_⟩
  · unfold pendingReads
    rw [hsame.reads, hsame.queue, hsame.awaiting]
    exact h.reads
  · unfold pendingWrites
    rw [hsame.writes, hsame.queue, hcolumns, hsame.toSend, hsame.data]
    exact h.writes
  · have hreturning : s'.returning = s.returning := by
      unfold returning readPackets
      rw [hcolumns, hsame.command, hsame.ranks, hsame.toReturn]
    have hawaited : s'.awaited = s.awaited := by
      unfold awaited
      rw [hsame.awaiting]
    rw [hreturning, hawaited]
    exact h.due a
  · rw [hsame.toSend, hsame.data]
    exact h.data

@[simp] theorem completedReads_note (s : MemorySystem) (e : Happening) :
    (s.note e).completedReads = s.completedReads ++ e.read?.toList := by
  show (s.history ++ [e]).filterMap Happening.read? = _
  rw [List.filterMap_append]
  cases h : e.read? <;> simp [completedReads, h]

@[simp] theorem completedWrites_note (s : MemorySystem) (e : Happening) :
    (s.note e).completedWrites = s.completedWrites ++ e.write?.toList := by
  show (s.history ++ [e]).filterMap Happening.write? = _
  rw [List.filterMap_append]
  cases h : e.write? <;> simp [completedWrites, h]

/-- A rank is replaced by one with the same data. -/
theorem map_readData_set {i : ℕ} {r r' : Rank} (h : listAt s.ranks (i : Int) = .ok r)
    (hdata : r'.readData = r.readData) :
    (s.ranks.set i r').map Rank.readData = s.ranks.map Rank.readData := by
  have hget := listAt_natCast.mp h
  obtain ⟨hlt, rfl⟩ := List.getElem?_eq_some_iff.mp hget
  rw [List.map_set, hdata]
  apply List.ext_getElem?
  intro k
  rw [List.getElem?_set]
  split_ifs with hk hk'
  · rw [← hk, List.getElem?_map, hget]
    rfl
  · rw [List.length_map] at hk'
    exact absurd hlt hk'
  · rfl

theorem Untouched.refl (s : MemorySystem) : Untouched s s :=
  ⟨rfl, rfl, rfl, rfl, rfl, rfl, rfl, rfl, rfl, rfl⟩

theorem updateBanks_untouched (s : MemorySystem) : Untouched s (s.updateBanks cfg) :=
  { Untouched.refl s with }

theorem awaitRefresh_untouched {i : ℕ} : Ensures Lost (s.awaitRefresh i) (Untouched s) := by
  refine (harmless_at _ _).bind fun r hr => ensures_ok ?_
  exact { Untouched.refl s with ranks := map_readData_set hr rfl }

theorem checkRefresh_untouched : Ensures Lost (s.checkRefresh cfg) (Untouched s) := by
  refine (harmless_at _ _).bind fun countdown _ => ?_
  by_cases hdue : countdown = 0
  · rw [if_pos hdue]
    refine awaitRefresh_untouched.bind fun s₁ hs₁ => ensures_ok ?_
    refine ⟨?_, ?_, rfl, rfl, rfl, rfl, rfl, rfl, rfl, hs₁.ranks⟩
    · rw [completedReads_note]
      exact (List.append_nil _).trans hs₁.reads
    · rw [completedWrites_note]
      exact (List.append_nil _).trans hs₁.writes
  · rw [if_neg hdue]
    refine (harmless_at _ _).bind fun down _ => ?_
    split_ifs
    · exact awaitRefresh_untouched
    · exact ensures_ok (.refl s)

theorem Rank.powerDown_readData (r : Rank) :
    Ensures Lost (r.powerDown cfg) fun r' => r'.readData = r.readData := by
  unfold powerDown
  split_ifs
  · exact ensures_error (by decide)
  · exact ensures_ok rfl

theorem Rank.powerUp_readData (r : Rank) :
    Ensures Lost (r.powerUp cfg) fun r' => r'.readData = r.readData := by
  unfold powerUp
  split_ifs
  · exact ensures_error (by decide)
  · exact ensures_error (by decide)
  · exact ensures_ok rfl

theorem managePower_untouched (i : ℕ) : Ensures Lost (s.managePower cfg i) (Untouched s) := by
  unfold managePower
  split_ifs
  · refine (harmless_isEmpty _).bind fun empty _ => (harmless_at _ _).bind fun r _ => ?_
    refine (harmless_at _ _).bind fun banks _ => ?_
    split_ifs
    · refine (harmless_at _ _).bind fun r hr => (Rank.powerDown_readData r).bind fun r' hr' => ?_
      exact ensures_ok { Untouched.refl s with ranks := map_readData_set hr hr' }
    · exact ensures_ok (.refl s)
    · refine (harmless_at _ _).bind fun b _ => (harmless_at _ _).bind fun down _ => ?_
      split_ifs
      · refine (harmless_at _ _).bind fun r hr => (Rank.powerUp_readData r).bind fun r' hr' => ?_
        exact ensures_ok { Untouched.refl s with ranks := map_readData_set hr hr' }
      · exact ensures_ok (.refl s)
  · exact ensures_ok (.refl s)

theorem countDown_untouched (s : MemorySystem) : Untouched s s.countDown :=
  { Untouched.refl s with }

theorem stepClocks_untouched (s : MemorySystem) : Untouched s s.stepClocks := by
  refine { Untouched.refl s with ranks := ?_ }
  show (s.ranks.map Rank.step).map Rank.readData = _
  rw [List.map_map]
  rfl

/-! ### The ranks -/

/-- The number of packets with an address. -/
def atAddress (a : UInt64) (packets : List BusPacket) : ℕ :=
  (packets.map BusPacket.physicalAddress).count a

@[simp] theorem atAddress_nil (a : UInt64) : atAddress a [] = 0 := rfl

@[simp] theorem atAddress_append (a : UInt64) (ps qs : List BusPacket) :
    atAddress a (ps ++ qs) = atAddress a ps + atAddress a qs := by
  unfold atAddress
  rw [List.map_append, List.count_append]

theorem atAddress_cons (a : UInt64) (p : BusPacket) (ps : List BusPacket) :
    atAddress a (p :: ps) = atAddress a [p] + atAddress a ps :=
  atAddress_append a [p] ps

theorem atAddress_perm (a : UInt64) {ps qs : List BusPacket} (h : ps.Perm qs) :
    atAddress a ps = atAddress a qs :=
  (h.map _).count_eq a

/-- A packet that arrives leaves the rank. -/
theorem Rank.transfer_readData (r : Rank) (a : UInt64) :
    atAddress a r.transfer.1.toList + atAddress a r.transfer.2.readData =
      atAddress a r.readData := by
  unfold transfer
  cases hout : r.outgoingDataPacket with
  | none => exact Nat.zero_add _
  | some p =>
    dsimp only
    split_ifs
    · unfold readData
      simp only [hout, atAddress_append, Option.toList_some, Option.toList_none, atAddress_nil]
      exact Nat.add_comm _ _
    · unfold readData
      simp only [hout, Option.toList_none, atAddress_nil]
      exact Nat.zero_add _

/-- Data that goes out takes the place of data on its way out. -/
theorem Rank.countDown_readData (r : Rank) : Ensures Lost (r.countDown cfg) fun r' =>
    ∀ a, atAddress a r'.readData ≤ atAddress a r.readData := by
  unfold countDown readData
  dsimp only
  split_ifs
  · cases r.readReturnPacket with
    | nil => exact ensures_error (by decide)
    | cons p packets =>
      refine ensures_ok fun a => ?_
      simp only [atAddress_append, Option.toList_some, atAddress_cons a p packets]
      omega
  · exact ensures_ok fun a => Nat.le_refl _

theorem Rank.update_readData (r : Rank) : Ensures Lost (r.update cfg) fun x =>
    ∀ a, atAddress a x.1.toList + atAddress a x.2.readData ≤ atAddress a r.readData := by
  have hfirst := r.transfer_readData
  unfold update
  generalize r.transfer = x at hfirst
  obtain ⟨arrived, r₁⟩ := x
  refine r₁.countDown_readData.bind fun r₂ hsecond => ensures_ok fun a => ?_
  have h₁ := hfirst a
  have h₂ := hsecond a
  dsimp only at h₁ ⊢
  omega

/-- The data of the ranks, when one of them changes. -/
theorem atAddress_ranks {i : ℕ} {r : Rank} (h : listAt s.ranks (i : Int) = .ok r) (r' : Rank)
    (a : UInt64) : atAddress a r.readData +
      atAddress a ((s.ranks.set i r').map Rank.readData).flatten =
        atAddress a r'.readData + atAddress a (s.ranks.map Rank.readData).flatten := by
  have hget : (s.ranks.map Rank.readData)[i]? = some r.readData := by
    rw [List.getElem?_map, listAt_natCast.mp h]
    rfl
  have hperm := atAddress_perm a (Queues.flatten_set_perm hget r'.readData)
  rw [atAddress_append, atAddress_append] at hperm
  rw [List.map_set]
  exact hperm

/-- What is under way, by its parts. -/
theorem count_returning (s : MemorySystem) (a : UInt64) : s.returning.count a =
    atAddress a (s.controller.commandQueue.columns.filter fun p => p.busPacketType.isRead) +
      atAddress a (s.controller.outgoingCmdPacket.toList.filter fun p => p.busPacketType.isRead) +
      atAddress a (s.ranks.map Rank.readData).flatten +
      (s.controller.returnTransaction.map Transaction.address).count a := by
  unfold returning readPackets
  rw [List.count_append]
  show atAddress a _ + _ = _
  rw [atAddress_append, atAddress_append]

theorem receiveFromBus_balanced {p : BusPacket} (h : Balanced accepted s)
    (hroom : ∀ a, atAddress a [p] + s.returning.count a ≤ s.awaited.count a) :
    Ensures Lost (s.receiveFromBus p) (Balanced accepted) := by
  unfold MemorySystem.receiveFromBus
  split_ifs
  · exact ensures_error (by decide)
  · cases p.callback with
    | none => exact ensures_error (by decide)
    | some callback =>
      refine ensures_ok { h with due := fun a => ?_ }
      have hcount := hroom a
      rw [count_returning] at hcount ⊢
      rw [List.map_append, List.count_append]
      simp only [awaited, atAddress] at hcount ⊢
      simp only [List.map_cons, List.map_nil] at hcount ⊢
      omega

theorem updateRank_balanced {i : ℕ} (h : Balanced accepted s) :
    Ensures Lost (s.updateRank cfg i) (Balanced accepted) := by
  refine (harmless_at _ _).bind fun r hr => r.update_readData.bind fun x hx => ?_
  obtain ⟨arrived, r'⟩ := x
  have hleft : ∀ a, atAddress a arrived.toList +
      ({ s with ranks := s.ranks.set i r' } : MemorySystem).returning.count a ≤
        s.awaited.count a := by
    intro a
    have hdue := h.due a
    have hranks := atAddress_ranks hr r' a
    have hdata := hx a
    rw [count_returning] at hdue ⊢
    dsimp only at hdata ⊢
    omega
  cases arrived with
  | none =>
    refine ensures_ok { h with due := fun a => ?_ }
    have hcount := hleft a
    simp only [Option.toList_none, atAddress_nil] at hcount
    exact le_of_add_le_right hcount
  | some p =>
    have hset : Balanced accepted { s with ranks := s.ranks.set i r' } :=
      { h with due := fun a => le_of_add_le_right (hleft a) }
    exact receiveFromBus_balanced hset hleft

/-! ### The buses -/

/-- A packet that a rank receives is data it holds afterwards, if it is a read. -/
theorem Rank.receiveFromBus_readData (r : Rank) (p : BusPacket) :
    Ensures Lost (r.receiveFromBus cfg p) fun r' => ∀ a, atAddress a r'.readData =
      atAddress a r.readData + atAddress a ([p].filter fun p => p.busPacketType.isRead) := by
  -- A command that the rank refuses ends the program in another way than a lost transaction does.
  have hbanks : Harmless Lost (receiveBanks cfg r.currentClockCycle p r.bankStates) := by
    have hallows : Harmless Lost (allows r.currentClockCycle p r.bankStates) := by
      unfold allows
      cases p.busPacketType <;> dsimp only
      case refresh => exact harmless_ok _
      case data => exact harmless_ok _
      all_goals exact (harmless_at _ _).bind fun _ _ => harmless_ok _
    refine hallows.bind fun allowed _ => ?_
    split_ifs
    · exact harmless_ok _
    · refine harmless_error ?_
      cases p.busPacketType <;> decide
  have hlater : ∀ bankStates : List BankState, p.busPacketType.isRead = true →
      Ensures Lost (receiveFromBus.returnLater cfg p { r with bankStates := bankStates }) fun r' =>
        ∀ a, atAddress a r'.readData = atAddress a r.readData +
          atAddress a ([p].filter fun p => p.busPacketType.isRead) := by
    intro bankStates hread
    unfold receiveFromBus.returnLater
    split_ifs
    · exact ensures_error (by decide)
    · refine ensures_ok fun a => ?_
      have hsame : atAddress a [{ p with busPacketType := .data }] = atAddress a [p] := rfl
      unfold readData
      simp only [atAddress_append, hsame, List.filter_cons, hread, if_true, List.filter_nil]
      omega
  have hother : p.busPacketType.isRead = false → ∀ a, atAddress a r.readData =
      atAddress a r.readData + atAddress a ([p].filter fun p => p.busPacketType.isRead) := by
    intro hread a
    simp only [List.filter_cons, hread, Bool.false_eq_true, if_false, List.filter_nil, atAddress_nil,
      Nat.add_zero]
  refine hbanks.bind fun bankStates _ => ?_
  cases htype : p.busPacketType <;> rw [htype] at hlater hother
  case read => exact hlater bankStates rfl
  case readP => exact hlater bankStates rfl
  case data =>
    dsimp only
    split_ifs
    · exact ensures_error (by decide)
    · exact ensures_error (by decide)
    · exact ensures_ok (hother rfl)
  all_goals exact ensures_ok (hother rfl)

/-- What happens is no completion. -/
theorem Balanced.note (h : Balanced accepted s) {e : Happening} (hread : e.read? = none)
    (hwrite : e.write? = none) : Balanced accepted (s.note e) := by
  refine ⟨?_, ?_, h.due, h.data⟩
  · rw [completedReads_note, hread, Option.toList_none, List.append_nil]
    exact h.reads
  · rw [completedWrites_note, hwrite, Option.toList_none, List.append_nil]
    exact h.writes

/-- A rank receives a packet. -/
theorem deliver_readData (p : BusPacket) : Ensures Lost (s.deliver cfg p) fun s' =>
    ∃ ranks, s' = { s with ranks := ranks }.note (.received p.rank p) ∧
      ∀ a, atAddress a (ranks.map Rank.readData).flatten =
        atAddress a (s.ranks.map Rank.readData).flatten +
          atAddress a ([p].filter fun p => p.busPacketType.isRead) := by
  refine (harmless_at _ _).bind fun r hr => (r.receiveFromBus_readData p).bind fun r' hr' => ?_
  refine ensures_ok ⟨s.ranks.set p.rank r', rfl, fun a => ?_⟩
  have hranks := atAddress_ranks hr r' a
  have hdata := hr' a
  omega

theorem moveCommand_balanced (h : Balanced accepted s) :
    Ensures Lost (s.moveCommand cfg) (Balanced accepted) := by
  unfold moveCommand
  cases hout : s.controller.outgoingCmdPacket with
  | none => exact ensures_ok h
  | some p =>
    dsimp only
    split_ifs
    · refine (deliver_readData p).bind fun s₁ hs₁ => ?_
      obtain ⟨ranks, rfl, hranks⟩ := hs₁
      -- The command becomes data of its rank.
      have harrived : Balanced accepted { s with
          ranks := ranks
          controller := { s.controller with
            cmdCyclesLeft := s.controller.cmdCyclesLeft - 1
            outgoingCmdPacket := none } } := by
        refine { h with due := fun a => ?_ }
        have hdue := h.due a
        have hdata := hranks a
        rw [count_returning, hout, Option.toList_some] at hdue
        rw [count_returning]
        dsimp only [Option.toList_none, List.filter_nil, atAddress_nil] at hdata ⊢
        simp only [awaited] at hdue ⊢
        omega
      exact ensures_ok (harrived.note rfl rfl)
    · exact ensures_ok { h with }

theorem moveData_balanced (h : Balanced accepted s) :
    Ensures Lost (s.moveData cfg) (Balanced accepted) := by
  unfold moveData
  cases hout : s.controller.outgoingDataPacket with
  | none => exact ensures_ok h
  | some p =>
    dsimp only
    split_ifs
    · refine (deliver_readData p).bind fun s₁ hs₁ => ?_
      obtain ⟨ranks, rfl, hranks⟩ := hs₁
      have htype : p.busPacketType = .data := by
        apply h.data p
        rw [hout]
        exact List.mem_append_right _ List.mem_cons_self
      have hsent : Balanced accepted { s.note (.writeDataDone p.physicalAddress p.callback) with
          ranks := ranks
          controller := { s.controller with
            dataCyclesLeft := s.controller.dataCyclesLeft - 1
            outgoingDataPacket := none } } := by
        refine ⟨?_, ?_, fun a => ?_, fun q hq => ?_⟩
        · have hreads : (s.note (.writeDataDone p.physicalAddress p.callback)).completedReads =
              s.completedReads := by
            rw [completedReads_note]
            exact List.append_nil _
          have hbefore := h.reads
          rw [← hreads] at hbefore
          exact hbefore
        · -- The write is completed.
          have hwrites : (s.note (.writeDataDone p.physicalAddress p.callback)).completedWrites =
              s.completedWrites ++ [p.call] := completedWrites_note _ _
          have hbefore := h.writes
          unfold pendingWrites at hbefore ⊢
          rw [hout, Option.toList_some, List.map_singleton] at hbefore
          refine List.Perm.trans ?_ hbefore
          show (MemorySystem.completedWrites (s.note _) ++ _).Perm _
          rw [hwrites, Option.toList_none, List.map_nil, List.append_nil, List.append_assoc]
          exact List.Perm.append_left _ List.perm_append_comm
        · have hdue := h.due a
          have hdata := hranks a
          rw [count_returning] at hdue ⊢
          simp only [List.filter_cons, htype, BusPacketType.isRead, Bool.false_eq_true, if_false,
            List.filter_nil, atAddress_nil, Nat.add_zero] at hdata
          show _ + _ + atAddress a (ranks.map Rank.readData).flatten + _ ≤ _
          rw [hdata]
          exact hdue
        · apply h.data q
          exact List.mem_append_left _ ((List.append_nil _).subst hq)
      exact ensures_ok (hsent.note rfl rfl)
    · exact ensures_ok { h with }

theorem sendWriteData_balanced (h : Balanced accepted s) :
    Ensures Lost (s.sendWriteData cfg) (Balanced accepted) := by
  unfold sendWriteData
  dsimp only
  split_ifs with hzero hbusy
  · exact ensures_error (by decide)
  · have hfree : s.controller.outgoingDataPacket = none := by
      by_contra hne
      exact hbusy hne
    cases hsend : s.controller.writeDataToSend with
    | nil => exact ensures_error (by decide)
    | cons p packets =>
      refine ensures_ok { h with writes := ?_, data := fun q hq => ?_ }
      · have hbefore := h.writes
        unfold pendingWrites at hbefore ⊢
        rw [hsend, hfree, Option.toList_none, List.map_nil, List.append_nil] at hbefore
        refine List.Perm.trans ?_ hbefore
        refine List.Perm.append_left _ ?_
        rw [List.append_assoc]
        refine List.Perm.append_left _ ?_
        exact List.perm_append_comm
      · apply h.data q
        rw [hsend]
        apply List.mem_append_left
        rcases List.mem_append.mp hq with hq | hq
        · exact List.mem_cons_of_mem p hq
        · cases List.mem_singleton.mp hq
          exact List.mem_cons_self
  · exact ensures_ok { h with }

/-! ### The command queue -/

theorem BusPacketType.isColumn_of_isRead {type : BusPacketType} (h : type.isRead = true) :
    type.isColumn = true := by
  cases type <;> first | rfl | cases h

theorem BusPacketType.isColumn_of_isWrite {type : BusPacketType} (h : type.isWrite = true) :
    type.isColumn = true := by
  cases type <;> first | rfl | cases h

/-- The column accesses of one kind, when there is one more. -/
theorem filter_columns_perm {f : BusPacketType → Bool} (hf : ∀ type, f type → type.isColumn = true)
    {p : BusPacket} {columns columns' : List BusPacket}
    (h : columns.Perm ((if p.busPacketType.isColumn then [p] else []) ++ columns')) :
    (columns.filter fun p => f p.busPacketType).Perm
      (([p].filter fun p => f p.busPacketType) ++ columns'.filter fun p => f p.busPacketType) := by
  have hfilter := h.filter fun p => f p.busPacketType
  rw [List.filter_append] at hfilter
  refine hfilter.trans (List.Perm.of_eq ?_)
  congr 1
  split_ifs with hcolumn
  · rfl
  · have hkind : f p.busPacketType = false := by
      by_contra hne
      exact hcolumn (hf _ (Bool.eq_true_of_not_eq_false hne))
    rw [List.filter_cons, hkind]
    rfl

theorem BusPacketType.isWrite_iff {type : BusPacketType} :
    type.isWrite = true ↔ type = .write ∨ type = .writeP := by
  cases type <;> simp [isWrite]

/-- A popped command is put on the bus, and the data of a write among the data to send. -/
theorem issue_balanced {p : BusPacket} {cq : CommandQueue} (h : Balanced accepted s)
    (hcolumns : s.controller.commandQueue.columns.Perm
      ((if p.busPacketType.isColumn then [p] else []) ++ cq.columns)) :
    Ensures Lost (({ s with controller := { s.controller with commandQueue := cq } } :
      MemorySystem).issue cfg p) (Balanced accepted) := by
  have hreads := filter_columns_perm (fun _ => BusPacketType.isColumn_of_isRead) hcolumns
  have hwrites := filter_columns_perm (fun _ => BusPacketType.isColumn_of_isWrite) hcolumns
  unfold MemorySystem.issue
  dsimp only
  by_cases hdata : p.busPacketType = .data
  · rw [if_pos hdata]
    exact ensures_error (by decide)
  rw [if_neg hdata]
  by_cases hbus : s.controller.outgoingCmdPacket ≠ none
  · rw [if_pos hbus]
    exact ensures_error (by decide)
  rw [if_neg hbus]
  have hfree : s.controller.outgoingCmdPacket = none := not_not.mp hbus
  apply ensures_ok
  simp only [← BusPacketType.isWrite_iff]
  apply Balanced.note
  · refine ⟨h.reads, ?_, fun a => ?_, fun q hq => ?_⟩
    · refine List.Perm.trans (List.Perm.append_left _ ?_) h.writes
      unfold pendingWrites
      rw [List.append_assoc, List.append_assoc, List.append_assoc, List.append_assoc]
      refine List.Perm.append_left _ ?_
      refine List.Perm.trans ?_ ((hwrites.map BusPacket.call).symm.append_right _)
      rw [List.map_append, List.filter_cons, List.filter_nil]
      split_ifs
      · -- The column access of a write becomes data to send.
        rw [List.map_append, List.append_assoc]
        exact (List.Perm.append_left _ List.perm_middle).trans List.perm_middle
      · exact List.Perm.refl _
    · have hdue := h.due a
      have hmoved := atAddress_perm a hreads
      rw [count_returning, hfree, Option.toList_none, List.filter_nil, atAddress_nil] at hdue
      rw [atAddress_append] at hmoved
      rw [count_returning]
      simp only [awaited, Option.toList_some] at hdue ⊢
      omega
    · rcases List.mem_append.mp hq with hq | hq
      · dsimp only at hq
        split_ifs at hq
        · rcases List.mem_append.mp hq with hq | hq
          · exact h.data q (List.mem_append_left _ hq)
          · cases List.mem_singleton.mp hq
            rfl
        · exact h.data q (List.mem_append_left _ hq)
      · exact h.data q (List.mem_append_right _ hq)
  · rfl
  · rfl

theorem popCommand_balanced (h : Balanced accepted s) :
    Ensures Lost (s.popCommand cfg) (Balanced accepted) := by
  refine (harmless_pop _).bind fun x hpop => ?_
  obtain ⟨found, cq⟩ := x
  have hpops := CommandQueue.pop_spec hpop
  cases found with
  | none =>
    have hcells := hpops.same_of_none.cells
    exact ensures_ok (h.untouched { Untouched.refl s with cells := hcells })
  | some p => exact issue_balanced h (columns_pops hpops)

/-! ### The transaction queue -/

/-- The first transaction with room: it is in the queue, and those before it have no room. -/
theorem firstWithRoom_spec {cq : CommandQueue} {i k : ℕ} {ts : List Transaction} {t : Transaction}
    {place : Place} (h : firstWithRoom cfg cq i ts = .ok (some (k, t, place))) :
    ∃ j, k = i + j ∧ ts[j]? = some t ∧ cq.hasRoomFor cfg 2 place.rank place.bank = .ok true ∧
      ∀ j' t', j' < j → ts[j']? = some t' → ∃ place', addressMapping cfg t'.address = .ok place' ∧
        cq.hasRoomFor cfg 2 place'.rank place'.bank = .ok false := by
  induction ts generalizing i with
  | nil => cases h
  | cons t' ts ih =>
    obtain ⟨place', hplace, h⟩ := Outcome.bind_eq_ok.mp h
    obtain ⟨room, hroom, h⟩ := Outcome.bind_eq_ok.mp h
    cases room with
    | true =>
      cases h
      exact ⟨0, rfl, rfl, hroom, fun j' t' hlt => absurd hlt (Nat.not_lt_zero j')⟩
    | false =>
      obtain ⟨j, rfl, hget, hroom', hearlier⟩ := ih h
      refine ⟨j + 1, by omega, hget, hroom', fun j' t'' hlt ht'' => ?_⟩
      cases j' with
      | zero =>
        cases ht''
        exact ⟨place', hplace, hroom⟩
      | succ j' => exact hearlier j' t'' (Nat.lt_of_succ_lt_succ hlt) ht''

/-- What the scheduling does: nothing, or the first transaction with room is broken up. -/
inductive Schedules (cfg : DRAMConfig) (s s' : MemorySystem) : Prop
  | still (h : s' = s)
  | one (i : ℕ) (t : Transaction) (place : Place) (type : BusPacketType) (cq₁ cq₂ : CommandQueue)
      {act command : BusPacket} (hget : s.controller.transactionQueue[i]? = some t)
      (hroom : s.controller.commandQueue.hasRoomFor cfg 2 place.rank place.bank = .ok true)
      (hearlier : ∀ j t', j < i → s.controller.transactionQueue[j]? = some t' → ∃ place',
        addressMapping cfg t'.address = .ok place' ∧
          s.controller.commandQueue.hasRoomFor cfg 2 place'.rank place'.bank = .ok false)
      (hplace : addressMapping cfg t.address = .ok place)
      (htype : t.getBusPacketType cfg = .ok type)
      (hact : act = BusPacket.new .activate t.address place.column place.row place.rank place.bank
        0 none)
      (hcommand : command = BusPacket.new type t.address place.column place.row place.rank
        place.bank t.data t.callback)
      (hfirst : s.controller.commandQueue.enqueue cfg act = .ok cq₁)
      (hsecond : cq₁.enqueue cfg command = .ok cq₂)
      (h : s' = { s with controller := { s.controller with
        transactionQueue := s.controller.transactionQueue.eraseIdx i
        commandQueue := cq₂
        pendingReadTransactions :=
          if t.transactionType = TransactionType.dataRead
          then s.controller.pendingReadTransactions ++ [t]
          else s.controller.pendingReadTransactions } }.note (.scheduled t act command))

theorem schedule_spec (h : s.schedule cfg = .ok s') : Schedules cfg s s' := by
  obtain ⟨next, hnext, h⟩ := Outcome.bind_eq_ok.mp h
  cases next with
  | none =>
    cases h
    exact .still rfl
  | some found =>
    obtain ⟨i, t, place⟩ := found
    have hplace := firstWithRoom_place hnext
    obtain ⟨j, rfl, hget, hroom, hearlier⟩ := firstWithRoom_spec hnext
    obtain ⟨type, htype, h⟩ := Outcome.bind_eq_ok.mp h
    obtain ⟨cq₁, hfirst, h⟩ := Outcome.bind_eq_ok.mp h
    obtain ⟨cq₂, hsecond, h⟩ := Outcome.bind_eq_ok.mp h
    cases h
    rw [Nat.zero_add]
    exact .one j t place type cq₁ cq₂ hget hroom hearlier hplace htype rfl rfl hfirst hsecond rfl

theorem isRead_of_getBusPacketType {t : Transaction} {type : BusPacketType}
    (h : t.getBusPacketType cfg = .ok type) :
    type.isRead = t.transactionType.isRead ∧ type.isWrite = t.transactionType.isWrite := by
  unfold Transaction.getBusPacketType at h
  cases htype : t.transactionType <;> cases hpolicy : cfg.rowBufferPolicy <;>
    rw [htype, hpolicy] at h <;> cases h <;> exact ⟨rfl, rfl⟩

/-- The transactions of one kind, when one leaves the queue. -/
theorem filter_eraseIdx_perm {f : TransactionType → Bool} {ts : List Transaction} {i : ℕ}
    {t : Transaction} (h : ts[i]? = some t) :
    (ts.filter fun t => f t.transactionType).Perm
      (([t].filter fun t => f t.transactionType) ++
        (ts.eraseIdx i).filter fun t => f t.transactionType) := by
  obtain ⟨hlt, rfl⟩ := List.getElem?_eq_some_iff.mp h
  rw [← List.filter_append]
  exact (List.getElem_cons_eraseIdx_perm hlt).symm.filter _

/-- A transaction becomes a column access, and a read is awaited. -/
theorem Balanced.schedule {t : Transaction} {command : BusPacket} {cq : CommandQueue} {i : ℕ}
    (h : Balanced accepted s) (hget : s.controller.transactionQueue[i]? = some t)
    (hcall : command.call = t.call)
    (hread : command.busPacketType.isRead = t.transactionType.isRead)
    (hwrite : command.busPacketType.isWrite = t.transactionType.isWrite)
    (hcolumns : cq.columns.Perm ([command] ++ s.controller.commandQueue.columns)) :
    Balanced accepted { s with controller := { s.controller with
      transactionQueue := s.controller.transactionQueue.eraseIdx i
      commandQueue := cq
      pendingReadTransactions :=
        if t.transactionType = .dataRead then s.controller.pendingReadTransactions ++ [t]
        else s.controller.pendingReadTransactions } } := by
  -- What joins the awaited reads is the transaction filtered by being a read.
  have hpending : (if t.transactionType = .dataRead then s.controller.pendingReadTransactions ++ [t]
      else s.controller.pendingReadTransactions) = s.controller.pendingReadTransactions ++
        [t].filter fun t => t.transactionType.isRead := by
    simp only [List.filter_cons, TransactionType.isRead, decide_eq_true_eq, List.filter_nil]
    split_ifs
    · rfl
    · exact (List.append_nil _).symm
  have haddress : command.physicalAddress = t.address := congrArg Prod.fst hcall
  rw [hpending]
  refine ⟨?_, ?_, fun a => ?_, h.data⟩
  · refine List.Perm.trans (List.Perm.append_left _ ?_) h.reads
    have hqueue := filter_eraseIdx_perm (f := TransactionType.isRead) hget
    refine List.Perm.trans ?_ (hqueue.symm.append_right _)
    unfold pendingReads
    dsimp only
    rw [← List.append_assoc]
    refine List.perm_append_comm.trans ?_
    rw [List.append_assoc]
  · refine List.Perm.trans (List.Perm.append_left _ ?_) h.writes
    have hqueue := filter_eraseIdx_perm (f := TransactionType.isWrite) hget
    have hcells := hcolumns.filter fun p => p.busPacketType.isWrite
    rw [List.filter_append] at hcells
    have hpair : ([command].filter fun p => p.busPacketType.isWrite).map BusPacket.call =
        ([t].filter fun t => t.transactionType.isWrite).map Transaction.call := by
      simp only [List.filter_cons, hwrite, List.filter_nil]
      split_ifs
      · exact congrArg (fun c => [c]) hcall
      · rfl
    have hmoved := (hqueue.map Transaction.call).append
      (List.Perm.refl ((s.controller.commandQueue.columns.filter fun p =>
        p.busPacketType.isWrite).map BusPacket.call))
    have hmoved' := hcells.map BusPacket.call
    rw [List.map_append, hpair] at hmoved'
    rw [List.map_append] at hmoved
    unfold pendingWrites
    refine List.Perm.append_right _ (List.Perm.append_right _ ?_)
    refine (hmoved'.append_left _).trans (List.Perm.trans ?_ hmoved.symm)
    rw [← List.append_assoc]
    exact List.perm_append_comm.append_right _
  · have hdue := h.due a
    have hcells := atAddress_perm a (hcolumns.filter fun p => p.busPacketType.isRead)
    rw [List.filter_append, atAddress_append] at hcells
    rw [count_returning] at hdue ⊢
    have hpair : atAddress a ([command].filter fun p => p.busPacketType.isRead) =
        (([t].filter fun t => t.transactionType.isRead).map Transaction.address).count a := by
      simp only [List.filter_cons, hread, List.filter_nil]
      split_ifs
      · unfold atAddress
        rw [List.map_singleton, List.map_singleton, haddress]
      · rfl
    unfold awaited at hdue ⊢
    rw [List.map_append, List.count_append]
    dsimp only at hdue ⊢
    omega

theorem schedule_balanced (hthreaded : Threaded cfg s) (h : Balanced accepted s) :
    Ensures Lost (s.schedule cfg) (Balanced accepted) := by
  refine (harmless_firstWithRoom _ _ _).bind fun next hnext => ?_
  cases next with
  | none => exact ensures_ok h
  | some found =>
    obtain ⟨i, t, place⟩ := found
    obtain ⟨j, rfl, hget, -, -⟩ := firstWithRoom_spec hnext
    rw [Nat.zero_add]
    refine (harmless_getBusPacketType t).bind fun type htype => ?_
    refine (harmless_enqueue (by decide) _).bind fun cq₁ hfirst => ?_
    refine (harmless_enqueue (by decide) _).bind fun cq₂ hsecond => ensures_ok ?_
    obtain ⟨hread, hwrite⟩ := isRead_of_getBusPacketType htype
    obtain ⟨ref, -, hlt, heq⟩ := enqueue_pair hthreaded.built hthreaded.wide
      (show (BusPacket.new .activate t.address place.column place.row place.rank place.bank 0
        none).rank = (BusPacket.new type t.address place.column place.row place.rank place.bank t.data
          t.callback).rank from rfl) rfl hfirst hsecond
    have hcolumns := columns_enqueue hlt
      (show (BusPacket.new .activate t.address place.column place.row place.rank place.bank 0
        none).busPacketType = .activate from rfl)
      (show (BusPacket.new type t.address place.column place.row place.rank place.bank t.data
        t.callback).busPacketType.isColumn = true from isColumn_of_getBusPacketType htype)
    rw [← heq] at hcolumns
    exact (h.schedule hget rfl hread hwrite hcolumns).note rfl rfl

/-! ### The return of reads -/

/-- **Data under way is awaited**, so that the first pending read of its address is found. -/
theorem Balanced.finds {r : Transaction} {rs : List Transaction} (h : Balanced accepted s)
    (hreturn : s.controller.returnTransaction = r :: rs) :
    ∃ t, s.controller.pendingReadTransactions[s.controller.pendingReadTransactions.findIdx
      fun t => decide (t.address = r.address)]? = some t ∧ t.address = r.address := by
  have hdue := h.due r.address
  have hmem : 0 < s.returning.count r.address := by
    rw [count_returning, hreturn, List.map_cons, List.count_cons_self]
    omega
  have hawaited : r.address ∈ s.awaited := List.count_pos_iff.mp (hmem.trans_le hdue)
  obtain ⟨t, ht, haddress⟩ := List.mem_map.mp hawaited
  have hlt := List.findIdx_lt_length_of_exists (p := fun t => decide (t.address = r.address))
    ⟨t, ht, decide_eq_true haddress⟩
  refine ⟨_, List.getElem?_eq_getElem hlt, ?_⟩
  exact of_decide_eq_true (List.findIdx_getElem (w := hlt))

theorem returnData_balanced (h : Balanced accepted s) :
    Ensures Lost (s.returnData cfg) (Balanced accepted) := by
  unfold returnData
  dsimp only
  cases hreturn : s.controller.returnTransaction with
  | nil => exact ensures_ok h
  | cons r rs =>
    obtain ⟨t, hget, haddress⟩ := h.finds hreturn
    dsimp only
    rw [hget]
    refine (harmless_addressMapping _).bind fun place _ => ensures_ok ?_
    generalize s.controller.pendingReadTransactions.findIdx _ = i at hget ⊢
    have hpending : s.controller.pendingReadTransactions.Perm
        ([t] ++ s.controller.pendingReadTransactions.eraseIdx i) := by
      obtain ⟨hlt, rfl⟩ := List.getElem?_eq_some_iff.mp hget
      exact (List.getElem_cons_eraseIdx_perm hlt).symm
    refine ⟨?_, ?_, fun a => ?_, h.data⟩
    · rw [completedReads_note]
      show ((s.completedReads ++ [t]) ++ (s.controller.transactionQueue.filter _ ++ _)).Perm _
      rw [List.append_assoc]
      refine List.Perm.trans (List.Perm.append_left _ ?_) h.reads
      refine List.Perm.trans ?_ (hpending.symm.append_left _)
      show (t :: (_ ++ s.controller.pendingReadTransactions.eraseIdx i)).Perm _
      exact List.perm_middle.symm
    · rw [completedWrites_note]
      show ((s.completedWrites ++ []) ++ _).Perm _
      rw [List.append_nil]
      exact h.writes
    · have hdue := h.due a
      have hcount := (hpending.map Transaction.address).count_eq a
      rw [List.map_append, List.count_append] at hcount
      rw [count_returning, hreturn, List.map_cons, List.count_cons] at hdue
      rw [count_returning]
      unfold awaited at hdue ⊢
      simp only [List.map_singleton, haddress, List.count_singleton] at hcount
      dsimp only [MemorySystem.note] at hdue ⊢
      omega

/-! ### Updates -/

theorem Balanced.init (cfg : DRAMConfig) : Balanced [] (MemorySystem.init cfg) := by
  have hcolumns : (MemorySystem.init cfg).controller.commandQueue.columns = [] :=
    Threaded.columns_init cfg
  refine ⟨List.Perm.refl _, ?_, fun a => ?_, fun q hq => ?_⟩
  · unfold pendingWrites
    rw [hcolumns]
    exact List.Perm.refl _
  · rw [count_returning, hcolumns]
    have hranks : (List.replicate cfg.numRanks (Rank.init cfg)).map Rank.readData =
        List.replicate cfg.numRanks [] := List.map_replicate
    show _ + atAddress a ((List.replicate cfg.numRanks (Rank.init cfg)).map
      Rank.readData).flatten + _ ≤ _
    rw [hranks, List.flatten_replicate_nil]
    exact Nat.le_refl _
  · cases hq

/-- What is put in the middle of a list, at its end. -/
theorem append_middle_perm {α : Type} (before left new right : List α) :
    (before ++ ((left ++ new) ++ right)).Perm ((before ++ (left ++ right)) ++ new) := by
  rw [List.append_assoc, List.append_assoc, List.append_assoc]
  exact List.Perm.append_left _ (List.Perm.append_left _ List.perm_append_comm)

/-- **A transaction is accepted**. -/
theorem Balanced.accept (h : Balanced accepted s) (t : Transaction) :
    Balanced (accepted ++ [{ t with timeAdded := s.controller.currentClockCycle }])
      (s.accept t) := by
  refine ⟨?_, ?_, h.due, h.data⟩
  · unfold pendingReads MemorySystem.accept
    rw [List.filter_append, List.filter_append]
    exact (append_middle_perm _ _ _ _).trans (h.reads.append_right _)
  · have hbefore := h.writes
    unfold pendingWrites at hbefore ⊢
    rw [List.append_assoc, List.append_assoc] at hbefore ⊢
    unfold MemorySystem.accept
    rw [List.filter_append, List.map_append, List.filter_append, List.map_append]
    exact (append_middle_perm _ _ _ _).trans (hbefore.append_right _)

/-- The transaction that waits for the transaction queue, if it is accepted. -/
def addedPending (cfg : DRAMConfig) (s : MemorySystem) : List Transaction :=
  if s.willAcceptTransaction cfg then
    (s.pendingTransactions.take 1).map fun t =>
      { t with timeAdded := s.controller.currentClockCycle }
  else []

theorem Balanced.addPending (h : Balanced accepted s) :
    Balanced (accepted ++ addedPending cfg s) (s.addPending cfg) := by
  unfold MemorySystem.addPending addedPending
  cases hpending : s.pendingTransactions with
  | nil =>
    rw [List.take_nil, List.map_nil, ite_self, List.append_nil]
    exact h
  | cons t ts =>
    dsimp only
    split_ifs
    · have hrest : Balanced accepted { s with pendingTransactions := ts } := { h with }
      exact hrest.accept t
    · rw [List.append_nil]
      exact h

/-- **The accounts** of a memory system that accepted these transactions. -/
structure Accounts (cfg : DRAMConfig) (accepted : List Transaction) (s : MemorySystem) : Prop where
  threaded : Threaded cfg s
  balanced : Balanced accepted s

/-- A part keeps the accounts when it keeps the pairs of commands and the books. -/
theorem Accounts.part {x : Outcome MemorySystem} (hx : Ensures Lost x (Balanced accepted))
    (hthreaded : ∀ s', x = .ok s' → Threaded cfg s') : Ensures Lost x (Accounts cfg accepted) :=
  (hx.and hthreaded).mono fun _ h => ⟨h.2, h.1⟩

/-- **An update keeps the books**, and does not miss a pending read. -/
theorem controllerUpdate_accounts (h : Accounts cfg accepted s) :
    Ensures Lost (s.controllerUpdate cfg) (Accounts cfg accepted) := by
  have hbanks : Accounts cfg accepted (s.updateBanks cfg) :=
    ⟨h.threaded.quiet (updateBanks_quiet s), h.balanced.untouched (updateBanks_untouched s)⟩
  refine (Accounts.part (moveCommand_balanced hbanks.balanced) fun s₁ hs₁ =>
    hbanks.threaded.moved (moveCommand_moved hs₁)).bind fun s₁ h₁ => ?_
  refine (Accounts.part (moveData_balanced h₁.balanced) fun s₂ hs₂ =>
    h₁.threaded.movedData (moveData_moved hs₂)).bind fun s₂ h₂ => ?_
  refine (Accounts.part (sendWriteData_balanced h₂.balanced) fun s₃ hs₃ =>
    h₂.threaded.quiet (sendWriteData_quiet hs₃)).bind fun s₃ h₃ => ?_
  refine (Accounts.part (checkRefresh_untouched.mono fun _ => h₃.balanced.untouched) fun s₄ hs₄ =>
    h₃.threaded.checked (checkRefresh_checked hs₄)).bind fun s₄ h₄ => ?_
  refine (Accounts.part (popCommand_balanced h₄.balanced) fun s₅ hs₅ =>
    h₄.threaded.issued (popCommand_issued hs₅)).bind fun s₅ h₅ => ?_
  refine (Accounts.part (schedule_balanced h₅.threaded h₅.balanced) fun s₆ hs₆ =>
    h₅.threaded.scheduled (schedule_scheduled hs₆)).bind fun s₆ h₆ => ?_
  have hpower : Ensures Lost ((List.range cfg.numRanks).foldlM (managePower cfg) s₆)
      (Accounts cfg accepted) := by
    refine foldlM_ensures (fun s i _ hs => ?_) h₆
    exact Accounts.part ((managePower_untouched i).mono fun _ => hs.balanced.untouched)
      fun s' hs' => hs.threaded.quiet (managePower_quiet hs')
  refine hpower.bind fun s₇ h₇ => ?_
  refine (Accounts.part (returnData_balanced h₇.balanced) fun s₈ hs₈ =>
    h₇.threaded.returned (returnData_returned hs₈)).bind fun s₈ h₈ => ensures_ok ?_
  exact ⟨h₈.threaded.countDown, h₈.balanced.untouched (countDown_untouched s₈)⟩

theorem addedPending_congr (h : SameArrivals s s') : addedPending cfg s' = addedPending cfg s := by
  unfold addedPending willAcceptTransaction
  rw [h.queue, h.waiting, h.clock]

/-- **An update keeps the accounts**: the transaction it accepts is the one that waits. -/
theorem update_accounts (h : Accounts cfg accepted s) :
    Ensures Lost (s.update cfg) (Accounts cfg (accepted ++ addedPending cfg s)) := by
  have hranks : Ensures Lost ((List.range cfg.numRanks).foldlM (updateRank cfg) s) fun s₁ =>
      Accounts cfg accepted s₁ ∧ addedPending cfg s₁ = addedPending cfg s := by
    refine foldlM_ensures (fun s₁ i _ hs₁ => ?_) ⟨h, rfl⟩
    have hpart : Ensures Lost (s₁.updateRank cfg i) (Accounts cfg accepted) :=
      Accounts.part (updateRank_balanced hs₁.1.balanced) fun s₂ hs₂ =>
        hs₁.1.threaded.quiet (updateRank_quiet hs₂)
    exact hpart.and fun s₂ hs₂ => (addedPending_congr (updateRank_arrivals hs₂)).trans hs₁.2
  refine hranks.bind fun s₁ ⟨h₁, hadded⟩ => ?_
  have hpending : Accounts cfg (accepted ++ addedPending cfg s) (s₁.addPending cfg) := by
    rw [← hadded]
    exact ⟨h₁.threaded.quiet (addPending_quiet s₁), h₁.balanced.addPending⟩
  refine (controllerUpdate_accounts hpending).bind fun s₂ h₂ => ensures_ok ?_
  exact ⟨h₂.threaded.stepClocks, h₂.balanced.untouched (stepClocks_untouched s₂)⟩

theorem Accounts.init (cfg : DRAMConfig) : Accounts cfg [] (MemorySystem.init cfg) :=
  ⟨Threaded.init cfg, Balanced.init cfg⟩

theorem Accounts.accept (h : Accounts cfg accepted s) (t : Transaction) :
    Accounts cfg (accepted ++ [{ t with timeAdded := s.controller.currentClockCycle }])
      (s.accept t) :=
  ⟨h.threaded.quiet (accept_quiet s t), h.balanced.accept t⟩

end PIMSim.DDR
