import PIMSim.DDR.CommandQueue

/-!
# What `pop` may do

One specification of `pop` for all policies: it finds nothing, it makes a refresh or a precharge
command, or it takes a packet that its bank allows out of one queue.

## Main definitions

* `Allowed`: what `isIssuable` tells of the bank of a packet
* `Takes`: how a packet leaves its queue, and what it passes over
* `Pops`: the possible results of `pop`

## Main results

* `pop_spec`: every result of `pop` is one of `Pops`
-/

namespace PIMSim.DDR

open CSharp

/-- The bank of the packet allows it at the time `now`. -/
def Allowed (bankStates : List (List BankState)) (now : UInt64) (p : BusPacket) : Prop :=
  ∃ s, bankAt bankStates p.rank p.bank = .ok s ∧
    match p.busPacketType with
    | .activate => (s.currentBankState = .idle ∨ s.currentBankState = .refreshing) ∧
        s.nextActivate ≤ now
    | .read => s.currentBankState = .rowActive ∧ s.nextRead ≤ now ∧ (p.row : Int) = s.openRowAddress
    | .readP => s.currentBankState = .rowActive ∧ s.nextRead ≤ now ∧ (p.row : Int) = s.openRowAddress
    | .write => s.currentBankState = .rowActive ∧ s.nextWrite ≤ now ∧
        (p.row : Int) = s.openRowAddress
    | .writeP => s.currentBankState = .rowActive ∧ s.nextWrite ≤ now ∧
        (p.row : Int) = s.openRowAddress
    | .precharge => s.currentBankState = .rowActive ∧ s.nextPrecharge ≤ now
    | .refresh => False
    | .data => False

/-- The place in the queue is behind an activate for the same address. -/
def BehindActivate (queue : List BusPacket) (i : ℕ) (address : UInt64) : Prop :=
  ∃ a, 0 < i ∧ queue[i - 1]? = some a ∧ a.busPacketType = .activate ∧ a.physicalAddress = address

/-- No column access before the place `i` goes to the row of the packet. -/
def DependsOnNone (queue : List BusPacket) (i : ℕ) (p : BusPacket) : Prop :=
  ∀ j a, j < i → queue[j]? = some a → a.busPacketType ≠ .activate → ¬(a.bank = p.bank ∧ a.row = p.row)

/-- How the packet at place `i` leaves its queue. -/
inductive Takes (cfg : DRAMConfig) (queue : List BusPacket) (i : ℕ) (p : BusPacket) :
    List BusPacket → Prop
  /-- With closed pages and a queue for each bank the first packet is taken. -/
  | head (hpolicy : cfg.rowBufferPolicy = .closePage) (hi : i = 0) :
      Takes cfg queue i p (queue.eraseIdx i)
  /-- With closed pages and a queue for the rank a packet is taken that is not paired with the
  activate before it. An activate does not overtake another one of its bank. -/
  | unpaired (hpolicy : cfg.rowBufferPolicy = .closePage)
      (hprev : ¬BehindActivate queue i p.physicalAddress)
      (hact : p.busPacketType = .activate → ∀ j a, j < i → queue[j]? = some a →
        a.busPacketType = .activate → a.rank = p.rank → a.bank = p.bank →
          BehindActivate queue j a.physicalAddress) :
      Takes cfg queue i p (queue.eraseIdx i)
  /-- While a refresh waits, the first packet to an open row is taken. -/
  | first (hcolumn : p.busPacketType ≠ .activate)
      (hfirst : ∀ j a, j < i → queue[j]? = some a → ¬(a.row = p.row ∧ a.bank = p.bank)) :
      Takes cfg queue i p (queue.eraseIdx i)
  /-- With open pages any packet may be taken that depends on none before it. -/
  | single (hpolicy : cfg.rowBufferPolicy = .openPage)
      (hprev : ∀ a, 0 < i → queue[i - 1]? = some a → a.busPacketType ≠ .activate)
      (hfree : DependsOnNone queue i p) : Takes cfg queue i p (queue.eraseIdx i)
  /-- With open pages the activate before the packet goes with it. -/
  | both (hpolicy : cfg.rowBufferPolicy = .openPage) (hi : 0 < i)
      (hact : ∃ a, queue[i - 1]? = some a ∧ a.busPacketType = .activate)
      (hfree : DependsOnNone queue i p) :
      Takes cfg queue i p ((queue.eraseIdx i).eraseIdx (i - 1))

namespace CommandQueue

/-- Only the places of the round robins, the counters and the windows may differ. -/
structure Same (cq cq' : CommandQueue) : Prop where
  queues : cq'.queues = cq.queues
  rows : cq'.rows = cq.rows
  cells : cq'.cells = cq.cells
  refreshRank : cq'.refreshRank = cq.refreshRank
  refreshWaiting : cq'.refreshWaiting = cq.refreshWaiting
  clock : cq'.currentClockCycle = cq.currentClockCycle

theorem Same.refl (cq : CommandQueue) : Same cq cq := ⟨rfl, rfl, rfl, rfl, rfl, rfl⟩

theorem Same.trans {cq cq' cq'' : CommandQueue} (h : Same cq cq') (h' : Same cq' cq'') :
    Same cq cq'' :=
  ⟨h'.queues.trans h.queues, h'.rows.trans h.rows, h'.cells.trans h.cells,
    h'.refreshRank.trans h.refreshRank, h'.refreshWaiting.trans h.refreshWaiting,
    h'.clock.trans h.clock⟩

/-- The possible results of `pop`. -/
inductive Pops (cfg : DRAMConfig) (bankStates : List (List BankState)) (cq : CommandQueue) :
    Option BusPacket → CommandQueue → Prop
  | nothing {cq' : CommandQueue} (h : Same cq cq') : Pops cfg bankStates cq none cq'
  /-- All banks of the waiting rank are closed, and their times have come. -/
  | refresh {cq' : CommandQueue} (hwait : cq.refreshWaiting = true)
      (hclosed : ∀ b : ℕ, b < cfg.numBanks → ∃ s, bankAt bankStates cq.refreshRank b = .ok s ∧
        s.currentBankState ≠ .rowActive ∧ s.nextActivate ≤ cq.currentClockCycle)
      (hup : ∃ s, bankAt bankStates cq.refreshRank 0 = .ok s ∧ s.currentBankState ≠ .powerDown)
      (h : Same cq.sendRefresh.2 cq') :
      Pops cfg bankStates cq (some cq.sendRefresh.1) cq'
  /-- With open pages an open bank is closed. -/
  | precharge {cq' : CommandQueue} (rank : Int) (bank : ℕ)
      (hpolicy : cfg.rowBufferPolicy = .openPage)
      (hbank : ∃ s, bankAt bankStates rank bank = .ok s ∧ s.currentBankState = .rowActive ∧
        s.nextPrecharge ≤ cq.currentClockCycle)
      (h : Same cq cq') :
      Pops cfg bankStates cq (some (BusPacket.new .precharge 0 0 0 rank bank 0 none)) cq'
  /-- A packet that its bank allows leaves its queue. -/
  | queued {cq' : CommandQueue} {queue' : List BusPacket} (ref i : ℕ) (p : BusPacket)
      (hget : (cq.cell ref)[i]? = some p)
      (hallowed : Allowed bankStates cq.currentClockCycle p)
      (htakes : Takes cfg (cq.cell ref) i p queue')
      (h : Same (cq.setCell ref queue') cq') :
      Pops cfg bankStates cq (some p) cq'

variable {cfg : DRAMConfig} {bankStates : List (List BankState)} {cq cq' : CommandQueue}
  {p : BusPacket} {found : Option BusPacket}

theorem lt_of_mem_cell {ref : ℕ} (h : p ∈ cq.cell ref) : ref < cq.cells.length := by
  by_contra hlt
  rw [cell, List.getD_eq_getElem?_getD, List.getElem?_eq_none (Nat.not_lt.mp hlt)] at h
  cases h

theorem columnIssuable_spec {next : BankState → UInt64}
    (h : cq.columnIssuable cfg bankStates p next = .ok true) :
    ∃ s, bankAt bankStates p.rank p.bank = .ok s ∧ s.currentBankState = .rowActive ∧
      next s ≤ cq.currentClockCycle ∧ (p.row : Int) = s.openRowAddress := by
  obtain ⟨s, hs, h⟩ := Outcome.bind_eq_ok.mp h
  split_ifs at h with hif
  · exact ⟨s, hs, hif⟩
  · cases h

theorem isIssuable_spec (h : cq.isIssuable cfg bankStates p = .ok true) :
    Allowed bankStates cq.currentClockCycle p := by
  unfold isIssuable at h
  unfold Allowed
  cases htype : p.busPacketType <;> rw [htype] at h <;> dsimp only at h ⊢
  case read => exact columnIssuable_spec h
  case readP => exact columnIssuable_spec h
  case write => exact columnIssuable_spec h
  case writeP => exact columnIssuable_spec h
  case activate =>
    obtain ⟨s, hs, h⟩ := Outcome.bind_eq_ok.mp h
    split_ifs at h with hif
    · exact ⟨s, hs, hif⟩
    · cases h
  case precharge =>
    obtain ⟨s, hs, h⟩ := Outcome.bind_eq_ok.mp h
    exact ⟨s, hs, of_decide_eq_true (Except.ok.inj h)⟩
  case refresh => cases h
  case data => cases h

theorem firstToRow_spec {queue : List BusPacket} {row : Int} {bank j : ℕ}
    (h : firstToRow queue row bank = some (p, j)) :
    queue[j]? = some p ∧ (p.row : Int) = row ∧ p.bank = bank ∧
      ∀ k a, k < j → queue[k]? = some a → ¬((a.row : Int) = row ∧ a.bank = bank) := by
  obtain ⟨p', hget, heq⟩ := Option.map_eq_some_iff.mp h
  cases heq
  obtain ⟨hlt, hval⟩ := List.getElem?_eq_some_iff.mp hget
  have hhit := List.findIdx_getElem (w := hlt)
  rw [hval] at hhit
  obtain ⟨hrow, hbank⟩ := of_decide_eq_true hhit
  refine ⟨hget, hrow, hbank, fun k a hk ha => ?_⟩
  obtain ⟨hk', rfl⟩ := List.getElem?_eq_some_iff.mp ha
  have hmiss := List.not_of_lt_findIdx hk
  simpa using hmiss

/-- The first packet to the open row of a bank is taken out of its queue. -/
theorem pops_first {ref j : ℕ} {row : Int} {bank : ℕ}
    (hfirst : firstToRow (cq.cell ref) row bank = some (p, j))
    (hcolumn : p.busPacketType ≠ .activate) (hissue : cq.isIssuable cfg bankStates p = .ok true) :
    Pops cfg bankStates cq (some p) (cq.removeAt ref j) := by
  obtain ⟨hget, hrow, hbank, hmiss⟩ := firstToRow_spec hfirst
  refine .queued ref j p hget (isIssuable_spec hissue) (.first hcolumn fun k a hk ha hsame => ?_)
    (.refl _)
  exact hmiss k a hk ha ⟨by rw [hsame.1, hrow], by rw [hsame.2, hbank]⟩

/-- The banks that were looked at are closed and their times have come, or something was found. -/
def Scanned (cfg : DRAMConfig) (bankStates : List (List BankState)) (cq : CommandQueue)
    (banks : List ℕ) (found : Option BusPacket) (closed : Bool) (cq' : CommandQueue) : Prop :=
  if closed then cq' = cq ∧ ∀ b ∈ banks, ∃ s, bankAt bankStates cq.refreshRank b = .ok s ∧
    s.currentBankState ≠ .rowActive ∧ s.nextActivate ≤ cq.currentClockCycle
  else Pops cfg bankStates cq found cq' ∧ (found = none → cq' = cq)

theorem scanned_none {banks : List ℕ} : Scanned cfg bankStates cq banks none false cq :=
  ⟨.nothing (.refl _), fun _ => rfl⟩

theorem Scanned.cons {banks : List ℕ} {b : ℕ} {closed : Bool} {s : BankState}
    (h : Scanned cfg bankStates cq banks found closed cq')
    (hs : bankAt bankStates cq.refreshRank b = .ok s) (hstate : s.currentBankState ≠ .rowActive)
    (htime : s.nextActivate ≤ cq.currentClockCycle) :
    Scanned cfg bankStates cq (b :: banks) found closed cq' := by
  cases closed with
  | false => exact h
  | true =>
    refine ⟨h.1, fun c hc => ?_⟩
    rcases List.mem_cons.mp hc with rfl | hc
    · exact ⟨s, hs, hstate, htime⟩
    · exact h.2 c hc

theorem scanClose_spec {banks : List ℕ} {closed : Bool}
    (h : cq.scanClose cfg bankStates banks = .ok (found, closed, cq')) :
    Scanned cfg bankStates cq banks found closed cq' := by
  induction banks with
  | nil =>
    cases h
    exact ⟨rfl, fun b hb => absurd hb (List.not_mem_nil)⟩
  | cons b banks ih =>
    obtain ⟨ref, href, h⟩ := Outcome.bind_eq_ok.mp h
    obtain ⟨s, hs, h⟩ := Outcome.bind_eq_ok.mp h
    by_cases hactive : s.currentBankState = .rowActive
    · rw [if_pos hactive] at h
      cases hfirst : firstToRow (cq.cell ref) s.openRowAddress b with
      | none =>
        rw [hfirst] at h
        cases h
        exact scanned_none
      | some e =>
        obtain ⟨packet, j⟩ := e
        rw [hfirst] at h
        dsimp only at h
        by_cases hact : packet.busPacketType = .activate
        · rw [if_pos hact] at h
          cases h
          exact scanned_none
        rw [if_neg hact] at h
        obtain ⟨issuable, hissue, h⟩ := Outcome.bind_eq_ok.mp h
        cases issuable with
        | false =>
          cases h
          exact scanned_none
        | true =>
          cases h
          exact ⟨pops_first hfirst hact hissue, nofun⟩
    · rw [if_neg hactive] at h
      split_ifs at h with htime
      · cases h
        exact scanned_none
      · exact (ih h).cons hs hactive (Nat.not_lt.mp htime)

theorem closeRow_spec {banks : List ℕ} {b : ℕ} {closed : Bool} {s : BankState}
    (hpolicy : cfg.rowBufferPolicy = .openPage) (hs : bankAt bankStates cq.refreshRank b = .ok s)
    (hactive : s.currentBankState = .rowActive)
    (h : scanOpen.closeRow cq s b = .ok (found, closed, cq')) :
    Scanned cfg bankStates cq banks found closed cq' := by
  unfold scanOpen.closeRow at h
  split_ifs at h with htime
  · cases h
    exact ⟨.precharge _ _ hpolicy ⟨s, hs, hactive, htime⟩ ⟨rfl, rfl, rfl, rfl, rfl, rfl⟩, nofun⟩
  · cases h
    exact scanned_none

theorem scanOpen_spec {banks : List ℕ} {closed : Bool}
    (hpolicy : cfg.rowBufferPolicy = .openPage)
    (h : cq.scanOpen cfg bankStates banks = .ok (found, closed, cq')) :
    Scanned cfg bankStates cq banks found closed cq' := by
  induction banks with
  | nil =>
    cases h
    exact ⟨rfl, fun b hb => absurd hb (List.not_mem_nil)⟩
  | cons b banks ih =>
    obtain ⟨s, hs, h⟩ := Outcome.bind_eq_ok.mp h
    by_cases hactive : s.currentBankState = .rowActive
    · rw [if_pos hactive] at h
      obtain ⟨ref, href, h⟩ := Outcome.bind_eq_ok.mp h
      cases hfirst : firstToRow (cq.cell ref) s.openRowAddress b with
      | none =>
        rw [hfirst] at h
        exact closeRow_spec hpolicy hs hactive h
      | some e =>
        obtain ⟨packet, j⟩ := e
        rw [hfirst] at h
        dsimp only at h
        by_cases hact : packet.busPacketType = .activate
        · rw [if_pos hact] at h
          exact closeRow_spec hpolicy hs hactive h
        rw [if_neg hact] at h
        obtain ⟨issuable, hissue, h⟩ := Outcome.bind_eq_ok.mp h
        cases issuable with
        | false =>
          cases h
          exact scanned_none
        | true =>
          cases h
          exact ⟨pops_first hfirst hact hissue, nofun⟩
    · rw [if_neg hactive] at h
      split_ifs at h with htime
      · cases h
        exact scanned_none
      · exact (ih h).cons hs hactive (Nat.not_lt.mp htime)

theorem popRefresh_spec (h : cq.popRefresh cfg bankStates = .ok (found, cq')) :
    Pops cfg bankStates cq found cq' ∧ (found = none → cq' = cq) := by
  unfold popRefresh at h
  split_ifs at h with hwait
  · obtain ⟨⟨found', closed, cq₁⟩, hscan, hrest⟩ := Outcome.bind_eq_ok.mp h
    have hscanned : Scanned cfg bankStates cq (List.range cfg.numBanks) found' closed cq₁ := by
      unfold scanBanks at hscan
      cases hpolicy : cfg.rowBufferPolicy <;> rw [hpolicy] at hscan
      · exact scanOpen_spec hpolicy hscan
      · exact scanClose_spec hscan
    cases closed with
    | false =>
      cases hrest
      exact hscanned
    | true =>
      obtain ⟨rfl, hclosed⟩ := hscanned
      obtain ⟨s, hs, hrest⟩ := Outcome.bind_eq_ok.mp hrest
      split_ifs at hrest with hup
      · cases hrest
        exact ⟨.refresh hwait (fun b hb => hclosed b (List.mem_range.mpr hb)) ⟨s, hs, hup⟩ (.refl _),
          nofun⟩
      · cases hrest
        exact ⟨.nothing (.refl _), fun _ => rfl⟩
  · cases h
    exact ⟨.nothing (.refl _), fun _ => rfl⟩

/-- The test of an activate does not depend on more than its rank and its bank. -/
theorem isIssuable_activate {a : BusPacket} (hp : p.busPacketType = .activate)
    (ha : a.busPacketType = .activate) (hrank : a.rank = p.rank) (hbank : a.bank = p.bank) :
    cq.isIssuable cfg bankStates a = cq.isIssuable cfg bankStates p := by
  unfold isIssuable
  rw [hp, ha, hrank, hbank]

/-- What is found, and what was passed over. -/
theorem firstUnpaired_spec {prev : Option BusPacket} {k i : ℕ} {queue : List BusPacket}
    (h : cq.firstUnpaired cfg bankStates prev k queue = .ok (some i)) :
    ∃ j p, i = k + j ∧ queue[j]? = some p ∧ cq.isIssuable cfg bankStates p = .ok true ∧
      (∀ a, (if j = 0 then prev else queue[j - 1]?) = some a →
        ¬(a.busPacketType = .activate ∧ a.physicalAddress = p.physicalAddress)) ∧
      ∀ l q, l < j → queue[l]? = some q → cq.isIssuable cfg bankStates q = .ok true →
        ∃ a, (if l = 0 then prev else queue[l - 1]?) = some a ∧ a.busPacketType = .activate ∧
          a.physicalAddress = q.physicalAddress := by
  induction queue generalizing prev k with
  | nil => cases h
  | cons p queue ih =>
    obtain ⟨issuable, hissue, h⟩ := Outcome.bind_eq_ok.mp h
    dsimp only at h
    split_ifs at h with hif
    · cases h
      obtain ⟨rfl, hpaired⟩ := Bool.and_eq_true_iff.mp hif
      refine ⟨0, p, rfl, rfl, hissue, fun a ha hact => ?_, fun l q hl => absurd hl (Nat.not_lt_zero l)⟩
      cases prev with
      | none => cases ha
      | some b =>
        cases ha
        simp [hact] at hpaired
    · obtain ⟨j, q, rfl, hget, hq, hprev, hpassed⟩ := ih h
      have hshift : ∀ l, (if l = 0 then some p else queue[l - 1]?) = (p :: queue)[l]? := by
        intro l
        cases l <;> rfl
      refine ⟨j + 1, q, by omega, hget, hq, fun a ha => hprev a ?_, fun l r hl hr hissuable => ?_⟩
      · rw [hshift]
        exact ha
      · cases l with
        | zero =>
          cases hr
          cases hissue.symm.trans hissuable
          cases prev with
          | none => simp at hif
          | some b =>
            simp only [Option.any_some, Bool.true_and, Bool.not_eq_true', decide_eq_false_iff_not,
              not_not] at hif
            exact ⟨b, rfl, hif⟩
        | succ l =>
          obtain ⟨a, ha, hact⟩ := hpassed l r (by omega) hr hissuable
          rw [hshift] at ha
          exact ⟨a, ha, hact⟩

theorem firstIndependent_spec {before queue : List BusPacket} {i : ℕ}
    (h : cq.firstIndependent cfg bankStates before queue = .ok (some i)) :
    ∃ p, (before ++ queue)[i]? = some p ∧ cq.isIssuable cfg bankStates p = .ok true ∧
      DependsOnNone (before ++ queue) i p := by
  induction queue generalizing before with
  | nil => cases h
  | cons p queue ih =>
    obtain ⟨issuable, hissue, h⟩ := Outcome.bind_eq_ok.mp h
    dsimp only at h
    split_ifs at h with hif
    · cases h
      obtain ⟨rfl, hdependency⟩ := Bool.and_eq_true_iff.mp hif
      refine ⟨p, by simp, hissue, fun j a hj ha hcolumn hsame => ?_⟩
      rw [List.getElem?_append_left hj] at ha
      rw [Bool.not_eq_true', List.any_eq_false] at hdependency
      exact hdependency a (List.mem_of_getElem? ha) (decide_eq_true ⟨hcolumn, hsame⟩)
    · obtain ⟨q, hget, hq, hfree⟩ := ih h
      rw [List.append_assoc, List.singleton_append] at hget hfree
      exact ⟨q, hget, hq, hfree⟩

theorem takeClose_spec {ref : ℕ} (hpolicy : cfg.rowBufferPolicy = .closePage)
    (h : cq.takeClose cfg bankStates ref = .ok (found, cq')) :
    Pops cfg bankStates cq found cq' := by
  unfold takeClose at h
  cases hqueue : cfg.queuingStructure <;> rw [hqueue] at h <;> dsimp only at h
  case perRank =>
    obtain ⟨i, hi, h⟩ := Outcome.bind_eq_ok.mp h
    cases i with
    | none =>
      cases h
      exact .nothing (.refl _)
    | some i =>
      obtain ⟨j, p, rfl, hget, hissue, hprev, hpassed⟩ := firstUnpaired_spec hi
      rw [Nat.zero_add] at h
      cases h
      rw [hget]
      refine .queued ref j p hget (isIssuable_spec hissue) (.unpaired hpolicy ?_ ?_) (.refl _)
      · rintro ⟨a, hj, ha, hact⟩
        exact hprev a (by rw [if_neg hj.ne', ha]) hact
      · intro hp l a hl ha hact hrank hbank
        obtain ⟨b, hb, hbact⟩ := hpassed l a hl ha
          ((isIssuable_activate hp hact hrank hbank).trans hissue)
        split_ifs at hb with hzero
        exact ⟨b, Nat.pos_of_ne_zero hzero, hb, hbact⟩
  case perRankPerBank =>
    cases hcell : cq.cell ref with
    | nil =>
      rw [hcell] at h
      cases h
      exact .nothing (.refl _)
    | cons p queue =>
      rw [hcell] at h
      obtain ⟨issuable, hissue, h⟩ := Outcome.bind_eq_ok.mp h
      cases issuable with
      | false =>
        cases h
        exact .nothing (.refl _)
      | true =>
        cases h
        exact .queued ref 0 p (by rw [hcell]; rfl) (isIssuable_spec hissue) (.head hpolicy rfl)
          (.refl _)

theorem takeOpen_spec {ref : ℕ} (hpolicy : cfg.rowBufferPolicy = .openPage)
    (h : cq.takeOpen cfg bankStates ref = .ok (found, cq')) : Pops cfg bankStates cq found cq' := by
  obtain ⟨i, hi, h⟩ := Outcome.bind_eq_ok.mp h
  cases i with
  | none =>
    cases h
    exact .nothing (.refl _)
  | some i =>
    obtain ⟨p, hget, hissue, hfree⟩ := firstIndependent_spec hi
    rw [List.nil_append] at hget hfree
    dsimp only at h
    rw [hget] at h
    dsimp only at h
    split_ifs at h with hact
    · obtain ⟨n, hn, h⟩ := Outcome.bind_eq_ok.mp h
      cases h
      obtain ⟨hi, hact⟩ := hact
      have hlt : ref < cq.cells.length := lt_of_mem_cell (List.mem_of_getElem? hget)
      cases ha : (cq.cell ref)[i - 1]? with
      | none => simp [ha] at hact
      | some a =>
        rw [ha] at hact
        refine .queued ref i p hget (isIssuable_spec hissue)
          (.both hpolicy hi ⟨a, ha, of_decide_eq_true hact⟩ hfree) ⟨rfl, rfl, ?_, rfl, rfl, rfl⟩
        change (cq.cells.set ref _).set ref _ = _
        rw [List.set_set]
        congr 1
        change (((cq.cells.set ref ((cq.cell ref).eraseIdx i)).getD ref []).eraseIdx (i - 1)) = _
        rw [List.getD_eq_getElem?_getD, List.getElem?_set_self hlt]
        rfl
    · cases h
      refine .queued ref i p hget (isIssuable_spec hissue) (.single hpolicy ?_ hfree) (.refl _)
      intro a hi ha hactivate
      exact hact ⟨hi, by rw [ha]; exact decide_eq_true hactivate⟩

/-- Results carry over from a queue that differs in the round robins, counters and windows only. -/
theorem Pops.of_same {cq₁ : CommandQueue} (h : Same cq cq₁)
    (hpops : Pops cfg bankStates cq₁ found cq') : Pops cfg bankStates cq found cq' := by
  cases hpops with
  | nothing hsame => exact .nothing (h.trans hsame)
  | refresh hwait hclosed hup hsame =>
    have hsend : cq₁.sendRefresh.1 = cq.sendRefresh.1 := rfl
    rw [h.refreshRank, h.clock] at hclosed
    rw [h.refreshRank] at hup
    rw [hsend]
    refine .refresh (h.refreshWaiting ▸ hwait) hclosed hup (Same.trans ?_ hsame)
    exact ⟨h.queues, h.rows, h.cells, rfl, rfl, h.clock⟩
  | precharge rank bank hpolicy hbank hsame =>
    rw [h.clock] at hbank
    exact .precharge rank bank hpolicy hbank (h.trans hsame)
  | queued ref i p hget hallowed htakes hsame =>
    have hcell : cq₁.cell ref = cq.cell ref := by
      unfold cell
      rw [h.cells]
    rw [hcell] at hget htakes
    rw [h.clock] at hallowed
    refine .queued ref i p hget hallowed htakes (Same.trans ?_ hsame)
    exact ⟨h.queues, h.rows, by rw [setCell, setCell, h.cells], h.refreshRank, h.refreshWaiting,
      h.clock⟩

/-- What follows the choice of a packet does not touch the queues or the flags. -/
theorem Pops.then_same {cq₁ : CommandQueue} (hpops : Pops cfg bankStates cq found cq₁)
    (h : Same cq₁ cq') : Pops cfg bankStates cq found cq' := by
  cases hpops with
  | nothing hsame => exact .nothing (hsame.trans h)
  | refresh hwait hclosed hup hsame => exact .refresh hwait hclosed hup (hsame.trans h)
  | precharge rank bank hpolicy hbank hsame =>
    exact .precharge rank bank hpolicy hbank (hsame.trans h)
  | queued ref i p hget hallowed htakes hsame =>
    exact .queued ref i p hget hallowed htakes (hsame.trans h)

theorem Pops.same_of_none (h : Pops cfg bankStates cq none cq') : Same cq cq' := by
  cases h with
  | nothing h => exact h

theorem Pops.clock (h : Pops cfg bankStates cq found cq') :
    cq'.currentClockCycle = cq.currentClockCycle := by
  cases h with
  | nothing hsame => exact hsame.clock
  | refresh _ _ _ hsame => exact hsame.clock
  | precharge _ _ _ _ hsame => exact hsame.clock
  | queued _ _ _ _ _ _ hsame => exact hsame.clock

theorem rotate_same (cfg : DRAMConfig) (cq : CommandQueue) : Same cq (cq.rotate cfg) := by
  unfold rotate
  cases cfg.queuingStructure <;> exact ⟨rfl, rfl, rfl, rfl, rfl, rfl⟩

theorem takeFrom_spec {ref : ℕ} (h : cq.takeFrom cfg bankStates ref = .ok (found, cq')) :
    Pops cfg bankStates cq found cq' := by
  unfold takeFrom at h
  split_ifs at h
  · cases hpolicy : cfg.rowBufferPolicy <;> rw [hpolicy] at h
    · exact takeOpen_spec hpolicy h
    · exact takeClose_spec hpolicy h
  · cases h
    exact .nothing (.refl _)

theorem searchQueues_spec (h : cq.searchQueues cfg bankStates = .ok (found, cq')) :
    Pops cfg bankStates cq found cq' := by
  -- the rounds before the last one find nothing
  refine doWhile_rule (I := fun s => s.1 = none ∧ Same cq s.2)
    (J := fun s => Pops cfg bankStates cq s.1 s.2) ?_ ⟨rfl, .refl _⟩ h
  rintro ⟨none', cq₁⟩ ⟨found₁, cq₂⟩ again ⟨-, hsame⟩ hbody
  obtain ⟨ref, -, hbody⟩ := Outcome.bind_eq_ok.mp hbody
  obtain ⟨⟨found', cq₃⟩, htake, hbody⟩ := Outcome.bind_eq_ok.mp hbody
  have hpops := (takeFrom_spec htake).of_same hsame
  cases found' with
  | some p =>
    cases hbody
    exact hpops
  | none =>
    cases hbody
    have hrotate := hpops.same_of_none.trans (rotate_same cfg cq₃)
    split_ifs
    · exact ⟨rfl, hrotate⟩
    · exact .nothing hrotate

theorem closable_spec (h : cq.closable cfg bankStates = .ok true) :
    ∃ s, bankAt bankStates cq.nextRankPRE cq.nextBankPRE = .ok s ∧
      s.currentBankState = .rowActive ∧ s.nextPrecharge ≤ cq.currentClockCycle := by
  obtain ⟨ref, -, h⟩ := Outcome.bind_eq_ok.mp h
  obtain ⟨s, hs, h⟩ := Outcome.bind_eq_ok.mp h
  split_ifs at h with hactive
  · obtain ⟨n, -, h⟩ := Outcome.bind_eq_ok.mp h
    have htime := (Bool.and_eq_true_iff.mp (Except.ok.inj h)).2
    exact ⟨s, hs, hactive, of_decide_eq_true htime⟩
  · cases h

theorem searchBanks_spec (hpolicy : cfg.rowBufferPolicy = .openPage)
    (h : cq.searchBanks cfg bankStates = .ok (found, cq')) : Pops cfg bankStates cq found cq' := by
  refine doWhile_rule (I := fun s => s.1 = none ∧ Same cq s.2)
    (J := fun s => Pops cfg bankStates cq s.1 s.2) ?_ ⟨rfl, .refl _⟩ h
  rintro ⟨none', cq₁⟩ ⟨found₁, cq₂⟩ again ⟨-, hsame⟩ hbody
  obtain ⟨close, hclose, hbody⟩ := Outcome.bind_eq_ok.mp hbody
  cases close with
  | true =>
    cases hbody
    refine Pops.of_same hsame (.precharge _ _ hpolicy (closable_spec hclose) ?_)
    exact ⟨rfl, rfl, rfl, rfl, rfl, rfl⟩
  | false =>
    cases hbody
    have hnext : Same cq { cq₁ with
        nextRankPRE := (nextRankAndBank cfg (cq₁.nextRankPRE, cq₁.nextBankPRE)).1
        nextBankPRE := (nextRankAndBank cfg (cq₁.nextRankPRE, cq₁.nextBankPRE)).2 } :=
      hsame.trans ⟨rfl, rfl, rfl, rfl, rfl, rfl⟩
    split_ifs
    · exact ⟨rfl, hnext⟩
    · exact .nothing hnext

theorem choose_spec (h : cq.choose cfg bankStates = .ok (found, cq')) :
    Pops cfg bankStates cq found cq' := by
  obtain ⟨⟨found₁, cq₁⟩, hrefresh, h⟩ := Outcome.bind_eq_ok.mp h
  obtain ⟨hpops, hnone⟩ := popRefresh_spec hrefresh
  cases found₁ with
  | some p =>
    cases h
    exact hpops
  | none =>
    cases hnone rfl
    obtain ⟨⟨found₂, cq₂⟩, hsearch, h⟩ := Outcome.bind_eq_ok.mp h
    have hqueues := searchQueues_spec hsearch
    cases found₂ with
    | some p =>
      cases h
      exact hqueues
    | none =>
      cases hpolicy : cfg.rowBufferPolicy <;> rw [hpolicy] at h
      · exact (searchBanks_spec hpolicy h).of_same hqueues.same_of_none
      · cases h
        exact hqueues

theorem finish_same (cfg : DRAMConfig) (cq : CommandQueue) (p : BusPacket) :
    Same cq (cq.finish cfg p) := by
  unfold finish
  split_ifs <;> exact ⟨rfl, rfl, rfl, rfl, rfl, rfl⟩

/-- **What `pop` may do**: nothing, a refresh or precharge command of its own, or one packet out of
one queue that its bank allows. -/
theorem pop_spec (h : cq.pop cfg bankStates = .ok (found, cq')) :
    Pops cfg bankStates cq found cq' := by
  obtain ⟨⟨found₁, cq₁⟩, hchoose, h⟩ := Outcome.bind_eq_ok.mp h
  have hticks : Same cq cq.tickWindows := ⟨rfl, rfl, rfl, rfl, rfl, rfl⟩
  have hpops := (choose_spec hchoose).of_same hticks
  cases found₁ with
  | none =>
    cases h
    exact hpops
  | some p =>
    cases h
    exact hpops.then_same (finish_same cfg cq₁ p)

end CommandQueue

end PIMSim.DDR
