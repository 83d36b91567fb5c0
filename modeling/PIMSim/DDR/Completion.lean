import PIMSim.DDR.Accounts
import PIMSim.DDR.DDRMem

/-!
# Completion of requests

The transaction receiver finds an entry for every callback: its entries are the accepted
transactions that are not completed, so that `done` answers true only when there are none, and a
transaction in the slot keeps it from that.

## Main definitions

* `PendingRequests.Counts`: the entries are a list of addresses with their numbers
* `CompletionAccounting`: the accounts of the memory object
* `completionFaults`: the exits for a completion that matches nothing

## Main results

* `completions_accounted`: the accounts after every run
-/

namespace PIMSim.DDR

open CSharp Transition

/-! ### The receiver -/

namespace PendingRequests

/-- **The entries are these addresses**: each has as many cycles as it occurs, and at least one. -/
def Counts (requests : PendingRequests) (addresses : List UInt64) : Prop :=
  ∀ a, (∀ cycles, requests[a]? = some cycles → cycles ≠ []) ∧
    (requests[a]?.getD []).length = addresses.count a

variable {requests : PendingRequests} {addresses addresses' : List UInt64}

theorem counts_empty : Counts {} [] := by
  intro a
  have hnone : ({} : PendingRequests)[a]? = none := Std.TreeMap.getElem?_emptyc
  rw [hnone]
  refine ⟨fun cycles h => ?_, rfl⟩
  cases h

theorem Counts.perm (h : Counts requests addresses) (hperm : addresses.Perm addresses') :
    Counts requests addresses' := by
  intro a
  rw [← hperm.count_eq a]
  exact h a

/-- A cycle is added. -/
theorem Counts.add (h : Counts requests addresses) (address cycle : UInt64) :
    Counts (requests.add address cycle) (address :: addresses) := by
  intro a
  have hinsert : requests.add address cycle =
      requests.insert address ((requests[address]?.getD []) ++ [cycle]) := by
    unfold PendingRequests.add
    cases requests[address]? <;> rfl
  rw [hinsert, Std.TreeMap.getElem?_insert, List.count_cons]
  by_cases ha : address = a
  · subst ha
    rw [if_pos Std.ReflCmp.compare_self, if_pos (beq_self_eq_true address)]
    refine ⟨fun cycles hc => ?_, ?_⟩
    · cases hc
      exact List.append_ne_nil_of_right_ne_nil _ (List.cons_ne_nil _ _)
    · rw [Option.getD_some, List.length_append, (h address).2]
      rfl
  · rw [if_neg fun hc => ha (Std.LawfulEqCmp.eq_of_compare hc), if_neg (by simpa using ha)]
    exact h a

/-- A request is taken off. -/
theorem Counts.complete {address : UInt64} (h : Counts requests (address :: addresses))
    (absent nothing : String) :
    ∃ requests', requests.complete absent nothing address = .ok requests' ∧
      Counts requests' addresses := by
  obtain ⟨hne, hlength⟩ := h address
  rw [List.count_cons_self] at hlength
  -- The other addresses are as before.
  have hother : ∀ a, address ≠ a → (∀ cycles, requests[a]? = some cycles → cycles ≠ []) ∧
      (requests[a]?.getD []).length = addresses.count a := by
    intro a ha
    rw [← List.count_cons_of_ne ha]
    exact h a
  have hcompare : ∀ a, address ≠ a → ¬compare address a = .eq :=
    fun a ha hc => ha (Std.LawfulEqCmp.eq_of_compare hc)
  unfold PendingRequests.complete
  match hget : requests[address]? with
  | none =>
    rw [hget] at hlength
    cases hlength
  | some [] => exact absurd rfl (hne [] hget)
  | some [cycle] =>
    rw [hget] at hlength
    refine ⟨_, rfl, fun a => ?_⟩
    rw [Std.TreeMap.getElem?_erase]
    by_cases ha : address = a
    · subst ha
      rw [if_pos Std.ReflCmp.compare_self]
      refine ⟨fun cycles hc => ?_, Nat.succ.inj hlength⟩
      cases hc
    · rw [if_neg (hcompare a ha)]
      exact hother a ha
  | some (cycle :: next :: cycles) =>
    rw [hget] at hlength
    refine ⟨_, rfl, fun a => ?_⟩
    rw [Std.TreeMap.getElem?_insert]
    by_cases ha : address = a
    · subst ha
      rw [if_pos Std.ReflCmp.compare_self]
      refine ⟨fun cycles' hc => ?_, Nat.succ.inj hlength⟩
      cases hc
      exact List.cons_ne_nil _ _
    · rw [if_neg (hcompare a ha)]
      exact hother a ha

/-- There are no entries. -/
theorem Counts.isEmpty (h : Counts requests addresses) :
    requests.isEmpty = true ↔ addresses = [] := by
  rw [Std.TreeMap.isEmpty_iff_forall_not_mem]
  constructor
  · intro hempty
    apply List.eq_nil_iff_forall_not_mem.mpr
    intro a ha
    have hlength := (h a).2
    rw [Std.TreeMap.getElem?_eq_none (hempty a)] at hlength
    exact (List.count_pos_iff.mpr ha).ne hlength
  · rintro rfl a ha
    obtain ⟨hne, hlength⟩ := h a
    obtain ⟨cycles, hget⟩ := Option.isSome_iff_exists.mp (Std.TreeMap.mem_iff_isSome_getElem?.mp ha)
    rw [hget, List.count_nil] at hlength
    exact hne cycles hget (List.eq_nil_of_length_eq_zero hlength)

end PendingRequests

namespace TransactionReceiver

variable {reads writes : List UInt64}

/-- **The callbacks find their entries**, when the reads and the writes they complete are among
those of the receiver. -/
theorem foldlM_callBack (events : List Happening) {r : TransactionReceiver}
    (hreads : r.pendingReadRequests.Counts
      ((events.filterMap Happening.read?).map Transaction.address ++ reads))
    (hwrites : r.pendingWriteRequests.Counts
      ((events.filterMap Happening.write?).map Prod.fst ++ writes)) :
    Ensures Lost (events.foldlM callBack r) fun r' =>
      r'.pendingReadRequests.Counts reads ∧ r'.pendingWriteRequests.Counts writes := by
  induction events generalizing r with
  | nil => exact ensures_ok ⟨hreads, hwrites⟩
  | cons e events ih =>
    rw [List.foldlM_cons]
    cases e with
    | returnReadData t =>
      obtain ⟨requests, hcomplete, hcounts⟩ := PendingRequests.Counts.complete hreads
        "ERROR: Cant find a pending read for this one" "ERROR:Nothing here, either"
      have hcall : r.callBack (.returnReadData t) = .ok { r with
          pendingReadRequests := requests } := by
        show r.readComplete t.address = _
        unfold readComplete
        rw [hcomplete]
        rfl
      rw [hcall]
      exact ih hcounts hwrites
    | writeDataDone address callback =>
      obtain ⟨requests, hcomplete, hcounts⟩ := PendingRequests.Counts.complete hwrites
        "ERROR  : Cant find a pending read for this one" "ERROR  : Nothing here, either"
      have hcall : r.callBack (.writeDataDone address callback) = .ok { r with
          pendingWriteRequests := requests } := by
        show r.writeComplete address = _
        unfold writeComplete
        rw [hcomplete]
        rfl
      rw [hcall]
      exact ih hreads hcounts
    | needRefresh rank => exact ih hreads hwrites
    | scheduled t act command => exact ih hreads hwrites
    | issued p => exact ih hreads hwrites
    | received rank p => exact ih hreads hwrites

end TransactionReceiver

/-! ### The accounts -/

/-- A transaction that is accepted. -/
def RequestHappening.accepted? : RequestHappening → Option Transaction
  | .accepted t => some t
  | _ => none

namespace DDRMem

variable (s : DDRMem)

def accepted : List Transaction := s.history.filterMap RequestHappening.accepted?

/-- What all channels have of something. -/
def total {α : Type} (f : MemorySystem → List α) : List α := (s.channels.map f).flatten

def completedReads : List Transaction := s.total MemorySystem.completedReads

def pendingReads : List Transaction := s.total MemorySystem.pendingReads

def completedWrites : List Call := s.total MemorySystem.completedWrites

def pendingWrites : List Call := s.total MemorySystem.pendingWrites

end DDRMem

/-- **Completion accounting**: the accepted transactions are those completed, which the callbacks are
called for with their own information, and those pending; and the entries of the receiver are the
pending ones. -/
structure CompletionAccounting (s : DDRMem) : Prop where
  reads : (s.completedReads ++ s.pendingReads).Perm
    (s.accepted.filter fun t => t.transactionType.isRead)
  writes : (s.completedWrites ++ s.pendingWrites).Perm
    ((s.accepted.filter fun t => t.transactionType.isWrite).map Transaction.call)
  pendingReadRequests : s.transactionReceiver.pendingReadRequests.Counts
    (s.pendingReads.map Transaction.address)
  pendingWriteRequests : s.transactionReceiver.pendingWriteRequests.Counts
    (s.pendingWrites.map Prod.fst)

/-- A channel that keeps its accounts, with no transaction that waits for its queue. -/
structure SoundChannel (cfg : DRAMConfig) (c : MemorySystem) : Prop where
  waiting : c.pendingTransactions = []
  accounts : ∃ accepted, Accounts cfg accepted c

/-- What holds between the steps of the memory object. -/
structure Settled (cfg : DDRConfig) (s : DDRMem) : Prop where
  channels : ∀ c ∈ s.channels, SoundChannel cfg.dram c
  accounting : CompletionAccounting s

variable {cfg : DDRConfig} {s s' : DDRMem}

/-- The history of a memory system grows. -/
theorem update_history {dram : DRAMConfig} {c c' : MemorySystem} (h : c.update dram = .ok c') :
    c.history <+: c'.history := by
  have hstep : c.step dram .update = .ok c' := h
  refine step_rule (I := fun t => c.history <+: t.history) ?_ ?_ ?_ ?_ ?_ ?_ ?_ ?_
    (List.prefix_refl _) hstep
  · intro s s' hs hquiet
    rw [hquiet.history]
    exact hs
  · intro s s' hs hmoved
    cases hmoved with
    | still hquiet =>
      rw [hquiet.history]
      exact hs
    | arrived p _ hquiet =>
      rw [hquiet.history]
      exact hs.trans (List.prefix_append _ _)
  · intro s s' hs hmoved
    cases hmoved with
    | still hquiet =>
      rw [hquiet.history]
      exact hs
    | arrived p _ hquiet =>
      rw [hquiet.history]
      exact (hs.trans (List.prefix_append _ _)).trans (List.prefix_append _ _)
  · intro s s' hs hchecked
    cases hchecked with
    | still hquiet =>
      rw [hquiet.history]
      exact hs
    | due _ hquiet =>
      rw [hquiet.history]
      exact hs.trans (List.prefix_append _ _)
  · intro s s' hs hissued
    cases hissued with
    | still hquiet =>
      rw [hquiet.history]
      exact hs
    | issued p cq _ _ hhistory =>
      rw [hhistory]
      exact hs.trans (List.prefix_append _ _)
  · intro s s' hs hscheduled
    cases hscheduled with
    | still hquiet =>
      rw [hquiet.history]
      exact hs
    | scheduled t place type cq₁ cq₂ _ _ _ _ _ _ hquiet =>
      rw [hquiet.history]
      exact hs.trans (List.prefix_append _ _)
  · intro s s' hs hreturned
    cases hreturned with
    | still hquiet =>
      rw [hquiet.history]
      exact hs
    | returned t hquiet =>
      rw [hquiet.history]
      exact hs.trans (List.prefix_append _ _)
  · exact fun s hs => hs

/-- A channel after an update: what was pending is completed or still pending. -/
theorem SoundChannel.update {dram : DRAMConfig} {c : MemorySystem} (h : SoundChannel dram c) :
    Ensures Lost (c.update dram) fun c' => SoundChannel dram c' ∧
      c.pendingReads.Perm
        ((c'.history.drop c.history.length).filterMap Happening.read? ++ c'.pendingReads) ∧
      c.pendingWrites.Perm
        ((c'.history.drop c.history.length).filterMap Happening.write? ++ c'.pendingWrites) ∧
      c'.completedReads = c.completedReads ++
        (c'.history.drop c.history.length).filterMap Happening.read? ∧
      c'.completedWrites = c.completedWrites ++
        (c'.history.drop c.history.length).filterMap Happening.write? := by
  obtain ⟨accepted, haccounts⟩ := h.accounts
  have hnone : addedPending dram c = [] := by
    unfold addedPending
    rw [h.waiting, List.take_nil, List.map_nil, ite_self]
  refine ((update_accounts haccounts).and fun c' hc' => hc').mono fun c' ⟨hafter, hc'⟩ => ?_
  rw [hnone, List.append_nil] at hafter
  obtain ⟨new, hnew⟩ := update_history hc'
  have hdrop : c'.history.drop c.history.length = new := by
    rw [← hnew, List.drop_left]
  have hreads : c'.completedReads = c.completedReads ++ new.filterMap Happening.read? := by
    unfold MemorySystem.completedReads
    rw [← hnew, List.filterMap_append]
  have hwrites : c'.completedWrites = c.completedWrites ++ new.filterMap Happening.write? := by
    unfold MemorySystem.completedWrites
    rw [← hnew, List.filterMap_append]
  -- The retry queue of a channel is never used by `DDRMem`, which keeps a refused transaction
  -- itself.
  have hwaiting : c'.pendingTransactions = [] := by
    obtain ⟨c₁, c₂, hbefore, -, hschedule, -, hwaits, -⟩ := update_arrivals hc'
    have hkept : c₂.pendingTransactions = c₁.pendingTransactions := by
      cases schedule_spec hschedule with
      | still heq => rw [heq]
      | one _ _ _ _ _ _ _ _ _ _ _ _ _ _ _ heq =>
        rw [heq]
        rfl
    rw [hwaits, hkept, hbefore.waiting]
    unfold MemorySystem.addPending
    rw [h.waiting]
    exact h.waiting
  rw [hdrop]
  refine ⟨⟨hwaiting, accepted, hafter⟩, ?_, ?_, hreads, hwrites⟩
  · -- Both sides account for the same accepted transactions, and what was completed before cancels.
    have hsame := haccounts.balanced.reads.trans hafter.balanced.reads.symm
    rw [hreads, List.append_assoc] at hsame
    exact (List.perm_append_left_iff _).mp hsame
  · have hsame := haccounts.balanced.writes.trans hafter.balanced.writes.symm
    rw [hwrites, List.append_assoc] at hsame
    exact (List.perm_append_left_iff _).mp hsame

/-! ### Updates of the channels -/

section Totals

variable {α : Type} {f : MemorySystem → List α} {channels : List MemorySystem} {i : ℕ}
  {c c' : MemorySystem} {new : List α}

theorem getElem?_map_channels (h : channels[i]? = some c) : (channels.map f)[i]? = some (f c) := by
  rw [List.getElem?_map, h]
  rfl

/-- One channel has more of something. -/
theorem total_grow (hget : s.channels[i]? = some c) (hf : (f c').Perm (new ++ f c))
    (hset : s'.channels = s.channels.set i c') : (s'.total f).Perm (new ++ s.total f) := by
  unfold DDRMem.total
  rw [hset, List.map_set]
  exact Queues.flatten_grow_perm (getElem?_map_channels hget) hf

/-- One channel has less of something. -/
theorem total_shrink (hget : s.channels[i]? = some c) (hf : (f c).Perm (new ++ f c'))
    (hset : s'.channels = s.channels.set i c') : (s.total f).Perm (new ++ s'.total f) := by
  unfold DDRMem.total
  rw [hset, List.map_set]
  exact Queues.flatten_shrink_perm (getElem?_map_channels hget) hf

end Totals

/-- What is completed is no longer pending. -/
theorem completed_perm {α : Type} {done done' left left' new : List α}
    (hdone : done'.Perm (new ++ done)) (hleft : left.Perm (new ++ left')) :
    (done' ++ left').Perm (done ++ left) := by
  refine (hdone.append_right left').trans ?_
  refine List.Perm.trans ?_ (hleft.symm.append_left done)
  rw [← List.append_assoc]
  exact List.perm_append_comm.append_right left'

/-- **The update of a channel** settles what it completes. -/
theorem updateChannel_settled (h : Settled cfg s) (i : ℕ) :
    Ensures Lost (s.updateChannel cfg i) (Settled cfg) := by
  refine (harmless_at _ _).bind fun c hc => ?_
  have hget := listAt_natCast.mp hc
  refine (h.channels c (List.mem_of_getElem? hget)).update.bind fun c' hc' => ?_
  obtain ⟨hsound, hreads, hwrites, hdoneReads, hdoneWrites⟩ := hc'
  generalize c'.history.drop c.history.length = new at hreads hwrites hdoneReads hdoneWrites ⊢
  -- The channels after the update, before the callbacks.
  obtain ⟨s₁, hs₁⟩ : ∃ s₁ : DDRMem, s₁ = { s with channels := s.channels.set i c' } := ⟨_, rfl⟩
  have hset : s₁.channels = s.channels.set i c' := by rw [hs₁]
  have hreadsLeft := total_shrink hget hreads hset
  have hwritesLeft := total_shrink hget hwrites hset
  have hreadCounts := h.accounting.pendingReadRequests.perm (hreadsLeft.map Transaction.address)
  have hwriteCounts := h.accounting.pendingWriteRequests.perm (hwritesLeft.map Prod.fst)
  rw [List.map_append] at hreadCounts hwriteCounts
  rw [if_pos returnTransactions_eq]
  subst hs₁
  refine (TransactionReceiver.foldlM_callBack new hreadCounts hwriteCounts).bind fun r hr => ?_
  refine ensures_ok ⟨fun c hmem => ?_, ?_, ?_, ?_, ?_⟩
  · rcases List.mem_or_eq_of_mem_set hmem with hmem | rfl
    · exact h.channels c hmem
    · exact hsound
  · refine (completed_perm ?_ hreadsLeft).trans h.accounting.reads
    apply total_grow hget _ hset
    rw [hdoneReads]
    exact List.perm_append_comm
  · refine (completed_perm ?_ hwritesLeft).trans h.accounting.writes
    apply total_grow hget _ hset
    rw [hdoneWrites]
    exact List.perm_append_comm
  · exact hr.1
  · exact hr.2

theorem update_settled (h : Settled cfg s) : Ensures Lost (s.update cfg) (Settled cfg) :=
  foldlM_ensures (fun _ i _ hs => updateChannel_settled hs i) h

/-! ### Acceptance -/

/-- What does not touch the channels, the receiver and the accepted transactions. -/
theorem Settled.congr (h : Settled cfg s) (hchannels : s'.channels = s.channels)
    (hreceiver : s'.transactionReceiver = s.transactionReceiver)
    (haccepted : s'.accepted = s.accepted) : Settled cfg s' := by
  have htotal : ∀ {α : Type} (f : MemorySystem → List α), s'.total f = s.total f := by
    intro α f
    unfold DDRMem.total
    rw [hchannels]
  refine ⟨hchannels ▸ h.channels, ?_, ?_, ?_, ?_⟩
  · unfold DDRMem.completedReads DDRMem.pendingReads
    rw [htotal, htotal, haccepted]
    exact h.accounting.reads
  · unfold DDRMem.completedWrites DDRMem.pendingWrites
    rw [htotal, htotal, haccepted]
    exact h.accounting.writes
  · unfold DDRMem.pendingReads
    rw [hreceiver, htotal]
    exact h.accounting.pendingReadRequests
  · unfold DDRMem.pendingWrites
    rw [hreceiver, htotal]
    exact h.accounting.pendingWriteRequests

theorem pendingReads_accept (c : MemorySystem) (t : Transaction) :
    (c.accept t).pendingReads.Perm
      ([{ t with timeAdded := c.controller.currentClockCycle }].filter
        (fun t => t.transactionType.isRead) ++ c.pendingReads) := by
  unfold MemorySystem.pendingReads MemorySystem.accept
  rw [List.filter_append, ← List.append_assoc]
  exact List.perm_append_comm.append_right _

theorem pendingWrites_accept (c : MemorySystem) (t : Transaction) :
    (c.accept t).pendingWrites.Perm
      (([{ t with timeAdded := c.controller.currentClockCycle }].filter
        fun t => t.transactionType.isWrite).map Transaction.call ++ c.pendingWrites) := by
  unfold MemorySystem.pendingWrites MemorySystem.accept
  rw [List.filter_append, List.map_append]
  simp only [← List.append_assoc]
  exact List.Perm.append_right _ (List.Perm.append_right _ (List.perm_append_comm.append_right _))

/-- A transaction that is given to a channel: it is refused by a channel with a full queue, or accepted
at the time of the channel. -/
inductive Given (dram : DRAMConfig) (channels : List MemorySystem) (t : Transaction) :
    Option Transaction × List MemorySystem → Prop
  | refused (i : ℕ) (c : MemorySystem) (hget : channels[i]? = some c)
      (hfull : c.willAcceptTransaction dram = false) : Given dram channels t (none, channels)
  | accepted (i : ℕ) (c : MemorySystem) (hget : channels[i]? = some c) :
      Given dram channels t (some { t with timeAdded := c.controller.currentClockCycle },
        channels.set i (c.accept t))

/-- The exit for a channel that does not exist is another one. -/
theorem not_lost_channel (rest : String) :
    ¬Lost (.exit 1 ("ERROR Got channel index " ++ rest)) := by
  intro hlost
  have hstart : ("ERROR Got channel index " ++ rest).toList.take 7 = "ERROR G".toList := by
    rw [String.toList_append]
    rfl
  generalize "ERROR Got channel index " ++ rest = message at hlost hstart
  have hmessage : message ∈ ["ERROR: Cant find a pending read for this one",
      "ERROR:Nothing here, either", "ERROR  : Cant find a pending read for this one",
      "ERROR  : Nothing here, either"] := by
    simpa [Lost, completionFaults] using hlost
  simp only [List.mem_cons, List.not_mem_nil, or_false] at hmessage
  rcases hmessage with rfl | rfl | rfl | rfl <;> exact absurd hstart (by decide)

theorem findChannelNumber_harmless (numChans : UInt32) (dram : DRAMConfig) (addr : UInt64) :
    Harmless Lost (MultiChannelMemorySystem.findChannelNumber numChans dram addr) := by
  unfold MultiChannelMemorySystem.findChannelNumber
  split_ifs
  · exact harmless_ok _
  · refine (harmless_addressMapping _).bind fun place _ => ?_
    split_ifs
    · simp only [String.append_assoc]
      exact harmless_error (not_lost_channel _)
    · exact harmless_ok _
  · exact harmless_error (by decide)

theorem addTransaction_given (channels : List MemorySystem) (t : Transaction) :
    Ensures Lost (MultiChannelMemorySystem.addTransaction cfg channels t)
      (Given cfg.dram channels t) := by
  refine (findChannelNumber_harmless _ _ _).bind fun i _ => (harmless_at _ _).bind fun c hc => ?_
  split_ifs with hwill
  · have haccept : c.addTransaction cfg.dram t = c.accept t := by
      unfold MemorySystem.addTransaction
      rw [if_pos hwill]
    rw [haccept]
    exact ensures_ok (.accepted i c (listAt_natCast.mp hc))
  · exact ensures_ok (.refused i c (listAt_natCast.mp hc) (Bool.eq_false_iff.mpr hwill))

/-- The receiver has an entry more. -/
theorem addPending_counts {r r' : TransactionReceiver} {t : Transaction} {cycle : UInt64}
    {reads : List Transaction} {writes : List Call} (hadd : r.addPending t cycle = .ok r')
    (hreads : r.pendingReadRequests.Counts (reads.map Transaction.address))
    (hwrites : r.pendingWriteRequests.Counts (writes.map Prod.fst)) :
    r'.pendingReadRequests.Counts
        (([t].filter (fun t => t.transactionType.isRead) ++ reads).map Transaction.address) ∧
      r'.pendingWriteRequests.Counts
        (((([t].filter fun t => t.transactionType.isWrite).map Transaction.call) ++ writes).map
          Prod.fst) := by
  unfold TransactionReceiver.addPending at hadd
  cases htype : t.transactionType <;> rw [htype] at hadd <;> cases hadd <;>
    simp only [List.filter_cons, htype, TransactionType.isRead, TransactionType.isWrite,
      decide_true, reduceCtorEq, decide_false, Bool.false_eq_true, if_true, if_false,
      List.filter_nil]
  · exact ⟨hreads.add t.address cycle, hwrites⟩
  · exact ⟨hreads, hwrites.add t.address cycle⟩

/-- **An accepted transaction** is added to the receiver. -/
theorem Settled.accept {i : ℕ} {c : MemorySystem} {t : Transaction} {receiver : TransactionReceiver}
    {cycle : UInt64} (h : Settled cfg s) (hget : s.channels[i]? = some c)
    (hadd : s.transactionReceiver.addPending
      { t with timeAdded := c.controller.currentClockCycle } cycle = .ok receiver) :
    Settled cfg ({ s with
      channels := s.channels.set i (c.accept t)
      transactionReceiver := receiver }.note
        [.accepted { t with timeAdded := c.controller.currentClockCycle }]) := by
  obtain ⟨t', ht'⟩ : ∃ t', t' = { t with timeAdded := c.controller.currentClockCycle } := ⟨_, rfl⟩
  obtain ⟨s', hs'⟩ : ∃ s' : DDRMem, s' = { s with
      channels := s.channels.set i (c.accept t)
      transactionReceiver := receiver }.note [.accepted t'] := ⟨_, rfl⟩
  rw [← ht', ← hs']
  rw [← ht'] at hadd
  have hset : s'.channels = s.channels.set i (c.accept t) := by
    rw [hs']
    rfl
  have haccepted : s'.accepted = s.accepted ++ [t'] := by
    rw [hs']
    exact List.filterMap_append
  -- The four totals over the channels move by what the one channel took.
  have hreads : s'.pendingReads.Perm
      ([t'].filter (fun t => t.transactionType.isRead) ++ s.pendingReads) :=
    total_grow hget (ht' ▸ pendingReads_accept c t) hset
  have hwrites : s'.pendingWrites.Perm
      (([t'].filter fun t => t.transactionType.isWrite).map Transaction.call ++
        s.pendingWrites) :=
    total_grow hget (ht' ▸ pendingWrites_accept c t) hset
  have hdoneReads : s'.completedReads.Perm ([] ++ s.completedReads) := by
    apply total_grow hget _ hset
    exact List.Perm.refl c.completedReads
  have hdoneWrites : s'.completedWrites.Perm ([] ++ s.completedWrites) := by
    apply total_grow hget _ hset
    exact List.Perm.refl c.completedWrites
  have hreceiver : s'.transactionReceiver = receiver := by
    rw [hs']
    rfl
  refine ⟨fun d hd => ?_, ?_, ?_, ?_, ?_⟩
  · rw [hset] at hd
    rcases List.mem_or_eq_of_mem_set hd with hd | rfl
    · exact h.channels d hd
    · obtain ⟨hwaiting, accepted, haccounts⟩ := h.channels c (List.mem_of_getElem? hget)
      exact ⟨hwaiting, _, haccounts.accept t⟩
  · rw [haccepted, List.filter_append]
    refine (hdoneReads.append hreads).trans ?_
    refine List.Perm.trans ?_ (h.accounting.reads.append_right _)
    exact append_middle_perm _ [] _ _
  · rw [haccepted, List.filter_append, List.map_append]
    refine (hdoneWrites.append hwrites).trans ?_
    refine List.Perm.trans ?_ (h.accounting.writes.append_right _)
    exact append_middle_perm _ [] _ _
  · refine PendingRequests.Counts.perm ?_ (hreads.map Transaction.address).symm
    rw [hreceiver]
    exact (addPending_counts hadd h.accounting.pendingReadRequests
      h.accounting.pendingWriteRequests).1
  · refine PendingRequests.Counts.perm ?_ (hwrites.map Prod.fst).symm
    rw [hreceiver]
    exact (addPending_counts hadd h.accounting.pendingReadRequests
      h.accounting.pendingWriteRequests).2

/-! ### Steps and runs -/

theorem addPending_harmless (r : TransactionReceiver) (t : Transaction) (cycle : UInt64) :
    Harmless Lost (r.addPending t cycle) := by
  unfold TransactionReceiver.addPending
  cases t.transactionType
  · exact harmless_ok _
  · exact harmless_ok _
  · exact harmless_error (by decide)

theorem giveTransaction_settled (h : Settled cfg s) (t : Transaction) :
    Ensures Lost (s.giveTransaction cfg t) (Settled cfg) := by
  refine (addTransaction_given s.channels t).bind fun x hx => ?_
  cases hx with
  | refused => exact ensures_ok (h.congr rfl rfl rfl)
  | accepted i c hget =>
    dsimp only
    rw [if_pos returnTransactions_eq]
    refine (addPending_harmless _ _ _).bind fun receiver hadd => ensures_ok ?_
    exact (h.accept hget hadd).congr rfl rfl rfl

theorem retryTransaction_settled (h : Settled cfg s) :
    Ensures Lost (s.retryTransaction cfg) (Settled cfg) := by
  unfold DDRMem.retryTransaction
  cases s.trans with
  | none => exact ensures_error (by decide)
  | some t =>
    refine (addTransaction_given s.channels t).bind fun x hx => ?_
    cases hx with
    | refused => exact ensures_ok h
    | accepted i c hget =>
      refine (addPending_harmless _ _ _).bind fun receiver hadd => ensures_ok ?_
      exact (h.accept hget hadd).congr rfl rfl rfl

theorem mergeSame_harmless (queue : List MemRequest) :
    Harmless Lost (PIMSim.DDRMem.mergeSame queue) := by
  refine ⟨fun _ _ => trivial, fun e he => ?_⟩
  rw [mergeRounds_fault (Nat.lt_succ_self _) he]
  decide

theorem accepted_taken (s : DDRMem) (requests : List MemRequest) :
    (s.note (requests.map RequestHappening.taken)).accepted = s.accepted := by
  show (s.history ++ requests.map RequestHappening.taken).filterMap _ = s.accepted
  rw [List.filterMap_append, List.filterMap_map]
  refine (congrArg (s.accepted ++ ·) ?_).trans (List.append_nil _)
  exact List.filterMap_eq_nil_iff.mpr fun req _ => rfl

theorem accepted_dropped (s : DDRMem) (req : MemRequest) :
    (s.note [RequestHappening.dropped req]).accepted = s.accepted := by
  show (s.history ++ [RequestHappening.dropped req]).filterMap _ = s.accepted
  rw [List.filterMap_append]
  exact List.append_nil _

theorem updateMemory_settled (h : Settled cfg s) :
    Ensures Lost (s.updateMemory cfg) (Settled cfg) := by
  unfold DDRMem.updateMemory
  split_ifs
  · exact (retryTransaction_settled h).bind fun s₁ hs₁ => update_settled hs₁
  · cases s.transationQueue with
    | nil => exact update_settled h
    | cons req queue =>
      dsimp only
      split_ifs
      · exact ensures_ok (h.congr rfl rfl (accepted_dropped s req))
      · have hqueue : Settled cfg { s with transationQueue := queue } := h.congr rfl rfl rfl
        exact (giveTransaction_settled hqueue _).bind fun s₁ hs₁ => update_settled hs₁

/-- **A step** keeps the accounts, and does not end in an exit for a completion. -/
theorem step_settled (h : Settled cfg s) (e : DDRMemEvent) :
    Ensures Lost (s.step cfg e) (Settled cfg) := by
  cases e with
  | addTransation req => exact ensures_ok (h.congr rfl rfl (accepted_taken s [req]))
  | step requests =>
    refine (mergeSame_harmless _).bind fun queue _ => updateMemory_settled ?_
    exact h.congr rfl rfl (accepted_taken s requests)

theorem settled_init (cfg : DDRConfig) : Settled cfg (DDRMem.init cfg) := by
  have htotal : ∀ {α : Type} (f : MemorySystem → List α), f (MemorySystem.init cfg.dram) = [] →
      (DDRMem.init cfg).total f = [] := by
    intro α f hf
    unfold DDRMem.total DDRMem.init
    rw [List.map_replicate, hf, List.flatten_replicate_nil]
  have haccounts := Accounts.init cfg.dram
  have hreads := haccounts.balanced.reads.eq_nil
  have hwrites := haccounts.balanced.writes.eq_nil
  rw [List.append_eq_nil_iff] at hreads hwrites
  refine ⟨fun c hc => ?_, ?_, ?_, ?_, ?_⟩
  · rw [List.eq_of_mem_replicate hc]
    exact ⟨rfl, [], haccounts⟩
  · unfold DDRMem.completedReads DDRMem.pendingReads
    rw [htotal _ hreads.1, htotal _ hreads.2]
    exact List.Perm.refl _
  · unfold DDRMem.completedWrites DDRMem.pendingWrites
    rw [htotal _ hwrites.1, htotal _ hwrites.2]
    exact List.Perm.refl _
  · unfold DDRMem.pendingReads
    rw [htotal _ hreads.2]
    exact PendingRequests.counts_empty
  · unfold DDRMem.pendingWrites
    rw [htotal _ hwrites.2]
    exact PendingRequests.counts_empty

/-- **Completion accounting**: after every run of the memory object, the accepted transactions are
those completed and those pending, each callback is called for one of them with its own information,
the receiver counts the pending ones, and no run ends in an exit for a completion that matches
nothing. -/
theorem completions_accounted (cfg : DDRConfig) (events : List DDRMemEvent) :
    (∀ e ∈ completionFaults, exec (DDRMem.step cfg) (DDRMem.init cfg) events ≠ .error e) ∧
      ∀ s, exec (DDRMem.step cfg) (DDRMem.init cfg) events = .ok s → CompletionAccounting s := by
  have hrun : Ensures Lost (exec (DDRMem.step cfg) (DDRMem.init cfg) events) (Settled cfg) :=
    exec_ensures (fun s e hs => step_settled hs e) (settled_init cfg) events
  exact ⟨fun e he hexec => hrun.2 e hexec he, fun s hs => (hrun.1 s hs).accounting⟩

/-- One channel with a rank of one bank. -/
def oneChannel : DDRConfig where
  dram := { openRow with cl := 3, bl := 2 }

/-- Two reads of one address and a write, and time to complete them. -/
def threeRequests : List DDRMemEvent :=
  .step [{ address := 1, blockAddr := 0, memtype := .read, pid := [0] }] ::
    .step [{ address := 1, blockAddr := 0, memtype := .read, pid := [1] }] ::
      .step [{ address := 2, blockAddr := 0, memtype := .write, pid := [0] }] ::
        List.replicate 15 (.step [])

theorem completions_accounted_reads :
    ∃ s, exec (DDRMem.step oneChannel) (DDRMem.init oneChannel) threeRequests = .ok s ∧
      s.completedReads.length = 2 ∧ CompletionAccounting s := by
  have hrun : ((exec (DDRMem.step oneChannel) (DDRMem.init oneChannel) threeRequests).toOption.any
      fun s => decide (s.completedReads.length = 2 ∧ s.completedWrites.length = 1)) = true := by
    decide +kernel
  cases hexec : exec (DDRMem.step oneChannel) (DDRMem.init oneChannel) threeRequests with
  | error e =>
    rw [hexec] at hrun
    cases hrun
  | ok s =>
    rw [hexec] at hrun
    exact ⟨s, rfl, (of_decide_eq_true hrun).1, (completions_accounted oneChannel _).2 s hexec⟩

end PIMSim.DDR
