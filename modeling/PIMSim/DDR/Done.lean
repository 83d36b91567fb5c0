import PIMSim.DDR.Completion

/-!
# When the memory object is done

A request that the memory object takes waits in its list, where others may join it, then as a
transaction in the slot when it is refused, and is given to the memory system in the end. `done` does
not look at the slot: a transaction is refused by a channel with a full queue, so that other
transactions are pending, and stay so until the next try.

## Main definitions

* `Delivered cfg r after`: the transaction of a request that represents `r` is accepted
* `AllDone cfg s`: every request was delivered and completed
* `Carried cfg s`: where the requests are that were taken
* `MergesAlike s e`: the requests a step merges agree

## Main results

* `done_sound`: when `done` answers true, all requests were delivered and completed
-/

namespace PIMSim.DDR

open CSharp Transition

/-- The transaction of a request, but for the time at which it is accepted. -/
def IsTransactionOf (cfg : DDRConfig) (q : MemRequest) (t : Transaction) : Prop :=
  { t with timeAdded := 0 } = alignTransactionAddress cfg (transactionOf q)

/-- The request `r` is accepted by the memory system, maybe with others that joined it. -/
def Delivered (cfg : DDRConfig) (r : MemRequest) (after : List RequestHappening) : Prop :=
  ∃ q t, Represents id q r ∧ IsTransactionOf cfg q t ∧ .accepted t ∈ after

/-- **All done**: every request that was taken was delivered afterwards, and everything that was
accepted is completed by a callback. -/
structure AllDone (cfg : DDRConfig) (s : DDRMem) : Prop where
  delivered : ∀ k r, s.history[k]? = some (.taken r) → Delivered cfg r (s.history.drop (k + 1))
  reads : s.completedReads.Perm (s.accepted.filter fun t => t.transactionType.isRead)
  writes : s.completedWrites.Perm
    ((s.accepted.filter fun t => t.transactionType.isWrite).map Transaction.call)

/-- The requests of an event. -/
def DDRMemEvent.requests : DDRMemEvent → List MemRequest
  | .addTransation req => [req]
  | .step requests => requests

/-- The controllers make no other requests than these. -/
def ReadsOrWrites (requests : List MemRequest) : Prop :=
  ∀ req ∈ requests, MemReqType.transType req.memtype ≠ .returnData

/-- The requests that come read or write, and those of one address and one side that a step merges
agree on the operation and on the stages they report. -/
def MergesAlike (s : DDRMem) (e : DDRMemEvent) : Prop :=
  ReadsOrWrites e.requests ∧ match e with
    | .addTransation _ => True
    | .step requests => Uniform id (s.transationQueue ++ requests)

instance (requests : List MemRequest) : Decidable (ReadsOrWrites requests) :=
  inferInstanceAs (Decidable (∀ req ∈ requests, MemReqType.transType req.memtype ≠ .returnData))

instance (queue : List MemRequest) : Decidable (Uniform id queue) :=
  inferInstanceAs (Decidable (∀ x ∈ queue, ∀ y ∈ queue, x.same y = true →
    x.memtype = y.memtype ∧ (System.callBackInfo x).stageId = (System.callBackInfo y).stageId))

instance (s : DDRMem) : ∀ e, Decidable (MergesAlike s e)
  | .addTransation req => inferInstanceAs (Decidable (ReadsOrWrites [req] ∧ True))
  | .step requests => inferInstanceAs
      (Decidable (ReadsOrWrites requests ∧ Uniform id (s.transationQueue ++ requests)))

variable {cfg : DDRConfig} {s s' : DDRMem}

/-! ### What is taken is not lost -/

/-- Where the request `r` is that was taken, when `after` is what happened since. -/
inductive Stands (cfg : DDRConfig) (s : DDRMem) (r : MemRequest) (after : List RequestHappening) :
    Prop
  | waits (q : MemRequest) (hq : q ∈ s.transationQueue) (hr : Represents id q r)
  | slot (q : MemRequest) (t : Transaction) (hslot : s.pendingTrans = true)
      (htrans : s.trans = some t) (ht : IsTransactionOf cfg q t) (hr : Represents id q r)
  | delivered (h : Delivered cfg r after)

/-- Every request that was taken stands somewhere. -/
def Carried (cfg : DDRConfig) (s : DDRMem) : Prop :=
  ∀ k r, s.history[k]? = some (.taken r) → Stands cfg s r (s.history.drop (k + 1))

theorem Delivered.append {r : MemRequest} {after : List RequestHappening}
    (h : Delivered cfg r after) (more : List RequestHappening) :
    Delivered cfg r (after ++ more) := by
  obtain ⟨q, t, hr, ht, hmem⟩ := h
  exact ⟨q, t, hr, ht, List.mem_append_left _ hmem⟩

/-- A request that is in a longer history was in the history, or is new. -/
theorem taken_append {history more : List RequestHappening} {k : ℕ} {r : MemRequest}
    (h : (history ++ more)[k]? = some (.taken r)) :
    (history[k]? = some (.taken r) ∧
        (history ++ more).drop (k + 1) = history.drop (k + 1) ++ more) ∨
      .taken r ∈ more := by
  rcases Nat.lt_or_ge k history.length with hlt | hge
  · rw [List.getElem?_append_left hlt] at h
    exact .inl ⟨h, List.drop_append_of_le_length hlt⟩
  · rw [List.getElem?_append_right hge] at h
    exact .inr (List.mem_of_getElem? h)

/-- The requests, the slot and the history are the same. -/
structure SameRequests (s s' : DDRMem) : Prop where
  queue : s'.transationQueue = s.transationQueue
  trans : s'.trans = s.trans
  pending : s'.pendingTrans = s.pendingTrans
  history : s'.history = s.history

theorem Carried.same (h : Carried cfg s) (hsame : SameRequests s s') : Carried cfg s' := by
  intro k r hk
  rw [hsame.history] at hk ⊢
  cases h k r hk with
  | waits q hq hr => exact .waits q (hsame.queue ▸ hq) hr
  | slot q t hslot htrans ht hr =>
    exact .slot q t (hsame.pending.trans hslot) (hsame.trans.trans htrans) ht hr
  | delivered h => exact .delivered h

theorem updateChannel_same {i : ℕ} (h : s.updateChannel cfg i = .ok s') : SameRequests s s' := by
  obtain ⟨c, -, h⟩ := Outcome.bind_eq_ok.mp h
  obtain ⟨c', -, h⟩ := Outcome.bind_eq_ok.mp h
  rw [if_pos returnTransactions_eq] at h
  obtain ⟨receiver, -, h⟩ := Outcome.bind_eq_ok.mp h
  cases h
  exact ⟨rfl, rfl, rfl, rfl⟩

theorem update_same (h : s.update cfg = .ok s') : SameRequests s s' := by
  unfold DDRMem.update at h
  generalize List.range cfg.numChans.toNat = channels at h
  induction channels generalizing s with
  | nil =>
    cases h
    exact ⟨rfl, rfl, rfl, rfl⟩
  | cons i channels ih =>
    rw [List.foldlM_cons] at h
    obtain ⟨s₁, hs₁, h⟩ := Outcome.bind_eq_ok.mp h
    have hfirst := updateChannel_same hs₁
    have hrest := ih h
    exact ⟨hrest.queue.trans hfirst.queue, hrest.trans.trans hfirst.trans,
      hrest.pending.trans hfirst.pending, hrest.history.trans hfirst.history⟩

/-- New requests are taken, and the list is merged. -/
theorem Carried.merge {requests queue : List MemRequest} (h : Carried cfg s)
    (halike : Uniform id (s.transationQueue ++ requests))
    (hmerge : PIMSim.DDRMem.mergeSame (s.transationQueue ++ requests) = .ok queue) (cycle : UInt64) :
    Carried cfg ({ s with cycle := cycle, transationQueue := queue }.note
      (requests.map .taken)) := by
  have hrepresents := (represents_iff hmerge).mpr halike
  intro k r hk
  rcases taken_append hk with ⟨hold, hdrop⟩ | hnew
  · show Stands cfg _ r ((s.history ++ requests.map RequestHappening.taken).drop (k + 1))
    rw [hdrop]
    cases h k r hold with
    | waits q hq hr =>
      obtain ⟨p, hp, hpq⟩ := hrepresents q (List.mem_append_left _ hq)
      exact .waits p hp (hpq.trans hr)
    | slot q t hslot htrans ht hr => exact .slot q t hslot htrans ht hr
    | delivered h => exact .delivered (h.append _)
  · obtain ⟨r', hr', heq⟩ := List.mem_map.mp hnew
    cases heq
    obtain ⟨p, hp, hpr⟩ := hrepresents r (List.mem_append_right _ hr')
    exact .waits p hp hpr

/-- The request at the head of the list is refused: its transaction is in the slot. -/
theorem Carried.refuse {req : MemRequest} {queue : List MemRequest} (h : Carried cfg s)
    (hqueue : s.transationQueue = req :: queue) (hempty : s.pendingTrans = false) :
    Carried cfg { s with
      transationQueue := queue
      trans := some (alignTransactionAddress cfg (transactionOf req))
      pendingTrans := true } := by
  intro k r hk
  cases h k r hk with
  | waits q hq hr =>
    rw [hqueue] at hq
    rcases List.mem_cons.mp hq with rfl | hq
    · exact .slot q _ rfl rfl rfl hr
    · exact .waits q hq hr
  | slot q t hslot =>
    rw [hempty] at hslot
    cases hslot
  | delivered h => exact .delivered h

/-- **A transaction is accepted**: what it stands for is delivered. -/
theorem Carried.accept {t : Transaction} (h : Carried cfg s)
    (hqueue : ∀ q ∈ s.transationQueue, q ∈ s'.transationQueue ∨ IsTransactionOf cfg q t)
    (hslot : s.pendingTrans = true → ∀ t', s.trans = some t' →
      { t with timeAdded := 0 } = { t' with timeAdded := 0 })
    (hhistory : s'.history = s.history ++ [.accepted t]) : Carried cfg s' := by
  intro k r hk
  rw [hhistory] at hk ⊢
  rcases taken_append hk with ⟨hold, hdrop⟩ | hnew
  · rw [hdrop]
    have hmem : RequestHappening.accepted t ∈ s.history.drop (k + 1) ++ [.accepted t] :=
      List.mem_append_right _ List.mem_cons_self
    cases h k r hold with
    | waits q hq hr =>
      rcases hqueue q hq with hq | ht
      · exact .waits q hq hr
      · exact .delivered ⟨q, t, hr, ht, hmem⟩
    | slot q t' hfull htrans ht hr =>
      exact .delivered ⟨q, t, hr, (hslot hfull t' htrans).trans ht, hmem⟩
    | delivered h => exact .delivered (h.append _)
  · cases List.mem_singleton.mp hnew

/-! ### A refused transaction keeps the memory object from being done -/

/-- A channel has a transaction that it accepted and did not complete. -/
def Owes (c : MemorySystem) : Prop := c.pendingReads ≠ [] ∨ c.pendingWrites ≠ []

/-- The transactions that wait in a channel read or write. -/
def Plain (c : MemorySystem) : Prop :=
  ∀ t ∈ c.controller.transactionQueue, t.transactionType ≠ .returnData

theorem owes_of_mem {c : MemorySystem} {t : Transaction} (hplain : Plain c)
    (ht : t ∈ c.controller.transactionQueue) : Owes c := by
  have hkind := hplain t ht
  cases htype : t.transactionType with
  | dataRead =>
    have hmem : t ∈ c.controller.transactionQueue.filter fun t => t.transactionType.isRead :=
      List.mem_filter.mpr ⟨ht, by rw [htype]; rfl⟩
    exact .inl (List.ne_nil_of_mem (List.mem_append_left _ hmem))
  | dataWrite =>
    have hmem : t ∈ c.controller.transactionQueue.filter fun t => t.transactionType.isWrite :=
      List.mem_filter.mpr ⟨ht, by rw [htype]; rfl⟩
    refine .inr (List.ne_nil_of_mem (a := t.call) ?_)
    unfold MemorySystem.pendingWrites
    simp only [List.mem_append]
    exact .inl (.inl (.inl (List.mem_map_of_mem hmem)))
  | returnData => exact absurd htype hkind

/-- A column access in the command queue is not completed: the data of a read is awaited. -/
theorem owes_of_column {dram : DRAMConfig} {accepted : List Transaction} {c : MemorySystem}
    {p : BusPacket} (h : Accounts dram accepted c)
    (hp : p ∈ c.controller.commandQueue.columns)
    (hkind : p.busPacketType.isRead = true ∨ p.busPacketType.isWrite = true) : Owes c := by
  rcases hkind with hread | hwrite
  · have hmem : p ∈ c.readPackets := by
      unfold MemorySystem.readPackets
      simp only [List.mem_append]
      exact .inl (.inl (List.mem_filter.mpr ⟨hp, hread⟩))
    have hreturning : p.physicalAddress ∈ c.returning :=
      List.mem_append_left _ (List.mem_map_of_mem hmem)
    have hawaited : p.physicalAddress ∈ c.awaited :=
      List.count_pos_iff.mp ((List.count_pos_iff.mpr hreturning).trans_le
        (h.balanced.due p.physicalAddress))
    obtain ⟨t, ht, -⟩ := List.mem_map.mp hawaited
    exact .inl (List.ne_nil_of_mem (List.mem_append_right _ ht))
  · refine .inr (List.ne_nil_of_mem (a := p.call) ?_)
    unfold MemorySystem.pendingWrites
    simp only [List.mem_append]
    exact .inl (.inl (.inr (List.mem_map_of_mem (List.mem_filter.mpr ⟨hp, hwrite⟩))))

theorem kept_threaded {dram : DRAMConfig} : Kept dram (Threaded dram) :=
  ⟨Threaded.quiet, Threaded.moved, Threaded.movedData, Threaded.checked, Threaded.issued⟩

/-- **A channel with transactions in its queue** owes one of them after its update. -/
theorem owes_update {dram : DRAMConfig} {c c' : MemorySystem} (hsound : SoundChannel dram c)
    (hplain : Plain c) (hqueue : c.controller.transactionQueue ≠ [])
    (h : c.update dram = .ok c') : Plain c' ∧ Owes c' := by
  obtain ⟨-, accepted', hafter⟩ := (hsound.update.1 c' h).1
  obtain ⟨accepted, haccounts⟩ := hsound.accounts
  obtain ⟨c₁, c₂, hbefore, hkept, hschedule, hqueue', -, hcells⟩ := update_arrivals h
  have hthreaded := hkept _ kept_threaded haccounts.threaded
  have hsame : c₁.controller.transactionQueue = c.controller.transactionQueue := by
    rw [hbefore.queue]
    unfold MemorySystem.addPending
    rw [hsound.waiting]
  cases schedule_spec hschedule with
  | still heq =>
    rw [heq, hsame] at hqueue'
    have hplain' : Plain c' := by
      intro t ht
      rw [hqueue'] at ht
      exact hplain t ht
    obtain ⟨t, ht⟩ := List.exists_mem_of_ne_nil _ hqueue
    exact ⟨hplain', owes_of_mem hplain' (hqueue' ▸ ht)⟩
  | one i t place type cq₁ cq₂ hget hroom hearlier hplace htype hact hcommand hfirst hsecond heq =>
    rename_i act command
    have hshorter : c'.controller.transactionQueue = c.controller.transactionQueue.eraseIdx i := by
      rw [hqueue', heq, ← hsame]
      rfl
    refine ⟨fun t' ht' => ?_, ?_⟩
    · rw [hshorter] at ht'
      exact hplain t' (List.mem_of_mem_eraseIdx ht')
    · -- Its column access is in the command queue.
      obtain ⟨ref, -, hlt, hcq⟩ := CommandQueue.enqueue_pair hthreaded.built hthreaded.wide
        (by rw [hact, hcommand]; rfl) (by rw [hact, hcommand]; rfl) hfirst hsecond
      have htypes : command.busPacketType = type := by
        rw [hcommand]
        rfl
      have hcolumns := CommandQueue.columns_enqueue hlt
        (show act.busPacketType = .activate by rw [hact]; rfl)
        (htypes ▸ isColumn_of_getBusPacketType htype)
      have hmem : command ∈ c'.controller.commandQueue.columns := by
        unfold CommandQueue.columns at hcolumns ⊢
        rw [hcells, heq]
        show command ∈ List.filter _ cq₂.cells.flatten
        rw [hcq]
        exact hcolumns.mem_iff.mpr (List.mem_append_left _ List.mem_cons_self)
      obtain ⟨hread, hwrite⟩ := isRead_of_getBusPacketType htype
      apply owes_of_column hafter hmem
      rw [htypes, hread, hwrite]
      have hkind := hplain t (hsame ▸ List.mem_of_getElem? hget)
      unfold TransactionType.isRead TransactionType.isWrite
      cases htransaction : t.transactionType with
      | dataRead => exact .inl rfl
      | dataWrite => exact .inr rfl
      | returnData => exact absurd htransaction hkind

theorem plain_update {dram : DRAMConfig} {c c' : MemorySystem} (hsound : SoundChannel dram c)
    (hplain : Plain c) (h : c.update dram = .ok c') : Plain c' := by
  by_cases hqueue : c.controller.transactionQueue = []
  · obtain ⟨c₁, c₂, hbefore, -, hschedule, hqueue', -, -⟩ := update_arrivals h
    have hempty : c₁.controller.transactionQueue = [] := by
      rw [hbefore.queue]
      unfold MemorySystem.addPending
      rw [hsound.waiting]
      exact hqueue
    intro t ht
    rw [hqueue'] at ht
    cases schedule_spec hschedule with
    | still heq =>
      rw [heq, hempty] at ht
      cases ht
    | one i t' place type cq₁ cq₂ hget =>
      rw [hempty] at hget
      cases hget
  · exact (owes_update hsound hplain hqueue h).1

/-- What the updates keep: the accounts are settled, and the transactions that wait read or write. -/
structure Served (cfg : DDRConfig) (s : DDRMem) : Prop where
  settled : Settled cfg s
  width : s.channels.length = cfg.numChans.toNat
  plain : ∀ c ∈ s.channels, Plain c

/-- The memory object between its steps: what was taken stands somewhere, and a transaction in the
slot is not the only one that is not completed. -/
structure Sound (cfg : DDRConfig) (s : DDRMem) : Prop extends Served cfg s where
  kinds : ReadsOrWrites s.transationQueue
  carried : Carried cfg s
  slot : s.pendingTrans = true → ∃ t, s.trans = some t ∧ t.transactionType ≠ .returnData
  owes : s.pendingTrans = true → ∃ c ∈ s.channels, Owes c

/-- The update of a channel touches no other one. -/
theorem updateChannel_served {i : ℕ} (hs : Served cfg s) (h : s.updateChannel cfg i = .ok s') :
    Served cfg s' ∧ ∃ c c', s.channels[i]? = some c ∧ c.update cfg.dram = .ok c' ∧
      s'.channels = s.channels.set i c' := by
  have hsettled := (updateChannel_settled hs.settled i).1 s' h
  obtain ⟨c, hc, h⟩ := Outcome.bind_eq_ok.mp h
  obtain ⟨c', hc', h⟩ := Outcome.bind_eq_ok.mp h
  rw [if_pos returnTransactions_eq] at h
  obtain ⟨receiver, -, h⟩ := Outcome.bind_eq_ok.mp h
  have hget := listAt_natCast.mp hc
  have hset : s'.channels = s.channels.set i c' := by
    cases h
    rfl
  refine ⟨⟨hsettled, ?_, fun d hd => ?_⟩, c, c', hget, hc', hset⟩
  · rw [hset, List.length_set]
    exact hs.width
  · rw [hset] at hd
    rcases List.mem_or_eq_of_mem_set hd with hd | rfl
    · exact hs.plain d hd
    · have hmem := List.mem_of_getElem? hget
      exact plain_update (hs.settled.channels c hmem) (hs.plain c hmem) hc'

theorem foldlM_served {channels : List ℕ} (hs : Served cfg s) (hnodup : channels.Nodup)
    (h : channels.foldlM (DDRMem.updateChannel cfg) s = .ok s') :
    Served cfg s' ∧ ∀ i c, s.channels[i]? = some c → (i ∉ channels → s'.channels[i]? = some c) ∧
      (i ∈ channels → ∃ c', c.update cfg.dram = .ok c' ∧ s'.channels[i]? = some c') := by
  induction channels generalizing s with
  | nil =>
    cases h
    refine ⟨hs, fun i c hget => ⟨fun _ => hget, fun hmem => ?_⟩⟩
    cases hmem
  | cons k channels ih =>
    rw [List.foldlM_cons] at h
    obtain ⟨s₁, hs₁, h⟩ := Outcome.bind_eq_ok.mp h
    obtain ⟨hk, hnodup⟩ := List.nodup_cons.mp hnodup
    obtain ⟨hserved, d, d', hd, hd', hset⟩ := updateChannel_served hs hs₁
    obtain ⟨hserved', hrest⟩ := ih hserved hnodup h
    refine ⟨hserved', fun i c hget => ?_⟩
    by_cases hi : i = k
    · subst hi
      obtain rfl : d = c := Option.some.inj (hd.symm.trans hget)
      have hupdated : s₁.channels[i]? = some d' := by
        rw [hset, List.getElem?_set_self (List.getElem?_eq_some_iff.mp hget).1]
      refine ⟨fun hnot => absurd List.mem_cons_self hnot, fun _ => ⟨d', hd', ?_⟩⟩
      exact (hrest i d' hupdated).1 hk
    · have hkept : s₁.channels[i]? = some c := by
        rw [hset, List.getElem?_set_ne fun hki => hi hki.symm]
        exact hget
      obtain ⟨hnot, hin⟩ := hrest i c hkept
      refine ⟨fun hmem => hnot fun hmem' => hmem (List.mem_cons_of_mem k hmem'), fun hmem => ?_⟩
      exact hin (List.mem_of_ne_of_mem hi hmem)

/-- **The update of the channels**: each of them is updated once, so that one with transactions in
its queue owes one afterwards. -/
theorem update_served (hs : Served cfg s)
    (h : s.update cfg = .ok s') : Served cfg s' ∧ ∀ (i : ℕ) (c : MemorySystem), s.channels[i]? = some c →
      c.controller.transactionQueue ≠ [] → ∃ c ∈ s'.channels, Owes c := by
  obtain ⟨hserved, hchannels⟩ := foldlM_served hs List.nodup_range h
  refine ⟨hserved, fun i c hget hqueue => ?_⟩
  have hmem := List.mem_of_getElem? hget
  have hlt : i < cfg.numChans.toNat := hs.width ▸ (List.getElem?_eq_some_iff.mp hget).1
  obtain ⟨c', hc', hget'⟩ := (hchannels i c hget).2 (List.mem_range.mpr hlt)
  exact ⟨c', List.mem_of_getElem? hget',
    (owes_update (hs.settled.channels c hmem) (hs.plain c hmem) hqueue hc').2⟩

/-! ### Steps and runs -/

/-- A channel that refuses has transactions in its queue. -/
theorem queue_of_full {dram : DRAMConfig} {c : MemorySystem} (hdepth : 1 ≤ dram.transQueueDepth)
    (hfull : c.willAcceptTransaction dram = false) : c.controller.transactionQueue ≠ [] := by
  intro hempty
  unfold MemorySystem.willAcceptTransaction at hfull
  rw [hempty] at hfull
  exact absurd hdepth (of_decide_eq_false hfull)

/-- What a channel accepts reads or writes. -/
theorem Served.accept {i : ℕ} {c : MemorySystem} {t : Transaction} (hs : Served cfg s)
    (ht : t.transactionType ≠ .returnData) (hget : s.channels[i]? = some c)
    (hset : s'.channels = s.channels.set i (c.accept t)) (hsettled : Settled cfg s') :
    Served cfg s' := by
  refine ⟨hsettled, ?_, fun d hd => ?_⟩
  · rw [hset, List.length_set]
    exact hs.width
  · rw [hset] at hd
    rcases List.mem_or_eq_of_mem_set hd with hd | rfl
    · exact hs.plain d hd
    · intro t' ht'
      rcases List.mem_append.mp ht' with ht' | ht'
      · exact hs.plain c (List.mem_of_getElem? hget) t' ht'
      · cases List.mem_singleton.mp ht'
        exact ht

/-- What does not touch the channels. -/
theorem Served.congr (hs : Served cfg s) (hsettled : Settled cfg s')
    (hchannels : s'.channels = s.channels) : Served cfg s' :=
  ⟨hsettled, hchannels ▸ hs.width, hchannels ▸ hs.plain⟩

/-- **A transaction is given away**: a channel with a full queue refuses it and nothing else changes,
or it is accepted and the slot is empty. -/
inductive Gave (cfg : DDRConfig) (s : DDRMem) (t : Transaction) (s' : DDRMem) : Prop
  | refused (i : ℕ) (c : MemorySystem) (hget : s.channels[i]? = some c)
      (hfull : c.willAcceptTransaction cfg.dram = false)
      (h : s' = { s with trans := some t, pendingTrans := true })
  | accepted (i : ℕ) (c : MemorySystem) (hget : s.channels[i]? = some c)
      (hset : s'.channels = s.channels.set i (c.accept t)) (hempty : s'.pendingTrans = false)
      (hqueue : s'.transationQueue = s.transationQueue)
      (hhistory : s'.history =
        s.history ++ [.accepted { t with timeAdded := c.controller.currentClockCycle }])

theorem giveTransaction_gave {t : Transaction} (hempty : s.pendingTrans = false)
    (h : s.giveTransaction cfg t = .ok s') : Gave cfg s t s' := by
  obtain ⟨x, hx, h⟩ := Outcome.bind_eq_ok.mp h
  cases (addTransaction_given s.channels t).1 x hx with
  | refused i c hget hfull =>
    cases h
    exact .refused i c hget hfull rfl
  | accepted i c hget =>
    dsimp only at h
    rw [if_pos returnTransactions_eq] at h
    obtain ⟨receiver, -, h⟩ := Outcome.bind_eq_ok.mp h
    cases h
    exact .accepted i c hget rfl hempty rfl rfl

theorem retryTransaction_gave {t : Transaction} (hslot : s.pendingTrans = true)
    (htrans : s.trans = some t) (h : s.retryTransaction cfg = .ok s') : Gave cfg s t s' := by
  unfold DDRMem.retryTransaction at h
  rw [htrans] at h
  obtain ⟨x, hx, h⟩ := Outcome.bind_eq_ok.mp h
  cases (addTransaction_given s.channels t).1 x hx with
  | refused i c hget hfull =>
    cases h
    refine .refused i c hget hfull ?_
    rw [← htrans, ← hslot]
  | accepted i c hget =>
    obtain ⟨receiver, -, h⟩ := Outcome.bind_eq_ok.mp h
    cases h
    exact .accepted i c hget rfl rfl rfl rfl

theorem Gave.queue {t : Transaction} (h : Gave cfg s t s') :
    s'.transationQueue = s.transationQueue := by
  cases h with
  | refused i c hget hfull heq => rw [heq]
  | accepted i c hget hset hempty hqueue hhistory => exact hqueue

/-- **After a transaction was given away** and the channels were updated: it is in the slot and a
channel owes one, or the slot is empty. -/
theorem Gave.sound {t : Transaction} {s₁ : DDRMem} (hdepth : 1 ≤ cfg.dram.transQueueDepth)
    (ht : t.transactionType ≠ .returnData)
    (hs : Served cfg s) (hgave : Gave cfg s t s₁) (hsettled : Settled cfg s₁)
    (hkinds : ReadsOrWrites s.transationQueue) (hcarried : Carried cfg s₁)
    (h : s₁.update cfg = .ok s') : Sound cfg s' := by
  have hsame := update_same h
  have hkinds' : ReadsOrWrites s'.transationQueue := by
    rw [hsame.queue, hgave.queue]
    exact hkinds
  cases hgave with
  | refused i c hget hfull heq =>
    have hserved : Served cfg s₁ := hs.congr hsettled (by rw [heq])
    obtain ⟨hserved', howes⟩ := update_served hserved h
    refine ⟨hserved', hkinds', hcarried.same hsame, fun _ => ⟨t, ?_, ht⟩, fun _ => ?_⟩
    · rw [hsame.trans, heq]
    · apply howes i c _ (queue_of_full hdepth hfull)
      rw [heq]
      exact hget
  | accepted i c hget hset hempty hqueue hhistory =>
    have hserved : Served cfg s₁ := hs.accept ht hget hset hsettled
    have hno : s'.pendingTrans ≠ true := by
      rw [hsame.pending, hempty]
      exact Bool.false_ne_true
    exact ⟨(update_served hserved h).1, hkinds', hcarried.same hsame,
      fun hslot => absurd hslot hno, fun hslot => absurd hslot hno⟩

theorem updateMemory_sound (hdepth : 1 ≤ cfg.dram.transQueueDepth) (hs : Sound cfg s)
    (h : s.updateMemory cfg = .ok s') : Sound cfg s' := by
  unfold DDRMem.updateMemory at h
  by_cases hslot : s.pendingTrans = true
  · rw [if_pos hslot] at h
    -- The slot is full: its transaction is tried again before the queue is looked at.
    obtain ⟨t, htrans, ht⟩ := hs.slot hslot
    obtain ⟨s₁, hs₁, h⟩ := Outcome.bind_eq_ok.mp h
    have hgave := retryTransaction_gave hslot htrans hs₁
    have hsettled := (retryTransaction_settled hs.settled).1 s₁ hs₁
    refine hgave.sound hdepth ht hs.toServed hsettled hs.kinds ?_ h
    cases hgave with
    | refused i c hget hfull heq =>
      apply hs.carried.same
      rw [heq]
      exact ⟨rfl, htrans.symm, hslot.symm, rfl⟩
    | accepted i c hget hset hempty hqueue hhistory =>
      refine hs.carried.accept (fun q hq => .inl (hqueue ▸ hq)) (fun _ t' ht' => ?_) hhistory
      rw [Option.some.inj (htrans.symm.trans ht')]
  · rw [if_neg hslot] at h
    have hempty : s.pendingTrans = false := Bool.eq_false_iff.mpr hslot
    -- The slot is empty: the head of the queue is given, and goes to the slot when it is refused.
    cases hqueue : s.transationQueue with
    | nil =>
      rw [hqueue] at h
      have hsame := update_same h
      have hno : s'.pendingTrans ≠ true := by
        rw [hsame.pending]
        exact hslot
      exact ⟨(update_served hs.toServed h).1, hsame.queue ▸ hs.kinds, hs.carried.same hsame,
        fun hfull => absurd hfull hno, fun hfull => absurd hfull hno⟩
    | cons req queue =>
      rw [hqueue] at h
      dsimp only at h
      have hkinds := hs.kinds
      rw [hqueue] at hkinds
      have hkind := hkinds req List.mem_cons_self
      rw [if_neg hkind] at h
      obtain ⟨s₁, hs₁, h⟩ := Outcome.bind_eq_ok.mp h
      have hgave := giveTransaction_gave (s := { s with transationQueue := queue }) hempty hs₁
      have hbefore : Settled cfg { s with transationQueue := queue } :=
        hs.settled.congr rfl rfl rfl
      have hsettled := (giveTransaction_settled hbefore _).1 s₁ hs₁
      refine hgave.sound hdepth hkind (hs.toServed.congr hbefore rfl) hsettled
        (fun q hq => hkinds q (List.mem_cons_of_mem req hq)) ?_ h
      cases hgave with
      | refused i c hget hfull heq =>
        rw [heq]
        exact hs.carried.refuse hqueue hempty
      | accepted i c hget hset hempty' hqueue' hhistory =>
        refine hs.carried.accept (fun q hq => ?_) (fun hfull => absurd hfull hslot) hhistory
        rw [hqueue] at hq
        rcases List.mem_cons.mp hq with rfl | hq
        · exact .inr rfl
        · exact .inl (hqueue' ▸ hq)

/-- A request is added to the list. -/
theorem Carried.add (h : Carried cfg s) (req : MemRequest) : Carried cfg (s.addTransation req) := by
  intro k r hk
  rcases taken_append hk with ⟨hold, hdrop⟩ | hnew
  · show Stands cfg _ r ((s.history ++ [RequestHappening.taken req]).drop (k + 1))
    rw [hdrop]
    cases h k r hold with
    | waits q hq hr => exact .waits q (List.mem_append_left _ hq) hr
    | slot q t hslot htrans ht hr => exact .slot q t hslot htrans ht hr
    | delivered h => exact .delivered (h.append _)
  · cases List.mem_singleton.mp hnew
    exact .waits req (List.mem_append_right _ List.mem_cons_self)
      ⟨rfl, rfl, rfl, List.Subset.refl _, rfl⟩

/-- The requests that remain are of the kinds of those that were merged. -/
theorem ReadsOrWrites.merge {requests queue : List MemRequest} (h : ReadsOrWrites requests)
    (hmerge : PIMSim.DDRMem.mergeSame requests = .ok queue) : ReadsOrWrites queue := by
  intro q hq
  obtain ⟨o, ho, -, htype, -⟩ := ((holds_refl _).merges (mergeRounds_spec hmerge).1).origin q hq
  rw [htype]
  exact h o ho

theorem ReadsOrWrites.append {requests more : List MemRequest} (h : ReadsOrWrites requests)
    (hmore : ReadsOrWrites more) : ReadsOrWrites (requests ++ more) := by
  intro q hq
  exact (List.mem_append.mp hq).elim (h q) (hmore q)

theorem step_sound {e : DDRMemEvent} (hdepth : 1 ≤ cfg.dram.transQueueDepth) (hs : Sound cfg s)
    (hgood : MergesAlike s e) (h : s.step cfg e = .ok s') : Sound cfg s' := by
  obtain ⟨hkinds, hgood⟩ := hgood
  cases e with
  | addTransation req =>
    cases h
    have hsettled : Settled cfg (s.addTransation req) :=
      hs.settled.congr rfl rfl (accepted_taken s [req])
    exact ⟨hs.toServed.congr hsettled rfl, hs.kinds.append hkinds, hs.carried.add req, hs.slot,
      hs.owes⟩
  | step requests =>
    obtain ⟨queue, hmerge, h⟩ := Outcome.bind_eq_ok.mp h
    refine updateMemory_sound hdepth ?_ h
    have hsettled : Settled cfg ({ s with
        cycle := s.cycle + 1
        transationQueue := queue }.note (requests.map .taken)) :=
      hs.settled.congr rfl rfl (accepted_taken s requests)
    exact ⟨hs.toServed.congr hsettled rfl, (hs.kinds.append hkinds).merge hmerge,
      hs.carried.merge hgood hmerge _, hs.slot, hs.owes⟩

theorem sound_init (cfg : DDRConfig) : Sound cfg (DDRMem.init cfg) := by
  refine ⟨⟨settled_init cfg, List.length_replicate, fun c hc t ht => ?_⟩, fun q hq => ?_,
    fun k r hk => ?_, fun hslot => ?_, fun hslot => ?_⟩
  · rw [List.eq_of_mem_replicate hc] at ht
    cases ht
  · cases hq
  · cases hk
  · cases hslot
  · cases hslot

/-- **Between the steps**, when `done` answers true, nothing waits and everything is completed. -/
theorem Sound.allDone (hs : Sound cfg s) (hdone : s.isDone = true) :
    s.pendingTrans = false ∧ AllDone cfg s := by
  unfold DDRMem.isDone at hdone
  obtain ⟨hdone, hwrites⟩ := Bool.and_eq_true_iff.mp hdone
  obtain ⟨hqueue, hreads⟩ := Bool.and_eq_true_iff.mp hdone
  have hnoRead : s.pendingReads = [] :=
    List.map_eq_nil_iff.mp (hs.settled.accounting.pendingReadRequests.isEmpty.mp hreads)
  have hnoWrite : s.pendingWrites = [] :=
    List.map_eq_nil_iff.mp (hs.settled.accounting.pendingWriteRequests.isEmpty.mp hwrites)
  have hempty : s.pendingTrans = false := by
    apply Bool.eq_false_iff.mpr
    intro hslot
    -- The channel that refused owes a transaction.
    obtain ⟨c, hc, howes⟩ := hs.owes hslot
    have hnone : ∀ {α : Type} (f : MemorySystem → List α), s.total f = [] → f c = [] :=
      fun f hf => List.flatten_eq_nil_iff.mp hf _ (List.mem_map_of_mem hc)
    rcases howes with howes | howes
    · exact howes (hnone _ hnoRead)
    · exact howes (hnone _ hnoWrite)
  refine ⟨hempty, fun k r hk => ?_, ?_, ?_⟩
  · cases hs.carried k r hk with
    | waits q hq hr =>
      rw [List.isEmpty_iff.mp hqueue] at hq
      cases hq
    | slot q t hslot =>
      rw [hempty] at hslot
      cases hslot
    | delivered h => exact h
  · have hall := hs.settled.accounting.reads
    rw [hnoRead, List.append_nil] at hall
    exact hall
  · have hall := hs.settled.accounting.writes
    rw [hnoWrite, List.append_nil] at hall
    exact hall

/-- **Completion soundness**: after every run whose steps merge what is alike, every request that was
taken waits, is in the slot or is delivered; and when `done` answers true, the slot is empty, all
requests are delivered, and all transactions are completed by a callback. -/
theorem done_sound (cfg : DDRConfig) (hdepth : 1 ≤ cfg.dram.transQueueDepth)
    {events : List DDRMemEvent} {s : DDRMem}
    (hgood : Along (DDRMem.step cfg) MergesAlike (DDRMem.init cfg) events)
    (h : exec (DDRMem.step cfg) (DDRMem.init cfg) events = .ok s) :
    Carried cfg s ∧ (s.isDone = true → s.pendingTrans = false ∧ AllDone cfg s) := by
  have hs : Sound cfg s :=
    exec_along (fun s e s' hs hgood h => step_sound hdepth hs hgood h) (sound_init cfg) hgood h
  exact ⟨hs.carried, hs.allDone⟩

theorem done_sound_reads : ∃ s,
    exec (DDRMem.step oneChannel) (DDRMem.init oneChannel) threeRequests = .ok s ∧
      s.isDone = true ∧ Carried oneChannel s ∧ AllDone oneChannel s := by
  have hrun : ((exec (DDRMem.step oneChannel) (DDRMem.init oneChannel) threeRequests).toOption.any
      DDRMem.isDone) = true := by
    decide +kernel
  have hgood : Along (DDRMem.step oneChannel) MergesAlike (DDRMem.init oneChannel)
      threeRequests := by
    decide +kernel
  cases hexec : exec (DDRMem.step oneChannel) (DDRMem.init oneChannel) threeRequests with
  | error e =>
    rw [hexec] at hrun
    cases hrun
  | ok s =>
    rw [hexec] at hrun
    obtain ⟨hcarried, hdone⟩ := done_sound oneChannel (by decide) hgood hexec
    exact ⟨s, rfl, hrun, hcarried, (hdone hrun).2⟩

/-- A write of an address that another processor reads. -/
def lateWrite : MemRequest := { address := 1, blockAddr := 0, memtype := .write, pid := [1] }

/-- A read and a write of one address, by two processors of the host, and time to complete them. -/
def readAndWrite : List DDRMemEvent :=
  .step [{ address := 1, blockAddr := 0, memtype := .read, pid := [0] }, lateWrite] ::
    List.replicate 15 (.step [])

/-- The write joins the read and is never given to the memory system, and `done` answers true. -/
theorem not_delivered_joined : ¬∀ s, exec (DDRMem.step oneChannel) (DDRMem.init oneChannel)
    readAndWrite = .ok s → s.isDone = true → ∀ k r, s.history[k]? = some (.taken r) →
      Delivered oneChannel r (s.history.drop (k + 1)) := by
  intro h
  have hrun : ((exec (DDRMem.step oneChannel) (DDRMem.init oneChannel) readAndWrite).toOption.any
      fun s => s.isDone && decide (s.history[1]? = some (.taken lateWrite)) &&
        s.accepted.all fun t => t.transactionType.isRead) = true := by
    decide +kernel
  cases hexec : exec (DDRMem.step oneChannel) (DDRMem.init oneChannel) readAndWrite with
  | error e =>
    rw [hexec] at hrun
    cases hrun
  | ok s =>
    rw [hexec] at hrun
    obtain ⟨hrun, hreads⟩ := Bool.and_eq_true_iff.mp hrun
    obtain ⟨hdone, hwrite⟩ := Bool.and_eq_true_iff.mp hrun
    obtain ⟨q, t, hr, ht, hmem⟩ := h s hexec hdone 1 lateWrite (of_decide_eq_true hwrite)
    -- What is delivered for it is a write, and all transactions are reads.
    have htype : t.transactionType = .dataWrite := by
      have htransaction : t.transactionType = MemReqType.transType q.memtype :=
        congrArg Transaction.transactionType ht
      rw [htransaction, show q.memtype = lateWrite.memtype from hr.operation]
      rfl
    have haccepted : t ∈ s.accepted :=
      List.mem_filterMap.mpr ⟨_, List.mem_of_mem_drop hmem, rfl⟩
    have hread := List.all_eq_true.mp hreads t haccepted
    rw [htype] at hread
    cases hread

end PIMSim.DDR
