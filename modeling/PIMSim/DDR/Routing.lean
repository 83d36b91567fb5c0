import PIMSim.DDR.Independence
import PIMSim.DDR.Parts

/-!
# Where the commands go

The constructor of a bus packet does not use the rank it is given, so the commands of every
transaction go to rank 0, to the bank of the transaction's address.

## Main definitions

* `Routed cfg s`: the commands of all transactions were, are, or wait in the queues to be, sent to the
  rank and the bank of the transaction's address
* `Routes cfg events`: after the run, if it does not stop, they were
* `RankZero cfg events`: the addresses of all scheduled transactions belong to rank 0

## Main results

* `routes_iff`: the commands go to the right ranks exactly if all addresses belong to rank 0
-/

namespace PIMSim.DDR

open CSharp Transition

/-- The packet is a command of a transaction. -/
def BusPacket.OfTransaction (p : BusPacket) : Prop :=
  p.busPacketType ≠ .precharge ∧ p.busPacketType ≠ .refresh ∧ p.busPacketType ≠ .data

/-- The packet was made for the transaction. -/
def Made (history : List Happening) (t : Transaction) (p : BusPacket) : Prop :=
  ∃ act command, .scheduled t act command ∈ history ∧ (p = act ∨ p = command)

/-- The packet names the rank and the bank of the place. -/
def GoesTo (place : Place) (p : BusPacket) : Prop := p.rank = place.rank ∧ p.bank = place.bank

/-- What happens sends the commands of transactions to the rank and the bank of their address. -/
def SendsRight (cfg : DRAMConfig) (history : List Happening) : Happening → Prop
  | .scheduled t act command => ∃ place, addressMapping cfg t.address = .ok place ∧
      GoesTo place act ∧ GoesTo place command
  | .issued p => p.OfTransaction → ∃ t place, Made history t p ∧
      addressMapping cfg t.address = .ok place ∧ GoesTo place p
  | .received rank p => p.OfTransaction → ∃ t place, Made history t p ∧
      addressMapping cfg t.address = .ok place ∧ GoesTo place p ∧ rank = place.rank
  | _ => True

/-- The commands of transactions were sent to the rank and the bank of their address, and the others
wait in its queue. -/
structure Routed (cfg : DRAMConfig) (s : MemorySystem) : Prop where
  history : ∀ e ∈ s.history, SendsRight cfg s.history e
  queued : ∀ ref p, p ∈ s.controller.commandQueue.cell ref → ∃ t place, Made s.history t p ∧
    addressMapping cfg t.address = .ok place ∧
      s.controller.commandQueue.getCommandQueue cfg place.rank place.bank = .ok ref

/-- **Routing** in a run. -/
def Routes (cfg : DRAMConfig) (events : List MemoryEvent) : Prop :=
  ∀ s, exec (MemorySystem.step cfg) (MemorySystem.init cfg) events = .ok s → Routed cfg s

/-- The address of every transaction that is scheduled in the run belongs to rank 0. -/
def RankZero (cfg : DRAMConfig) (events : List MemoryEvent) : Prop :=
  ∀ s, exec (MemorySystem.step cfg) (MemorySystem.init cfg) events = .ok s →
    ∀ t act command, .scheduled t act command ∈ s.history →
      ∃ place, addressMapping cfg t.address = .ok place ∧ place.rank = 0

/-! ### Where a packet comes from -/

/-- The packet is one of rank 0 and of the bank of the place. -/
def InRankZero (place : Place) (p : BusPacket) : Prop := p.rank = 0 ∧ p.bank = place.bank

/-- A command of a transaction was made for one that was scheduled. -/
def Known (history : List Happening) (p : BusPacket) : Prop :=
  p.OfTransaction → ∃ t, Made history t p

/-- What the code does at a happening. -/
def Traces (cfg : DRAMConfig) (history : List Happening) : Happening → Prop
  | .scheduled t act command => ∃ place, addressMapping cfg t.address = .ok place ∧
      InRankZero place act ∧ InRankZero place command
  | .issued p => Known history p
  | .received rank p => rank = p.rank ∧ Known history p
  | _ => True

/-- Every command of a transaction can be traced to it. -/
structure Traced (cfg : DRAMConfig) (s : MemorySystem) : Prop where
  built : s.controller.commandQueue.Built cfg
  history : ∀ e ∈ s.history, Traces cfg s.history e
  queued : ∀ ref p, p ∈ s.controller.commandQueue.cell ref → ∃ t, Made s.history t p
  out : ∀ p, s.controller.outgoingCmdPacket = some p → Known s.history p
  write : ∀ p ∈ s.controller.writeDataToSend, p.busPacketType = .data
  data : ∀ p, s.controller.outgoingDataPacket = some p → p.busPacketType = .data

variable {cfg : DRAMConfig} {s s' : MemorySystem} {history history' : List Happening}
  {t : Transaction} {p : BusPacket}

theorem Made.mono (hsub : history ⊆ history') (h : Made history t p) : Made history' t p := by
  obtain ⟨act, command, hmem, hp⟩ := h
  exact ⟨act, command, hsub hmem, hp⟩

theorem Known.mono (hsub : history ⊆ history') (h : Known history p) : Known history' p := by
  intro hp
  obtain ⟨t, ht⟩ := h hp
  exact ⟨t, ht.mono hsub⟩

theorem Traces.mono (hsub : history ⊆ history') {e : Happening} (h : Traces cfg history e) :
    Traces cfg history' e := by
  cases e with
  | issued p => exact Known.mono hsub h
  | received rank p => exact ⟨h.1, h.2.mono hsub⟩
  | _ => exact h

/-- The history grows by something that can be traced. -/
theorem Traced.note (h : Traced cfg s) (e : Happening)
    (he : Traces cfg (s.history ++ [e]) e) : Traced cfg (s.note e) := by
  have hsub : s.history ⊆ s.history ++ [e] := List.subset_append_left _ _
  refine ⟨h.built, fun e' he' => ?_, fun ref p hp => ?_, fun p hp => (h.out p hp).mono hsub,
    h.write, h.data⟩
  · rcases List.mem_append.mp he' with he' | he'
    · exact (h.history e' he').mono hsub
    · cases List.mem_singleton.mp he'
      exact he
  · obtain ⟨t, ht⟩ := h.queued ref p hp
    exact ⟨t, ht.mono hsub⟩

theorem CommandQueue.cell_congr {cq cq' : CommandQueue} (h : cq'.cells = cq.cells) (ref : ℕ) :
    cq'.cell ref = cq.cell ref := by
  unfold CommandQueue.cell
  rw [h]

theorem Traced.quiet (h : Traced cfg s) (hquiet : Quiet s s') : Traced cfg s' := by
  have hcell := CommandQueue.cell_congr hquiet.cells
  refine ⟨?_, ?_, ?_, ?_, ?_, ?_⟩
  · refine h.built.of_subset hquiet.queues hquiet.rows fun ref p hp => .inl ?_
    rwa [hcell] at hp
  · rw [hquiet.history]
    exact h.history
  · intro ref p hp
    rw [hcell] at hp
    rw [hquiet.history]
    exact h.queued ref p hp
  · rw [hquiet.out, hquiet.history]
    exact h.out
  · exact fun p hp => h.write p (hquiet.write hp)
  · intro p hp
    rcases hquiet.data p hp with hp | hp
    · exact h.data p hp
    · exact h.write p hp

theorem Traced.moved (h : Traced cfg s) (hmoved : Moved s s') : Traced cfg s' := by
  cases hmoved with
  | still hquiet => exact h.quiet hquiet
  | arrived p hout hquiet =>
    have hclear : Traced cfg { s with controller := { s.controller with
        outgoingCmdPacket := none } } := { h with out := nofun }
    have hknown := (h.out p hout).mono (List.subset_append_left s.history [.received p.rank p])
    exact (hclear.note (.received p.rank p) ⟨rfl, hknown⟩).quiet hquiet

theorem not_ofTransaction_data (h : p.busPacketType = .data) : ¬p.OfTransaction :=
  fun hp => hp.2.2 h

theorem Traced.movedData (h : Traced cfg s) (hmoved : MovedData s s') : Traced cfg s' := by
  cases hmoved with
  | still hquiet => exact h.quiet hquiet
  | arrived p hdata hquiet =>
    have hdone : Traced cfg (s.note (.writeDataDone p.physicalAddress p.callback)) :=
      h.note _ trivial
    refine (hdone.note (.received p.rank p) ⟨rfl, fun hp => ?_⟩).quiet hquiet
    exact absurd hp (not_ofTransaction_data (h.data p hdata))

theorem Traced.checked (h : Traced cfg s) (hchecked : Checked cfg s s') : Traced cfg s' := by
  cases hchecked with
  | still hquiet => exact h.quiet hquiet
  | due _ hquiet =>
    refine Traced.quiet (Traced.note ?_ (.needRefresh s.controller.refreshRank) trivial) hquiet
    exact { h with built := ⟨h.built.queues, h.built.rows, h.built.placed⟩ }

/-- What `pop` finds was in a queue, if it is a command of a transaction. -/
theorem CommandQueue.Pops.of_queue {bankStates : List (List BankState)} {cq cq' : CommandQueue}
    (h : cq.Pops cfg bankStates (some p) cq') (hp : p.OfTransaction) : ∃ ref, p ∈ cq.cell ref := by
  cases h with
  | refresh => exact absurd rfl hp.2.1
  | precharge => exact absurd rfl hp.1
  | queued ref i _ hget => exact ⟨ref, List.mem_of_getElem? hget⟩

/-- `pop` adds no packet to a queue. -/
theorem CommandQueue.Pops.cell_subset {bankStates : List (List BankState)}
    {cq cq' : CommandQueue} {found : Option BusPacket} (h : cq.Pops cfg bankStates found cq')
    (ref : ℕ) : cq'.cell ref ⊆ cq.cell ref := by
  cases h with
  | nothing hsame =>
    rw [cell_congr hsame.cells]
    exact List.Subset.refl _
  | refresh _ _ _ hsame =>
    rw [cell_congr hsame.cells]
    exact List.Subset.refl _
  | precharge _ _ _ _ hsame =>
    rw [cell_congr hsame.cells]
    exact List.Subset.refl _
  | queued ref' i p _ _ htakes hsame =>
    rw [cell_congr hsame.cells]
    intro q hq
    rcases mem_cell_setCell hq with ⟨rfl, hmem⟩ | hmem
    · exact htakes.subset hmem
    · exact hmem

theorem Traced.issued (h : Traced cfg s) (hissued : Issued cfg s s') : Traced cfg s' := by
  cases hissued with
  | still hquiet => exact h.quiet hquiet
  | issued p cq hpops _ hhistory hqueue hout hwrite hdata =>
    have hknown : Known s.history p := by
      intro hp
      obtain ⟨ref, href⟩ := hpops.of_queue hp
      exact h.queued ref p href
    have hsub : s.history ⊆ s.history ++ [.issued p] := List.subset_append_left _ _
    refine ⟨?_, ?_, ?_, ?_, ?_, ?_⟩
    · rw [hqueue]
      exact h.built.pops hpops
    · rw [hhistory]
      intro e he
      rcases List.mem_append.mp he with he | he
      · exact (h.history e he).mono hsub
      · cases List.mem_singleton.mp he
        exact hknown.mono hsub
    · rw [hqueue, hhistory]
      intro ref q hq
      obtain ⟨t, ht⟩ := h.queued ref q (hpops.cell_subset ref hq)
      exact ⟨t, ht.mono hsub⟩
    · rw [hout, hhistory]
      intro q hq
      cases hq
      exact hknown.mono hsub
    · intro q hq
      rcases hwrite q hq with hq | hq
      · exact h.write q hq
      · exact hq
    · rw [hdata]
      exact h.data

theorem mem_cell_enqueue {cq cq' : CommandQueue} (h : cq.enqueue cfg p = .ok cq') {ref : ℕ}
    {q : BusPacket} (hq : q ∈ cq'.cell ref) : q ∈ cq.cell ref ∨ q = p := by
  obtain ⟨ref', -, -, rfl⟩ := CommandQueue.enqueue_eq_ok h
  rcases CommandQueue.mem_cell_setCell hq with ⟨rfl, hq⟩ | hq
  · rcases List.mem_append.mp hq with hq | hq
    · exact .inl hq
    · exact .inr (List.mem_singleton.mp hq)
  · exact .inl hq

theorem Traced.scheduled (h : Traced cfg s) (hscheduled : Scheduled cfg s s') : Traced cfg s' := by
  cases hscheduled with
  | still hquiet => exact h.quiet hquiet
  | @scheduled t place type cq₁ cq₂ hplace htype act command hact hcommand hfirst hsecond hquiet =>
    refine Traced.quiet ?_ hquiet
    have hsub : s.history ⊆ s.history ++ [.scheduled t act command] :=
      List.subset_append_left _ _
    have hmem : Happening.scheduled t act command ∈ s.history ++ [.scheduled t act command] :=
      List.mem_append_right _ List.mem_cons_self
    refine ⟨?_, fun e he => ?_, fun ref q hq => ?_, fun q hq => (h.out q hq).mono hsub, h.write,
      h.data⟩
    · have hbuilt := h.built.step (e := .enqueue act) hfirst
      exact hbuilt.step (e := .enqueue command) hsecond
    · rcases List.mem_append.mp he with he | he
      · exact (h.history e he).mono hsub
      · cases List.mem_singleton.mp he
        rw [hact, hcommand]
        exact ⟨place, hplace, ⟨rfl, rfl⟩, ⟨rfl, rfl⟩⟩
    · rcases mem_cell_enqueue hsecond hq with hq | rfl
      · rcases mem_cell_enqueue hfirst hq with hq | rfl
        · obtain ⟨t', ht'⟩ := h.queued ref q hq
          exact ⟨t', ht'.mono hsub⟩
        · exact ⟨t, q, command, hmem, .inl rfl⟩
      · exact ⟨t, act, q, hmem, .inr rfl⟩

theorem Traced.returned (h : Traced cfg s) (hreturned : Returned s s') : Traced cfg s' := by
  cases hreturned with
  | still hquiet => exact h.quiet hquiet
  | returned t hquiet => exact (h.note (.returnReadData t) trivial).quiet hquiet

theorem traced_init (cfg : DRAMConfig) : Traced cfg (MemorySystem.init cfg) := by
  refine ⟨CommandQueue.built_init cfg, fun e he => absurd he List.not_mem_nil, fun ref p hp => ?_,
    nofun, fun p hp => absurd hp List.not_mem_nil, nofun⟩
  have hcell : (MemorySystem.init cfg).controller.commandQueue.cell ref = [] :=
    CommandQueue.cell_init cfg ref
  rw [hcell] at hp
  cases hp

/-- Every command can be traced to its transaction, after every run. -/
theorem traced_run {events : List MemoryEvent}
    (h : exec (MemorySystem.step cfg) (MemorySystem.init cfg) events = .ok s) : Traced cfg s := by
  refine exec_invariant (I := Traced cfg) (fun s e s' hs hstep => ?_) (traced_init cfg) h
  exact step_rule (fun _ _ => Traced.quiet) (fun _ _ => Traced.moved) (fun _ _ => Traced.movedData)
    (fun _ _ => Traced.checked) (fun _ _ => Traced.issued) (fun _ _ => Traced.scheduled)
    (fun _ _ => Traced.returned) (fun _ h => ⟨⟨h.built.queues, h.built.rows, h.built.placed⟩,
      h.history, h.queued, h.out, h.write, h.data⟩) hs hstep

/-! ### The right ranks -/

/-- A traced packet of a transaction whose address belongs to rank 0 goes to the right rank. -/
theorem Traced.goesTo (h : Traced cfg s)
    (hzero : ∀ t act command, .scheduled t act command ∈ s.history →
      ∃ place, addressMapping cfg t.address = .ok place ∧ place.rank = 0)
    (hmade : Made s.history t p) :
    ∃ place, addressMapping cfg t.address = .ok place ∧ GoesTo place p := by
  obtain ⟨act, command, hmem, hp⟩ := hmade
  obtain ⟨place, hplace, hact, hcommand⟩ := h.history _ hmem
  obtain ⟨place', hplace', hrank⟩ := hzero t act command hmem
  cases hplace.symm.trans hplace'
  refine ⟨place, hplace, ?_⟩
  rcases hp with rfl | rfl
  · exact ⟨hact.1.trans hrank.symm, hact.2⟩
  · exact ⟨hcommand.1.trans hrank.symm, hcommand.2⟩

theorem Traced.routed (h : Traced cfg s)
    (hzero : ∀ t act command, .scheduled t act command ∈ s.history →
      ∃ place, addressMapping cfg t.address = .ok place ∧ place.rank = 0) : Routed cfg s := by
  refine ⟨fun e he => ?_, fun ref p hp => ?_⟩
  · have htraces := h.history e he
    cases e with
    | scheduled t act command =>
      obtain ⟨place, hplace, hact⟩ := h.goesTo hzero ⟨act, command, he, .inl rfl⟩
      obtain ⟨place', hplace', hcommand⟩ := h.goesTo hzero ⟨act, command, he, .inr rfl⟩
      cases hplace.symm.trans hplace'
      exact ⟨place, hplace, hact, hcommand⟩
    | issued p =>
      intro hp
      obtain ⟨t, hmade⟩ := htraces hp
      obtain ⟨place, hplace, hgoes⟩ := h.goesTo hzero hmade
      exact ⟨t, place, hmade, hplace, hgoes⟩
    | received rank p =>
      intro hp
      obtain ⟨hrank, hknown⟩ := htraces
      obtain ⟨t, hmade⟩ := hknown hp
      obtain ⟨place, hplace, hgoes⟩ := h.goesTo hzero hmade
      exact ⟨t, place, hmade, hplace, hgoes, hrank.trans hgoes.1⟩
    | _ => exact trivial
  · obtain ⟨t, hmade⟩ := h.queued ref p hp
    obtain ⟨place, hplace, hgoes⟩ := h.goesTo hzero hmade
    refine ⟨t, place, hmade, hplace, ?_⟩
    rw [← hgoes.1, ← hgoes.2]
    exact h.built.placed ref p hp

/-- **Routing**: the commands of all transactions go to the rank and the bank of their address exactly
if all addresses of scheduled transactions belong to rank 0. -/
theorem routes_iff (cfg : DRAMConfig) (events : List MemoryEvent) :
    Routes cfg events ↔ RankZero cfg events := by
  constructor
  · intro h s hs t act command hmem
    obtain ⟨place, hplace, hact, -⟩ := (h s hs).history _ hmem
    obtain ⟨place', hplace', hzero, -⟩ := (traced_run hs).history _ hmem
    exact ⟨place, hplace, hact.1.symm.trans hzero.1⟩
  · intro h s hs
    exact (traced_run hs).routed (h s hs)

/-- Two ranks of one bank, the rank in the lowest bit of an address. -/
def twoRanks : DRAMConfig where
  numRanks := 2
  numRanksLog := 1
  numBanks := 1
  addressMappingScheme := .scheme2
  transQueueDepth := 8
  cmdQueueDepth := 8
  refreshPeriod := 8
  tCK := 1
  tCMD := 1
  tRFC := 2

/-- The commands of a read of address 1 are made for rank 0. -/
theorem not_routes_second_rank :
    ¬Routes twoRanks
      [.addTransaction { transactionType := .dataRead, address := 1 }, .update] := by
  intro h
  let t : Transaction := { transactionType := .dataRead, address := 1 }
  let act := BusPacket.new .activate 1 0 0 1 0 0 none
  let command := BusPacket.new .readP 1 0 0 1 0 0 none
  have hrun : ((exec (MemorySystem.step twoRanks) (MemorySystem.init twoRanks)
      [.addTransaction t, .update]).toOption.any fun s =>
        decide (.scheduled t act command ∈ s.history)) = true := by
    decide +kernel
  cases hexec : exec (MemorySystem.step twoRanks) (MemorySystem.init twoRanks)
      [.addTransaction t, .update] with
  | error e =>
    rw [hexec] at hrun
    cases hrun
  | ok s =>
    rw [hexec] at hrun
    obtain ⟨place, hplace, hact, -⟩ := (h s hexec).history _ (of_decide_eq_true hrun)
    -- the address belongs to rank 1
    have hrank : addressMapping twoRanks 1 = .ok { rank := 1 } := by decide
    cases hrank.symm.trans hplace
    cases hact.1

end PIMSim.DDR
