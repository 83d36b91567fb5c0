import PIMSim.DDR.Pairing
import PIMSim.DDR.Routing
import PIMSim.Library.Queues

/-!
# Commands of one transaction stay together

A transaction enters a queue as an activate with a column access behind it. Commands leave from
anywhere in a queue, one at a time or two that are neighbours; still no activate loses the column
access behind it, and no column access is lost or issued twice.

## Main definitions

* `Coupled history queue`: every activate of a queue is followed by the column access of its
  transaction
* `CommandPairing cfg s`: the pairing of commands in a state

## Main results

* `Coupled.takes`: what leaves a queue keeps the pairs of the others
* `commands_paired`: the pairing after every run
-/

namespace PIMSim.DDR

open CSharp Transition

/-- A read or a write, with or without automatic precharge. -/
def BusPacketType.isColumn : BusPacketType → Bool
  | .read | .readP | .write | .writeP => true
  | .activate | .precharge | .refresh | .data => false

/-- The activate and the column access a transaction is broken up into. -/
def Pieces (cfg : DRAMConfig) (t : Transaction) (act command : BusPacket) : Prop :=
  ∃ place type, addressMapping cfg t.address = .ok place ∧ t.getBusPacketType cfg = .ok type ∧
    act = BusPacket.new .activate t.address place.column place.row place.rank place.bank 0 none ∧
    command = BusPacket.new type t.address place.column place.row place.rank place.bank t.data
      t.callback

/-- Every activate of the queue is followed by the column access of its transaction. -/
def Coupled (history : List Happening) (queue : List BusPacket) : Prop :=
  ∀ i act, queue[i]? = some act → act.busPacketType = .activate →
    ∃ t command, queue[i + 1]? = some command ∧ .scheduled t act command ∈ history

/-- How a popped command leaves the queues: it was in none, or it leaves one alone, or together with
the activate of its transaction. -/
inductive Leaves (history : List Happening) (cells : List (List BusPacket)) (p : BusPacket) :
    List (List BusPacket) → Prop
  | own (htype : p.busPacketType = .refresh ∨ p.busPacketType = .precharge) :
      Leaves history cells p cells
  | alone (ref i : ℕ) (hget : (cells.getD ref [])[i]? = some p) :
      Leaves history cells p (cells.set ref ((cells.getD ref []).eraseIdx i))
  | skipping (ref i : ℕ) (act : BusPacket) (t : Transaction)
      (hget : (cells.getD ref [])[i + 1]? = some p) (hact : (cells.getD ref [])[i]? = some act)
      (hpair : .scheduled t act p ∈ history) :
      Leaves history cells p
        (cells.set ref (((cells.getD ref []).eraseIdx (i + 1)).eraseIdx i))

/-- The column access of a transaction that was scheduled. -/
def Happening.command? : Happening → Option BusPacket
  | .scheduled _ _ command => some command
  | _ => none

/-- A column access that was issued. -/
def Happening.column? : Happening → Option BusPacket
  | .issued p => if p.busPacketType.isColumn then some p else none
  | _ => none

def scheduledCommands (history : List Happening) : List BusPacket :=
  history.filterMap Happening.command?

def issuedColumns (history : List Happening) : List BusPacket :=
  history.filterMap Happening.column?

/-- The column accesses that wait in the queues. -/
def CommandQueue.columns (cq : CommandQueue) : List BusPacket :=
  cq.cells.flatten.filter fun p => p.busPacketType.isColumn

/-- **The pairing of commands**: every activate in a queue is followed by the column access of its
transaction; when `pop` skips an activate, it is the one of the transaction whose column access it
issues; and the column accesses of the scheduled transactions are those issued and those queued. -/
structure CommandPairing (cfg : DRAMConfig) (s : MemorySystem) : Prop where
  followed : ∀ ref, Coupled s.history (s.controller.commandQueue.cell ref)
  leaves : ∀ (cq : CommandQueue) bankStates p cq', cq.cells = s.controller.commandQueue.cells →
    cq.pop cfg bankStates = .ok (some p, cq') → Leaves s.history cq.cells p cq'.cells
  accounted : (scheduledCommands s.history).Perm
    (issuedColumns s.history ++ s.controller.commandQueue.columns)

/-! ### Pairs in a queue -/

variable {cfg : DRAMConfig} {history history' : List Happening} {queue queue' : List BusPacket}
  {p : BusPacket} {i : ℕ}

/-- The transactions of a history were broken up as `update` does. -/
def Broken (cfg : DRAMConfig) (history : List Happening) : Prop :=
  ∀ t act command, .scheduled t act command ∈ history → Pieces cfg t act command

theorem isColumn_of_getBusPacketType {t : Transaction} {type : BusPacketType}
    (h : t.getBusPacketType cfg = .ok type) : type.isColumn = true := by
  unfold Transaction.getBusPacketType at h
  cases htype : t.transactionType <;> cases hpolicy : cfg.rowBufferPolicy <;>
    rw [htype, hpolicy] at h <;> cases h <;> rfl

theorem Pieces.isColumn {t : Transaction} {act command : BusPacket}
    (h : Pieces cfg t act command) : command.busPacketType.isColumn = true := by
  obtain ⟨place, type, -, htype, -, rfl⟩ := h
  exact isColumn_of_getBusPacketType htype

theorem Pieces.activate {t : Transaction} {act command : BusPacket}
    (h : Pieces cfg t act command) : act.busPacketType = .activate := by
  obtain ⟨place, type, -, -, rfl, -⟩ := h
  rfl

/-- The two commands of a transaction name one place. -/
theorem Pieces.same {t : Transaction} {act command : BusPacket} (h : Pieces cfg t act command) :
    act.physicalAddress = command.physicalAddress ∧ act.row = command.row ∧
      act.bank = command.bank := by
  obtain ⟨place, type, -, -, rfl, rfl⟩ := h
  exact ⟨rfl, rfl, rfl⟩

theorem Coupled.mono (hsub : history ⊆ history') (h : Coupled history queue) :
    Coupled history' queue := by
  intro i act hact htype
  obtain ⟨t, command, hnext, hmem⟩ := h i act hact htype
  exact ⟨t, command, hnext, hsub hmem⟩

/-- A command leaves that is not behind its own activate. -/
theorem Coupled.eraseIdx (h : Coupled history queue) (hget : queue[i]? = some p)
    (hfree : ∀ act t, 0 < i → queue[i - 1]? = some act → .scheduled t act p ∉ history) :
    Coupled history (queue.eraseIdx i) := by
  intro j act hact htype
  rw [List.getElem?_eraseIdx] at hact
  split_ifs at hact with hj
  · obtain ⟨t, command, hnext, hmem⟩ := h j act hact htype
    -- The command that has left is not the one behind this activate.
    have hne : j + 1 ≠ i := by
      rintro rfl
      cases hget.symm.trans hnext
      exact hfree act t (Nat.succ_pos j) hact hmem
    refine ⟨t, command, ?_, hmem⟩
    rw [List.getElem?_eraseIdx, if_pos (by omega)]
    exact hnext
  · obtain ⟨t, command, hnext, hmem⟩ := h (j + 1) act hact htype
    refine ⟨t, command, ?_, hmem⟩
    rw [List.getElem?_eraseIdx, if_neg (by omega)]
    exact hnext

/-- A column access leaves with the activate before it. -/
theorem Coupled.eraseBoth (h : Coupled history queue) (hbroken : Broken cfg history)
    {act : BusPacket} (hget : queue[i]? = some act) (hact : act.busPacketType = .activate) :
    Coupled history ((queue.eraseIdx (i + 1)).eraseIdx i) := by
  have hshift : ∀ j, ((queue.eraseIdx (i + 1)).eraseIdx i)[j]? =
      if j < i then queue[j]? else queue[j + 2]? := by
    intro j
    rw [List.getElem?_eraseIdx, List.getElem?_eraseIdx, List.getElem?_eraseIdx]
    split_ifs <;> first | rfl | omega
  intro j act' hact' htype
  rw [hshift] at hact'
  split_ifs at hact' with hj
  · obtain ⟨t, command, hnext, hmem⟩ := h j act' hact' htype
    have hne : j + 1 ≠ i := by
      rintro rfl
      cases hget.symm.trans hnext
      have hcolumn := (hbroken t act' act hmem).isColumn
      rw [hact] at hcolumn
      cases hcolumn
    refine ⟨t, command, ?_, hmem⟩
    rw [hshift, if_pos (by omega)]
    exact hnext
  · obtain ⟨t, command, hnext, hmem⟩ := h (j + 2) act' hact' htype
    refine ⟨t, command, ?_, hmem⟩
    rw [hshift, if_neg (by omega)]
    exact hnext

/-- A pair enters. -/
theorem Coupled.append {t : Transaction} {act command : BusPacket} (h : Coupled history queue)
    (hmem : .scheduled t act command ∈ history) (hcommand : command.busPacketType ≠ .activate) :
    Coupled history (queue ++ [act, command]) := by
  intro j act' hact' htype
  rcases Nat.lt_trichotomy j queue.length with hlt | rfl | hgt
  · rw [List.getElem?_append_left hlt] at hact'
    obtain ⟨t', command', hnext, hmem'⟩ := h j act' hact' htype
    have hlt' := (List.getElem?_eq_some_iff.mp hnext).1
    refine ⟨t', command', ?_, hmem'⟩
    rw [List.getElem?_append_left hlt']
    exact hnext
  · rw [List.getElem?_append_right (Nat.le_refl _), Nat.sub_self] at hact'
    cases hact'
    refine ⟨t, command, ?_, hmem⟩
    rw [List.getElem?_append_right (Nat.le_succ _), Nat.succ_sub (Nat.le_refl _), Nat.sub_self]
    rfl
  · rw [List.getElem?_append_right hgt.le] at hact'
    match hk : j - queue.length, hact' with
    | 0, _ => omega
    | 1, hact' =>
      cases hact'
      exact absurd htype hcommand

/-- **What leaves a queue** leaves its other pairs together. -/
theorem Coupled.takes (h : Coupled history queue) (hbroken : Broken cfg history)
    (hget : queue[i]? = some p) (htakes : Takes cfg queue i p queue') :
    Coupled history queue' ∧ (queue' = queue.eraseIdx i ∨ ∃ k act t, i = k + 1 ∧
      queue[k]? = some act ∧ act.busPacketType = .activate ∧ .scheduled t act p ∈ history ∧
        queue' = (queue.eraseIdx (k + 1)).eraseIdx k) := by
  cases htakes with
  | head _ hi => exact ⟨h.eraseIdx hget fun _ _ hpos => absurd hi hpos.ne', .inl rfl⟩
  | unpaired _ hprev =>
    refine ⟨h.eraseIdx hget fun act t hi hact hmem => ?_, .inl rfl⟩
    have hpieces := hbroken t act p hmem
    exact hprev ⟨act, hi, hact, hpieces.activate, hpieces.same.1⟩
  | first _ hfirst =>
    refine ⟨h.eraseIdx hget fun act t hi hact hmem => ?_, .inl rfl⟩
    have hpieces := hbroken t act p hmem
    exact hfirst (i - 1) act (by omega) hact hpieces.same.2
  | single _ hprev =>
    refine ⟨h.eraseIdx hget fun act t hi hact hmem => ?_, .inl rfl⟩
    exact hprev act hi hact (hbroken t act p hmem).activate
  | both _ hi hact =>
    obtain ⟨act, hprev, hact⟩ := hact
    obtain ⟨k, rfl⟩ := Nat.exists_eq_succ_of_ne_zero hi.ne'
    rw [Nat.succ_sub_one] at hprev ⊢
    obtain ⟨t, command, hnext, hmem⟩ := h k act hprev hact
    cases hget.symm.trans hnext
    exact ⟨h.eraseBoth hbroken hprev hact, .inr ⟨k, act, t, rfl, hprev, hact, hmem, rfl⟩⟩

/-! ### The queues -/

namespace CommandQueue

variable {cq cq' : CommandQueue} {bankStates : List (List BankState)}

theorem getElem?_of_mem_cell {ref : ℕ} {q : BusPacket} (h : q ∈ cq.cell ref) :
    cq.cells[ref]? = some (cq.cell ref) := by
  have hlt := lt_of_mem_cell h
  unfold cell
  rw [List.getD_eq_getElem?_getD, List.getElem?_eq_getElem hlt]
  rfl

/-- The column accesses that wait, when one queue changes. -/
theorem columns_setCell {ref : ℕ} {queue : List BusPacket} (h : cq.cells[ref]? = some queue)
    (queue' : List BusPacket) :
    (queue.filter (fun p => p.busPacketType.isColumn) ++ (cq.setCell ref queue').columns).Perm
      (queue'.filter (fun p => p.busPacketType.isColumn) ++ cq.columns) := by
  have hperm := (Queues.flatten_set_perm h queue').filter fun p => p.busPacketType.isColumn
  rw [List.filter_append, List.filter_append] at hperm
  exact hperm

/-- A packet that is no column access leaves, or one that is. -/
theorem columns_eraseIdx {ref : ℕ} (hget : (cq.cell ref)[i]? = some p) :
    cq.columns.Perm ((if p.busPacketType.isColumn then [p] else []) ++
      (cq.setCell ref ((cq.cell ref).eraseIdx i)).columns) := by
  have hcells := getElem?_of_mem_cell (List.mem_of_getElem? hget)
  obtain ⟨hlt, rfl⟩ := List.getElem?_eq_some_iff.mp hget
  have hperm := columns_setCell hcells ((cq.cell ref).eraseIdx i)
  have hqueue := (List.getElem_cons_eraseIdx_perm hlt).filter fun p => p.busPacketType.isColumn
  rw [List.filter_cons] at hqueue
  refine (List.perm_append_left_iff
    (((cq.cell ref).eraseIdx i).filter fun p => p.busPacketType.isColumn)).mp ?_
  refine hperm.symm.trans ?_
  rw [← List.append_assoc]
  refine List.Perm.append_right _ (hqueue.symm.trans ?_)
  split_ifs
  · exact (List.perm_append_singleton _ _).symm
  · rw [List.append_nil]

/-- A packet leaves with an activate that is right before it. -/
theorem columns_eraseBoth {ref : ℕ} {act : BusPacket} (hget : (cq.cell ref)[i + 1]? = some p)
    (hprev : (cq.cell ref)[i]? = some act) (hact : act.busPacketType = .activate) :
    cq.columns.Perm ((if p.busPacketType.isColumn then [p] else []) ++
      (cq.setCell ref (((cq.cell ref).eraseIdx (i + 1)).eraseIdx i)).columns) := by
  have hlt := lt_of_mem_cell (List.mem_of_getElem? hget)
  have hfirst := columns_eraseIdx hget
  have hcell : (cq.setCell ref ((cq.cell ref).eraseIdx (i + 1))).cell ref =
      (cq.cell ref).eraseIdx (i + 1) := cell_setCell_self hlt
  have hprev' : ((cq.setCell ref ((cq.cell ref).eraseIdx (i + 1))).cell ref)[i]? = some act := by
    rw [hcell, List.getElem?_eraseIdx, if_pos (Nat.lt_succ_self i)]
    exact hprev
  have hsecond := columns_eraseIdx hprev'
  have hset : (cq.setCell ref ((cq.cell ref).eraseIdx (i + 1))).setCell ref
      (((cq.cell ref).eraseIdx (i + 1)).eraseIdx i) =
        cq.setCell ref (((cq.cell ref).eraseIdx (i + 1)).eraseIdx i) := by
    unfold setCell
    rw [List.set_set]
  rw [hcell, hact, hset] at hsecond
  exact hfirst.trans (hsecond.append_left _)

/-- What leaves a queue: a packet, and maybe the activate right before it. -/
theorem erases_of_takes {queue queue' : List BusPacket} (h : Takes cfg queue i p queue') :
    queue' = queue.eraseIdx i ∨ ∃ k act, i = k + 1 ∧ queue[k]? = some act ∧
      act.busPacketType = .activate ∧ queue' = (queue.eraseIdx (k + 1)).eraseIdx k := by
  cases h with
  | head => exact .inl rfl
  | unpaired => exact .inl rfl
  | first => exact .inl rfl
  | single => exact .inl rfl
  | both _ hi hact =>
    obtain ⟨act, hprev, hact⟩ := hact
    obtain ⟨k, rfl⟩ := Nat.exists_eq_succ_of_ne_zero hi.ne'
    exact .inr ⟨k, act, rfl, hprev, hact, rfl⟩

/-- The column accesses that wait, when a command is popped. -/
theorem columns_pops (h : cq.Pops cfg bankStates (some p) cq') :
    cq.columns.Perm ((if p.busPacketType.isColumn then [p] else []) ++ cq'.columns) := by
  have hown : p.busPacketType.isColumn = false → cq'.cells = cq.cells →
      cq.columns.Perm ((if p.busPacketType.isColumn then [p] else []) ++ cq'.columns) := by
    intro hcolumn hcells
    unfold columns
    rw [hcells, hcolumn]
    exact List.Perm.refl _
  cases h with
  | refresh _ _ _ hsame => exact hown rfl hsame.cells
  | precharge _ _ _ _ hsame => exact hown rfl hsame.cells
  | @queued _ queue' ref i _ hget _ htakes hsame =>
    have hcolumns : cq'.columns = (cq.setCell ref queue').columns := by
      unfold columns
      rw [hsame.cells]
    rw [hcolumns]
    rcases erases_of_takes htakes with rfl | ⟨k, act, rfl, hprev, hact, rfl⟩
    · exact columns_eraseIdx hget
    · exact columns_eraseBoth hget hprev hact

/-- A pair of commands enters. -/
theorem columns_enqueue {ref : ℕ} {act command : BusPacket} (hlt : ref < cq.cells.length)
    (hact : act.busPacketType = .activate) (hcolumn : command.busPacketType.isColumn = true) :
    (cq.setCell ref (cq.cell ref ++ [act, command])).columns.Perm ([command] ++ cq.columns) := by
  have hcells : cq.cells[ref]? = some (cq.cell ref) := by
    unfold cell
    rw [List.getD_eq_getElem?_getD, List.getElem?_eq_getElem hlt]
    rfl
  have hperm := columns_setCell hcells (cq.cell ref ++ [act, command])
  have hpair : [act, command].filter (fun p => p.busPacketType.isColumn) = [command] := by
    have hother : act.busPacketType.isColumn = false := by
      rw [hact]
      rfl
    simp only [List.filter_cons, hother, hcolumn, List.filter_nil, Bool.false_eq_true, if_false,
      if_true]
  rw [List.filter_append, hpair, List.append_assoc] at hperm
  exact (List.perm_append_left_iff _).mp hperm

/-- A pair of commands enters one queue. -/
theorem enqueue_pair {act command : BusPacket} {cq₁ cq₂ : CommandQueue} (hbuilt : Built cfg cq)
    (hwide : cq.cells.length = cfg.numRanks * cfg.numBankQueues) (hrank : act.rank = command.rank)
    (hbank : act.bank = command.bank) (hfirst : cq.enqueue cfg act = .ok cq₁)
    (hsecond : cq₁.enqueue cfg command = .ok cq₂) :
    ∃ ref, cq.getCommandQueue cfg act.rank act.bank = .ok ref ∧ ref < cq.cells.length ∧
      cq₂ = cq.setCell ref (cq.cell ref ++ [act, command]) := by
  obtain ⟨ref, href, -, rfl⟩ := enqueue_eq_ok hfirst
  have hlt : ref < cq.cells.length := by
    obtain ⟨-, -, hqueue⟩ := hbuilt.getCommandQueue.mp href
    rw [hwide]
    cases hstructure : cfg.queuingStructure <;> rw [hstructure] at hqueue
    · rw [hqueue.2]
      exact hqueue.1
    · have := hqueue.2
      omega
  refine ⟨ref, href, hlt, ?_⟩
  rw [enqueue_setCell hsecond (by rw [← hrank, ← hbank]; exact href) hlt, List.append_assoc]
  rfl

end CommandQueue

/-! ### Runs -/

open CommandQueue

/-- The commands of every transaction are together, waiting, or issued. -/
structure Threaded (cfg : DRAMConfig) (s : MemorySystem) : Prop where
  built : s.controller.commandQueue.Built cfg
  wide : s.controller.commandQueue.cells.length = cfg.numRanks * cfg.numBankQueues
  broken : Broken cfg s.history
  followed : ∀ ref, Coupled s.history (s.controller.commandQueue.cell ref)
  accounted : (scheduledCommands s.history).Perm
    (issuedColumns s.history ++ s.controller.commandQueue.columns)

namespace Threaded

variable {s s' : MemorySystem}

/-- What happens is no command of a transaction. -/
def Idle (e : Happening) : Prop := e.command? = none ∧ e.column? = none

theorem not_scheduled {e : Happening} (h : e.command? = none) {t : Transaction}
    {act command : BusPacket} : e ≠ .scheduled t act command := by
  rintro rfl
  cases h

theorem note (h : Threaded cfg s) (e : Happening) (he : Idle e) : Threaded cfg (s.note e) := by
  refine ⟨h.built, h.wide, fun t act command hmem => ?_, fun ref => ?_, ?_⟩
  · rcases List.mem_append.mp hmem with hmem | hmem
    · exact h.broken t act command hmem
    · exact absurd (List.mem_singleton.mp hmem).symm (not_scheduled he.1)
  · exact (h.followed ref).mono (List.subset_append_left _ _)
  · show (scheduledCommands (s.history ++ [e])).Perm (issuedColumns (s.history ++ [e]) ++ _)
    simp only [scheduledCommands, issuedColumns, List.filterMap_append, List.filterMap_cons, he.1,
      he.2, List.filterMap_nil, List.append_nil]
    exact h.accounted

theorem quiet (h : Threaded cfg s) (hquiet : Quiet s s') : Threaded cfg s' := by
  have hcell := cell_congr hquiet.cells
  refine ⟨?_, ?_, ?_, fun ref => ?_, ?_⟩
  · refine h.built.of_subset hquiet.queues hquiet.rows fun ref p hp => .inl ?_
    rwa [hcell] at hp
  · rw [hquiet.cells]
    exact h.wide
  · rw [hquiet.history]
    exact h.broken
  · rw [hquiet.history, hcell]
    exact h.followed ref
  · rw [hquiet.history]
    unfold CommandQueue.columns
    rw [hquiet.cells]
    exact h.accounted

theorem moved (h : Threaded cfg s) (hmoved : Moved s s') : Threaded cfg s' := by
  cases hmoved with
  | still hquiet => exact h.quiet hquiet
  | arrived p _ hquiet =>
    have hclear : Threaded cfg { s with controller := { s.controller with
        outgoingCmdPacket := none } } := { h with }
    exact (hclear.note (.received p.rank p) ⟨rfl, rfl⟩).quiet hquiet

theorem movedData (h : Threaded cfg s) (hmoved : MovedData s s') : Threaded cfg s' := by
  cases hmoved with
  | still hquiet => exact h.quiet hquiet
  | arrived p _ hquiet =>
    have hdone := h.note (.writeDataDone p.physicalAddress p.callback) ⟨rfl, rfl⟩
    exact (hdone.note (.received p.rank p) ⟨rfl, rfl⟩).quiet hquiet

theorem checked (h : Threaded cfg s) (hchecked : Checked cfg s s') : Threaded cfg s' := by
  cases hchecked with
  | still hquiet => exact h.quiet hquiet
  | due _ hquiet =>
    refine quiet (note ?_ (.needRefresh s.controller.refreshRank) ⟨rfl, rfl⟩) hquiet
    exact { h with built := ⟨h.built.queues, h.built.rows, h.built.placed⟩ }

/-- The column access that is issued, if it is one. -/
theorem issuedColumns_append (history : List Happening) (p : BusPacket) :
    issuedColumns (history ++ [.issued p]) =
      issuedColumns history ++ if p.busPacketType.isColumn then [p] else [] := by
  unfold issuedColumns
  rw [List.filterMap_append]
  congr 1
  simp only [List.filterMap_cons, List.filterMap_nil, Happening.column?]
  split_ifs <;> rfl

theorem issued (h : Threaded cfg s) (hissued : Issued cfg s s') : Threaded cfg s' := by
  cases hissued with
  | still hquiet => exact h.quiet hquiet
  | issued p cq hpops _ hhistory hqueue =>
    have hsub : s.history ⊆ s.history ++ [.issued p] := List.subset_append_left _ _
    have hbroken : Broken cfg s'.history := by
      intro t act command hmem
      rw [hhistory] at hmem
      rcases List.mem_append.mp hmem with hmem | hmem
      · exact h.broken t act command hmem
      · exact absurd (List.mem_singleton.mp hmem).symm (not_scheduled rfl)
    -- An issued command leaves its queue and joins the issued columns, and nothing is scheduled.
    have hscheduled : scheduledCommands s'.history = scheduledCommands s.history := by
      rw [hhistory]
      simp [scheduledCommands, Happening.command?]
    have haccounted : (scheduledCommands s'.history).Perm
        (issuedColumns s'.history ++ s'.controller.commandQueue.columns) := by
      rw [hscheduled, hhistory, issuedColumns_append, hqueue, List.append_assoc]
      exact h.accounted.trans ((columns_pops hpops).append_left _)
    have hbuilt : cq.Built cfg := h.built.pops hpops
    suffices hkept : cq.cells.length = cfg.numRanks * cfg.numBankQueues ∧
        ∀ ref, Coupled s.history (cq.cell ref) by
      refine ⟨hqueue ▸ hbuilt, hqueue ▸ hkept.1, hbroken, fun ref => ?_, haccounted⟩
      rw [hqueue, hhistory]
      exact (hkept.2 ref).mono hsub
    cases hpops with
    | refresh _ _ _ hsame =>
      refine ⟨hsame.cells ▸ h.wide, fun ref => ?_⟩
      rw [cell_congr hsame.cells]
      exact h.followed ref
    | precharge _ _ _ _ hsame =>
      refine ⟨hsame.cells ▸ h.wide, fun ref => ?_⟩
      rw [cell_congr hsame.cells]
      exact h.followed ref
    -- Only the queue the command is taken from changes.
    | @queued _ queue' ref i _ hget hallowed htakes hsame =>
      have hlt := lt_of_mem_cell (List.mem_of_getElem? hget)
      refine ⟨?_, fun ref' => ?_⟩
      · rw [hsame.cells]
        exact (List.length_set ..).trans h.wide
      · rw [cell_congr hsame.cells]
        by_cases hne : ref' = ref
        · subst hne
          rw [cell_setCell_self hlt]
          exact ((h.followed ref').takes h.broken hget htakes).1
        · rw [cell_setCell_ne hne]
          exact h.followed ref'

theorem scheduled (h : Threaded cfg s) (hscheduled : Scheduled cfg s s') : Threaded cfg s' := by
  cases hscheduled with
  | still hquiet => exact h.quiet hquiet
  | @scheduled t place type cq₁ cq₂ hplace htype act command hact hcommand hfirst hsecond hquiet =>
    refine quiet ?_ hquiet
    have hsub : s.history ⊆ s.history ++ [.scheduled t act command] :=
      List.subset_append_left _ _
    have hmem : Happening.scheduled t act command ∈ s.history ++ [.scheduled t act command] :=
      List.mem_append_right _ List.mem_cons_self
    have hpieces : Pieces cfg t act command := ⟨place, type, hplace, htype, hact, hcommand⟩
    have hcolumn := hpieces.isColumn
    -- Both pieces of a transaction are put at the end of one queue, side by side.
    obtain ⟨ref, -, hlt, rfl⟩ := enqueue_pair h.built h.wide (by rw [hact, hcommand]; rfl)
      hpieces.same.2.2 hfirst hsecond
    refine ⟨?_, ?_, fun t' act' command' hmem' => ?_, fun ref' => ?_, ?_⟩
    · have hbuilt := h.built.step (e := .enqueue act) hfirst
      exact hbuilt.step (e := .enqueue command) hsecond
    · exact (List.length_set ..).trans h.wide
    · rcases List.mem_append.mp hmem' with hmem' | hmem'
      · exact h.broken t' act' command' hmem'
      · cases List.mem_singleton.mp hmem'
        exact hpieces
    · by_cases hne : ref' = ref
      · subst hne
        show Coupled _ ((s.controller.commandQueue.setCell ref' _).cell ref')
        rw [cell_setCell_self hlt]
        refine ((h.followed ref').mono hsub).append hmem fun hactivate => ?_
        rw [hactivate] at hcolumn
        cases hcolumn
      · show Coupled _ ((s.controller.commandQueue.setCell ref _).cell ref')
        rw [cell_setCell_ne hne]
        exact (h.followed ref').mono hsub
    · have hcommands : scheduledCommands (s.history ++ [.scheduled t act command]) =
          scheduledCommands s.history ++ [command] := by
        simp [scheduledCommands, Happening.command?]
      have hissued : issuedColumns (s.history ++ [.scheduled t act command]) =
          issuedColumns s.history := by
        simp [issuedColumns, Happening.column?]
      show (scheduledCommands (s.history ++ [.scheduled t act command])).Perm
        (issuedColumns (s.history ++ [.scheduled t act command]) ++ _)
      rw [hcommands, hissued]
      refine (h.accounted.append_right [command]).trans ?_
      rw [List.append_assoc]
      refine List.Perm.append_left _ (List.perm_append_comm.trans ?_)
      exact (columns_enqueue hlt hpieces.activate hcolumn).symm

theorem returned (h : Threaded cfg s) (hreturned : Returned s s') : Threaded cfg s' := by
  cases hreturned with
  | still hquiet => exact h.quiet hquiet
  | returned t hquiet => exact (h.note (.returnReadData t) ⟨rfl, rfl⟩).quiet hquiet

theorem countDown (h : Threaded cfg s) : Threaded cfg s.countDown :=
  { h with built := ⟨h.built.queues, h.built.rows, h.built.placed⟩ }

theorem stepClocks (h : Threaded cfg s) : Threaded cfg s.stepClocks :=
  { h with }

theorem columns_init (cfg : DRAMConfig) :
    (MemorySystem.init cfg).controller.commandQueue.columns = [] := by
  show ((List.replicate (cfg.numRanks * cfg.numBankQueues) []).flatten.filter _) = []
  rw [List.flatten_replicate_nil]
  rfl

theorem init (cfg : DRAMConfig) : Threaded cfg (MemorySystem.init cfg) := by
  refine ⟨built_init cfg, List.length_replicate, fun t act command hmem => ?_, fun ref => ?_, ?_⟩
  · cases hmem
  · have hcell : (MemorySystem.init cfg).controller.commandQueue.cell ref = [] := cell_init cfg ref
    rw [hcell]
    intro i act hact
    cases hact
  · rw [columns_init cfg]
    exact List.Perm.refl _

theorem run {events : List MemoryEvent}
    (h : exec (MemorySystem.step cfg) (MemorySystem.init cfg) events = .ok s) :
    Threaded cfg s := by
  refine exec_invariant (I := Threaded cfg) (fun s e s' hs hstep => ?_) (init cfg) h
  exact step_rule (fun _ _ => quiet) (fun _ _ => moved) (fun _ _ => movedData) (fun _ _ => checked)
    (fun _ _ => issued) (fun _ _ => scheduled) (fun _ _ => returned)
    (fun _ h => h.countDown.stepClocks) hs hstep

end Threaded

/-- **Commands stay paired**: after every run, with any transactions, every activate in a queue is
followed by the column access of its transaction, `pop` skips an activate only together with the
column access of its transaction, and the column accesses of the transactions that were moved out
of the transaction queue are those issued and those that wait, each once. -/
theorem commands_paired {cfg : DRAMConfig} {events : List MemoryEvent} {s : MemorySystem}
    (h : exec (MemorySystem.step cfg) (MemorySystem.init cfg) events = .ok s) :
    CommandPairing cfg s := by
  have hthreaded := Threaded.run h
  refine ⟨hthreaded.followed, fun cq bankStates p cq' hcells hpop => ?_, hthreaded.accounted⟩
  cases pop_spec hpop with
  | refresh _ _ _ hsame => exact hsame.cells ▸ .own (.inl rfl)
  | precharge _ _ _ _ hsame => exact hsame.cells ▸ .own (.inr rfl)
  | @queued _ queue' ref i _ hget _ htakes hsame =>
    have hcoupled := hthreaded.followed ref
    rw [← cell_congr hcells] at hcoupled
    have hcells' : cq'.cells = cq.cells.set ref queue' := hsame.cells
    rw [hcells']
    rcases (hcoupled.takes hthreaded.broken hget htakes).2 with rfl |
      ⟨k, act, t, rfl, hprev, -, hmem, rfl⟩
    · exact .alone ref i hget
    · exact .skipping ref k act t hget hprev hmem

/-- One rank of one bank with open pages, eight columns a row. -/
def openRow : DRAMConfig where
  numRanks := 1
  numBanks := 1
  numColsLog := 3
  rowBufferPolicy := .openPage
  addressMappingScheme := .scheme2
  transQueueDepth := 8
  cmdQueueDepth := 8
  totalRowAccesses := 4
  refreshPeriod := 64
  tCK := 1
  tCMD := 1
  tRFC := 2

/-- Two reads of one row: the activate of the second one is skipped. -/
theorem commands_paired_reads :
    ∃ s, exec (MemorySystem.step openRow) (MemorySystem.init openRow)
        (.addTransaction { transactionType := .dataRead, address := 0 } ::
          .addTransaction { transactionType := .dataRead, address := 1 } ::
            List.replicate 5 .update) = .ok s ∧
      CommandPairing openRow s := by
  have hrun : ((exec (MemorySystem.step openRow) (MemorySystem.init openRow)
      (.addTransaction { transactionType := .dataRead, address := 0 } ::
        .addTransaction { transactionType := .dataRead, address := 1 } ::
          List.replicate 5 .update)).toOption.any fun s =>
            decide ((issuedColumns s.history).length = 2 ∧ s.history.length = 9)) = true := by
    decide +kernel
  cases hexec : exec (MemorySystem.step openRow) (MemorySystem.init openRow)
      (.addTransaction { transactionType := .dataRead, address := 0 } ::
        .addTransaction { transactionType := .dataRead, address := 1 } ::
          List.replicate 5 .update) with
  | error e =>
    rw [hexec] at hrun
    cases hrun
  | ok s => exact ⟨s, rfl, commands_paired hexec⟩

end PIMSim.DDR
