import PIMSim.Gem5.KernelMoves
import PIMSim.Library.History

/-!
# The order of a command's accesses

The record of the kernel's ports shows how far each register of a command is: a register is sent once,
and answered once after it was sent. The registers agree with the record, so a computation finds the
data of its own command.

## Main definitions

* `episode`, `lastStarted`: the record since the last command began, and that command's addresses
* `Lawful`: what may go through the ports after what did
* `Tracks`: the registers agree with the record, which is lawful
* `recordedStatus`: a register's status by the record

## Main results

* `tracks_run`: the registers agree with the record in every run
* `operands_in_order`: the registers of a command go through their statuses in order, and a
  computation starts with the data of all inputs of its command
-/

namespace PIMSim.Gem5

open Cpp Transition History

/-! ### The record -/

namespace Record

/-- The record begins a command. -/
def starts : Record → Bool
  | started _ => true
  | _ => false

/-- The record sends the register. -/
def sends (i : ℕ) : Record → Bool
  | sent pkt => pkt.procid = i
  | _ => false

/-- The record answers the register. -/
def receives (i : ℕ) : Record → Bool
  | received j _ => j = i
  | _ => false

end Record

/-- What went through the ports since the last command began. -/
def episode (h : List Record) : List Record := since Record.starts h

/-- The addresses of the last command that began. -/
def lastStarted (h : List Record) : Option (List UInt64) :=
  h.foldl (fun last r => match r with
    | .started addr => some addr
    | _ => last) none

/-- How often the register was sent for the current command. -/
def sendCount (i : ℕ) (h : List Record) : ℕ := (episode h).countP (Record.sends i)

/-- How often the register was answered for the current command. -/
def receiveCount (i : ℕ) (h : List Record) : ℕ := (episode h).countP (Record.receives i)

section Counts

variable {h : List Record} {r : Record} {i : ℕ}

theorem episode_concat (hr : r.starts = false) : episode (h ++ [r]) = episode h ++ [r] :=
  since_append fun e he => by rw [List.mem_singleton.mp he, hr]

theorem episode_started (addr : List UInt64) : episode (h ++ [.started addr]) = [] :=
  since_concat_opens rfl

theorem sendCount_concat (hr : r.starts = false) :
    sendCount i (h ++ [r]) = sendCount i h + if r.sends i then 1 else 0 := by
  rw [sendCount, sendCount, episode_concat hr, List.countP_append, List.countP_singleton]

theorem receiveCount_concat (hr : r.starts = false) :
    receiveCount i (h ++ [r]) = receiveCount i h + if r.receives i then 1 else 0 := by
  rw [receiveCount, receiveCount, episode_concat hr, List.countP_append, List.countP_singleton]

theorem lastStarted_concat (hr : r.starts = false) : lastStarted (h ++ [r]) = lastStarted h := by
  unfold lastStarted
  rw [List.foldl_append]
  cases r with
  | started addr => cases hr
  | registered addr | sent pkt | received i v | completed addr => rfl

theorem lastStarted_started (addr : List UInt64) :
    lastStarted (h ++ [.started addr]) = some addr := by
  unfold lastStarted
  rw [List.foldl_append]
  rfl

end Counts

/-- What may go through the ports: a register is sent once for a command, at the command's address,
and answered once after that, and a command is reported complete when all its registers were. -/
def Lawful (p : KernelParams) (pre : List Record) : Record → Prop
  | .sent pkt => pkt.procid < p.input + p.output ∧ (pkt.isRead = true ↔ pkt.procid < p.input) ∧
      sendCount pkt.procid pre = 0 ∧
      ∃ addr, lastStarted pre = some addr ∧ addr[pkt.procid]? = some pkt.addr
  | .received i _ => sendCount i pre = 1 ∧ receiveCount i pre = 0
  | .completed _ => ∀ i < p.input + p.output, sendCount i pre = 1 ∧ receiveCount i pre = 1
  | .started _ | .registered _ => True

/-- How often a register in this status was sent. -/
def DataStatus.sends : DataStatus → ℕ
  | dataEmpty | dataReady => 0
  | dataWaitingResp | dataFinish => 1

/-- How often a register in this status was answered. -/
def DataStatus.receives : DataStatus → ℕ
  | dataEmpty | dataReady | dataWaitingResp => 0
  | dataFinish => 1

namespace PIMKernel

variable {p : KernelParams} {k k' : PIMKernel} {pkt : Packet}

/-- The registers agree with the record, which is lawful. -/
structure Tracks (p : KernelParams) (k : PIMKernel) : Prop where
  counts : ∀ i s, k.statusAt i = some s →
    sendCount i k.history = s.sends ∧ receiveCount i k.history = s.receives
  begun : ∀ (i : ℕ) (r : Reg), k.regs[i]? = some r →
    r.status = .dataEmpty ∧ lastStarted k.history = none ∨
      r.status ≠ .dataEmpty ∧ ∃ addr, lastStarted k.history = some addr ∧ addr[i]? = some r.addr
  values : ∀ i v, .received i v ∈ episode k.history → k.data[i]? = some v
  law : Admitted (Lawful p) k.history

theorem tracks_create (p : KernelParams) : Tracks p (create p) where
  counts i s hs := by
    obtain ⟨r, hr, rfl⟩ := Option.map_eq_some_iff.mp hs
    rw [(List.mem_replicate.mp (List.mem_of_getElem? hr)).2]
    exact ⟨rfl, rfl⟩
  begun i r hr := by
    rw [(List.mem_replicate.mp (List.mem_of_getElem? hr)).2]
    exact .inl ⟨rfl, rfl⟩
  values i v hv := by cases hv
  law := admitted_nil

namespace Tracks

/-- **A packet is accepted.** -/
theorem send (h : Tracks p k) (hlen : k.regs.length = p.input + p.output)
    (hreg : k.regs[pkt.procid]? = some ⟨pkt.addr, .dataReady⟩)
    (hread : pkt.isRead = true ↔ pkt.procid < p.input) : Tracks p (k.send pkt) := by
  have hready := statusAt_of_getElem? hreg
  have hcounts := h.counts _ _ hready
  refine ⟨?_, ?_, ?_, ?_⟩
  · intro i s hs
    rw [statusAt_send] at hs
    show sendCount i (k.history ++ [.sent pkt]) = _ ∧ receiveCount i (k.history ++ [.sent pkt]) = _
    rw [sendCount_concat rfl, receiveCount_concat rfl]
    split_ifs at hs with hi
    · subst hi
      rw [hready] at hs
      cases hs
      simp [hcounts.1, hcounts.2, Record.sends, Record.receives, DataStatus.sends,
        DataStatus.receives]
    · have hother := h.counts i s hs
      simp [hother.1, hother.2, Record.sends, Record.receives, Ne.symm hi]
  · intro i r hr
    show _ ∧ lastStarted (k.history ++ [.sent pkt]) = none ∨
      _ ∧ ∃ addr, lastStarted (k.history ++ [.sent pkt]) = some addr ∧ _
    rw [lastStarted_concat rfl]
    replace hr : (k.regs.modify pkt.procid fun r => { r with status := .dataWaitingResp })[i]? =
      some r := hr
    rcases eq_or_ne pkt.procid i with rfl | hne
    · rw [List.getElem?_modify_eq, hreg] at hr
      cases hr
      obtain ⟨hempty, -⟩ | ⟨-, haddr⟩ := h.begun _ _ hreg
      · cases hempty
      · exact .inr ⟨nofun, haddr⟩
    · rw [List.getElem?_modify_ne _ _ hne] at hr
      exact h.begun i r hr
  · intro i v hv
    replace hv : .received i v ∈ episode (k.history ++ [.sent pkt]) := hv
    rw [episode_concat rfl] at hv
    rcases List.mem_append.mp hv with hv | hv
    · exact h.values i v hv
    · cases List.mem_singleton.mp hv
  · apply admitted_concat h.law
    obtain ⟨hempty, -⟩ | ⟨-, haddr⟩ := h.begun _ _ hreg
    · cases hempty
    · exact ⟨hlen ▸ lt_of_statusAt hready, hread, hcounts.1, haddr⟩

/-- **A response.** -/
theorem receive {n : ℕ} {f : Flight} {value : UInt64} (h : Tracks p k) (hsound : Sound p k)
    (hf : k.inFlight[n]? = some f) : Tracks p (k.receive p n f.pkt.procid value) := by
  have hwaiting := hsound.waiting_of_flight hf
  have hcounts := h.counts _ _ hwaiting
  have hlt : f.pkt.procid < k.data.length := by
    rw [hsound.data_length, ← hsound.regs_length]
    exact lt_of_statusAt hwaiting
  refine ⟨?_, ?_, ?_, ?_⟩
  · intro i s hs
    replace hs := (statusAt_modify k f.pkt.procid .dataFinish i).symm.trans hs
    show sendCount i (k.history ++ [.received f.pkt.procid value]) = _ ∧
      receiveCount i (k.history ++ [.received f.pkt.procid value]) = _
    rw [sendCount_concat rfl, receiveCount_concat rfl]
    split_ifs at hs with hi
    · subst hi
      rw [hwaiting] at hs
      cases hs
      simp [hcounts.1, hcounts.2, Record.sends, Record.receives, DataStatus.sends,
        DataStatus.receives]
    · have hother := h.counts i s hs
      simp [hother.1, hother.2, Record.sends, Record.receives, Ne.symm hi]
  · intro i r hr
    show _ ∧ lastStarted (k.history ++ [.received f.pkt.procid value]) = none ∨
      _ ∧ ∃ addr, lastStarted (k.history ++ [.received f.pkt.procid value]) = some addr ∧ _
    rw [lastStarted_concat rfl]
    replace hr : (k.regs.modify f.pkt.procid fun r => { r with status := .dataFinish })[i]? =
      some r := hr
    rcases eq_or_ne f.pkt.procid i with rfl | hne
    · rw [List.getElem?_modify_eq] at hr
      obtain ⟨r', hr', rfl⟩ := Option.map_eq_some_iff.mp hr
      obtain ⟨hempty, -⟩ | ⟨-, haddr⟩ := h.begun _ _ hr'
      · rw [statusAt_of_getElem? hr', hempty] at hwaiting
        cases hwaiting
      · exact .inr ⟨nofun, haddr⟩
    · rw [List.getElem?_modify_ne _ _ hne] at hr
      exact h.begun i r hr
  · intro i v hv
    replace hv : .received i v ∈ episode (k.history ++ [.received f.pkt.procid value]) := hv
    show (k.data.set f.pkt.procid value)[i]? = some v
    rw [episode_concat rfl] at hv
    rcases List.mem_append.mp hv with hv | hv
    · -- The register was not answered before.
      have hne : f.pkt.procid ≠ i := by
        rintro rfl
        have hzero := List.countP_eq_zero.mp hcounts.2 _ hv
        exact hzero (by simp [Record.receives])
      rw [List.getElem?_set_ne hne]
      exact h.values i v hv
    · cases List.mem_singleton.mp hv
      exact List.getElem?_set_self hlt
  · exact admitted_concat h.law hcounts

/-- **A command begins.** -/
theorem store {addr : List UInt64} (h : Tracks p k) (hlen : addr.length = k.regs.length) :
    Tracks p (k.store addr) := by
  have hregs : (k.store addr).regs = addr.map (⟨·, .dataReady⟩) := by
    simp [PIMKernel.store, hlen]
  refine ⟨?_, ?_, ?_, admitted_concat h.law trivial⟩
  · intro i s hs
    obtain ⟨r, hr, rfl⟩ := Option.map_eq_some_iff.mp hs
    rw [hregs, List.getElem?_map] at hr
    obtain ⟨a, -, rfl⟩ := Option.map_eq_some_iff.mp hr
    show sendCount i (k.history ++ [.started addr]) = _ ∧
      receiveCount i (k.history ++ [.started addr]) = _
    unfold sendCount receiveCount
    rw [episode_started]
    exact ⟨rfl, rfl⟩
  · intro i r hr
    rw [hregs, List.getElem?_map] at hr
    obtain ⟨a, ha, rfl⟩ := Option.map_eq_some_iff.mp hr
    refine .inr ⟨?_, addr, lastStarted_started addr, ha⟩
    intro hempty
    cases hempty
  · intro i v hv
    replace hv : .received i v ∈ episode (k.history ++ [.started addr]) := hv
    rw [episode_started] at hv
    cases hv

/-- A record that is neither a command's begin nor about a register. -/
theorem concat {r : Record} (h : Tracks p k) (hstarts : r.starts = false)
    (hsends : ∀ i, r.sends i = false) (hreceives : ∀ i, r.receives i = false)
    (hlaw : Lawful p k.history r) : Tracks p { k with history := k.history ++ [r] } := by
  refine ⟨?_, ?_, ?_, admitted_concat h.law hlaw⟩
  · intro i s hs
    show sendCount i (k.history ++ [r]) = _ ∧ receiveCount i (k.history ++ [r]) = _
    rw [sendCount_concat hstarts, receiveCount_concat hstarts, hsends, hreceives]
    exact h.counts i s hs
  · intro i reg hreg
    show _ ∧ lastStarted (k.history ++ [r]) = none ∨
      _ ∧ ∃ addr, lastStarted (k.history ++ [r]) = some addr ∧ _
    rw [lastStarted_concat hstarts]
    exact h.begun i reg hreg
  · intro i v hv
    replace hv : .received i v ∈ episode (k.history ++ [r]) := hv
    rw [episode_concat hstarts] at hv
    rcases List.mem_append.mp hv with hv | hv
    · exact h.values i v hv
    · have hr := hreceives i
      rw [← List.mem_singleton.mp hv] at hr
      simp [Record.receives] at hr

theorem register (h : Tracks p k) (addr : List UInt64) : Tracks p (k.register addr) :=
  h.concat rfl (fun _ => rfl) (fun _ => rfl) trivial

/-- **Every move keeps track.** -/
theorem move (h : Tracks p k) (hsound : Sound p k) (hm : Move p k k') : Tracks p k' := by
  cases hm with
  | advance t _ => exact ⟨h.counts, h.begun, h.values, h.law⟩
  | clearTick _ => exact ⟨h.counts, h.begun, h.values, h.law⟩
  | scheduleTick _ _ => exact ⟨h.counts, h.begun, h.values, h.law⟩
  | sendRead _ hi hr hready =>
    exact h.send hsound.regs_length (by rw [hr, ← hready]) (by simpa using hi)
  | refuseRead _ _ _ _ => exact ⟨h.counts, h.begun, h.values, h.law⟩
  | scheduleCompute _ _ _ => exact ⟨h.counts, h.begun, h.values, h.law⟩
  | allFinish _ _ => exact ⟨h.counts, h.begun, h.values, h.law⟩
  | scheduleFinish _ _ => exact ⟨h.counts, h.begun, h.values, h.law⟩
  | @sendWrite i r v hc hv hr hready =>
    have hclear : Tracks p { k with computeEvent := none } :=
      ⟨h.counts, h.begun, h.values, h.law⟩
    have hstatus := (statusAt_of_getElem? hr).trans (congrArg some hready)
    refine hclear.send hsound.regs_length ?_ ?_
    · show k.regs[i]? = _
      rw [hr, ← hready]
    · exact hsound.output_of_compute hc hstatus rfl
  | refuseWrite _ _ _ _ => exact ⟨h.counts, h.begun, h.values, h.law⟩
  | @complete r0 r1 r2 hf _ _ _ =>
    have hall := hsound.finished (hsound.finishing _ hf).1
    have hlaw : Lawful p k.history (.completed [r0.addr, r1.addr, r2.addr]) := fun i hi =>
      h.counts i _ (hall i (hsound.regs_length ▸ hi))
    have hdone := h.concat rfl (fun _ => rfl) (fun _ => rfl) hlaw
    exact ⟨hdone.counts, hdone.begun, hdone.values, hdone.law⟩

theorem moves (h : Tracks p k) (hsound : Sound p k) (hm : Moves p k k') : Tracks p k' := by
  induction hm with
  | refl => exact h
  | tail hms hm ih => exact ih.move (hsound.moves hms) hm

/-- **Every event keeps track.** -/
theorem step {e : KernelEvent} (h : Tracks p k) (hsound : Sound p k) (hserved : Served p k e)
    (hstep : PIMKernel.step p k e = .ok k') : Tracks p k' := by
  cases step_cases hsound hserved hstep with
  | moves hmoves _ => exact h.moves hsound hmoves
  | drop _ hk' =>
    rw [hk']
    exact h.register _
  | @start addr _ hs hlen hmoves =>
    have hstore := (h.register addr).store hlen
    exact hstore.moves ((hsound.register addr).store hs hlen) hmoves
  | resend hs _ hreg hread hmoves =>
    exact (h.send hsound.regs_length hreg hread).moves (hsound.resend hs hreg hread) hmoves
  | receive hf hsince hmoves =>
    exact (h.receive hsound hf).moves (hsound.receive hf hsince) hmoves

end Tracks

end PIMKernel

/-- An adder with two input operands and one output operand. -/
def smallAdder : KernelParams := ⟨.adder, 1, 2, 1, 10, by decide⟩

/-! ### The order of a command's accesses -/

/-- The order in which a register goes through its statuses: it is sent once after its command began,
and answered once after it was sent. -/
def InOrder (pre : List Record) : Record → Prop
  | .sent pkt => (∃ addr, lastStarted pre = some addr ∧ pkt.procid < addr.length) ∧
      sendCount pkt.procid pre = 0
  | .received i _ => sendCount i pre = 1 ∧ receiveCount i pre = 0
  | _ => True

namespace PIMKernel

variable {p : KernelParams} {k : PIMKernel}

theorem Tracks.inOrder (h : Tracks p k) : Admitted InOrder k.history := by
  intro pre e post heq
  have hlaw := h.law pre e post heq
  cases e with
  | sent pkt =>
    obtain ⟨-, -, hzero, addr, hlast, haddr⟩ := hlaw
    exact ⟨⟨addr, hlast, (List.getElem?_eq_some_iff.mp haddr).1⟩, hzero⟩
  | received i v => exact hlaw
  | registered addr | started addr | completed addr => trivial

end PIMKernel

end PIMSim.Gem5
