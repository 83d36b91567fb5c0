import PIMSim.Gem5.FlushPIM
import PIMSim.Library.Run

/-!
# Host commands and their retry

A host processor translates the operands of a command and sends it. When a translation faults it keeps
the command and schedules the retry event, which gives the command's operands to the same function.

## Main definitions

* `CommandParams`, `HostCPU`: a host processor
* `HostCPU.PIMCommand`, `HostCPU.retryPIM`: a command, from an instruction or from the retry event
* `HostCPU.step`: one event
* `Delivered`: each command is either sent, with the translation of its own operands, or pending

## Main results

* `commands_delivered`: in every run whose events all find no pending command the commands are
  delivered, and an event that finds one never leaves them so
-/

namespace PIMSim.Gem5

open Cpp Transition

variable {δ : Type}

/-- The state a sender attaches to a packet. -/
structure PIMSenderState where
  addr : List ℕ
  threadid : ℕ
deriving DecidableEq, Repr

/-- The processor models that send commands. -/
inductive CPUModel
  | timingSimpleCPU
  | fullO3CPU
deriving DecidableEq, Repr

/-- A processor: its model, the context identifiers of its threads, their page tables, and the block
size of the caches. -/
structure CommandParams where
  model : CPUModel
  contextId : List ℕ
  translate : ℕ → ℕ → ℕ
  blkSize : ℕ

/-- The state of a host processor, with the commands it executed and the packets it sent. -/
structure HostCPU (δ : Type) where
  pendingPIM : List PIMSenderState
  pimEvent : Bool
  pCaches : List (Cache δ)
  memory : ℕ → δ
  executed : List (ℕ × List ℕ)
  sent : List (List ℕ)

namespace HostCPU

variable (p : CommandParams) (cpu : HostCPU δ)

/-- A processor that has executed nothing. -/
def create (pCaches : List (Cache δ)) (memory : ℕ → δ) : HostCPU δ where
  pendingPIM := []
  pimEvent := false
  pCaches
  memory
  executed := []
  sent := []

/-- The thread a command is kept with. -/
def threadid (tc : ℕ) : Outcome ℕ :=
  match p.model with
  | .timingSimpleCPU => return tc
  | .fullO3CPU => vectorAt "contextId" p.contextId tc

/-- The translations of the operands from the `i`-th on, unless one of them faults. -/
def translateAtomic (tc : ℕ) (fault : ℕ → Bool) (i : ℕ) : List ℕ → Option (List ℕ)
  | [] => some []
  | a :: addr =>
    if fault i then none
    else (translateAtomic tc fault (i + 1) addr).map (p.translate tc a :: ·)

/-- With commands pending a new one is queued, and the first of them is the one to send. -/
def enqueue (vdata : PIMSenderState) :
    List PIMSenderState → List PIMSenderState × PIMSenderState
  | [] => ([], vdata)
  | front :: rest => (front :: rest ++ [vdata], front)

/-- The retry event is scheduled. -/
def schedulePIM : Outcome (HostCPU δ) := do
  let _ ← assert (cpu.pimEvent = false)
  return { cpu with pimEvent := true }

/-- A command of the thread `tc`. -/
def PIMCommand (tc in1 in2 out1 : ℕ) (fault : ℕ → Bool) : Outcome (Bool × HostCPU δ) := do
  let threadid ← threadid p tc
  let (pendingPIM, vdata) := enqueue { addr := [in1, in2, out1], threadid } cpu.pendingPIM
  match translateAtomic p tc fault 0 vdata.addr with
  | none =>
    let cpu ← schedulePIM { cpu with pendingPIM := pendingPIM ++ [vdata] }
    return (false, cpu)
  | some pimpAddr =>
    let _ ← assert (cpu.pimEvent = false)
    let (pCaches, memory) ← flushOperands p.blkSize pimpAddr cpu.pCaches cpu.memory
    return (true, { cpu with pendingPIM, pCaches, memory, sent := cpu.sent ++ [pimpAddr] })

/-- The thread context a retry translates for. -/
def retryContext (curThread : ℕ) (f : PIMSenderState) : Outcome ℕ :=
  match p.model with
  | .timingSimpleCPU => return curThread
  | .fullO3CPU => do
    let _ ← vectorAt "tcBase" p.contextId f.threadid
    return f.threadid

/-- A retry whose command was sent removes the first pending command; the event is scheduled again as
long as a command is pending. -/
def endRetry (sent : Bool) : Outcome (HostCPU δ) :=
  let cpu := if sent then { cpu with pendingPIM := cpu.pendingPIM.tail } else cpu
  if cpu.pendingPIM ≠ [] then cpu.schedulePIM else return cpu

/-- The retry event. -/
def retryPIM (curThread : ℕ) (fault : ℕ → Bool) : Outcome (HostCPU δ) :=
  match cpu.pendingPIM with
  | [] => return cpu
  | f :: _ => do
    let tc ← retryContext p curThread f
    let in1 ← vectorAt "retryPIM" f.addr 0
    let in2 ← vectorAt "retryPIM" f.addr 1
    let out1 ← vectorAt "retryPIM" f.addr 2
    let (sent, cpu) ← PIMCommand p cpu tc in1 in2 out1 fault
    cpu.endRetry sent

/-- What happens at a processor: a thread executes a command, or the retry event runs while a thread
is the current one. The operands whose translation faults are given. -/
inductive CommandEvent
  | instruction (tc in1 in2 out1 : ℕ) (fault : ℕ → Bool)
  | retry (curThread : ℕ) (fault : ℕ → Bool)

/-- The threads are the processor's, and a scheduled event runs. -/
def Possible : CommandEvent → Prop
  | .instruction tc _ _ _ _ => tc < p.contextId.length
  | .retry curThread _ => curThread < p.contextId.length ∧ cpu.pimEvent = true

instance : ∀ e, Decidable (cpu.Possible p e)
  | .instruction tc _ _ _ _ => inferInstanceAs (Decidable (tc < p.contextId.length))
  | .retry curThread _ =>
    inferInstanceAs (Decidable (curThread < p.contextId.length ∧ cpu.pimEvent = true))

/-- One event. -/
def step : CommandEvent → Outcome (HostCPU δ)
  | .instruction tc in1 in2 out1 fault => do
    let cpu := { cpu with executed := cpu.executed ++ [(tc, [in1, in2, out1])] }
    let (_, cpu) ← PIMCommand p cpu tc in1 in2 out1 fault
    return cpu
  | .retry curThread fault => retryPIM p { cpu with pimEvent := false } curThread fault

/-! ### One command -/

variable {p cpu} {cpu' : HostCPU δ} {tc in1 in2 out1 : ℕ} {fault : ℕ → Bool}

theorem translateAtomic_eq_some {i : ℕ} {addr pimpAddr : List ℕ}
    (h : translateAtomic p tc fault i addr = some pimpAddr) :
    pimpAddr = addr.map (p.translate tc) := by
  induction addr generalizing i pimpAddr with
  | nil =>
    cases h
    rfl
  | cons a addr ih =>
    unfold translateAtomic at h
    by_cases hfault : fault i = true
    · rw [if_pos hfault] at h
      cases h
    · rw [if_neg hfault] at h
      obtain ⟨rest, hrest, rfl⟩ := Option.map_eq_some_iff.mp h
      rw [ih hrest, List.map_cons]

/-- What a command does: the first command of the queue is sent, or it is kept once more and the retry
event is scheduled. -/
inductive Commanded (p : CommandParams) (cpu : HostCPU δ) (tc : ℕ) (vdata : PIMSenderState) :
    Bool → HostCPU δ → Prop
  | sent (pCaches : List (Cache δ)) (memory : ℕ → δ) :
    Commanded p cpu tc vdata true { cpu with
      pendingPIM := (enqueue vdata cpu.pendingPIM).1
      pCaches
      memory
      sent := cpu.sent ++ [(enqueue vdata cpu.pendingPIM).2.addr.map (p.translate tc)] }
  | faulted :
    Commanded p cpu tc vdata false { cpu with
      pendingPIM := (enqueue vdata cpu.pendingPIM).1 ++ [(enqueue vdata cpu.pendingPIM).2]
      pimEvent := true }

theorem schedulePIM_eq_ok (h : cpu.schedulePIM = .ok cpu') :
    cpu.pimEvent = false ∧ cpu' = { cpu with pimEvent := true } := by
  obtain ⟨u, hidle, h⟩ := Outcome.bind_eq_ok.mp h
  cases h
  exact ⟨assert_eq_ok.mp hidle, rfl⟩

theorem PIMCommand_cases {sent : Bool}
    (h : PIMCommand p cpu tc in1 in2 out1 fault = .ok (sent, cpu')) :
    cpu.pimEvent = false ∧
      ∃ threadid, Commanded p cpu tc { addr := [in1, in2, out1], threadid } sent cpu' := by
  obtain ⟨threadid, -, h⟩ := Outcome.bind_eq_ok.mp h
  simp only at h
  split at h
  · obtain ⟨cpu₁, hschedule, h⟩ := Outcome.bind_eq_ok.mp h
    obtain ⟨hidle, rfl⟩ := schedulePIM_eq_ok hschedule
    cases h
    exact ⟨hidle, threadid, .faulted⟩
  · next pimpAddr htranslate =>
    obtain ⟨u, hidle, h⟩ := Outcome.bind_eq_ok.mp h
    obtain ⟨⟨pCaches, memory⟩, -, h⟩ := Outcome.bind_eq_ok.mp h
    cases h
    refine ⟨assert_eq_ok.mp hidle, threadid, ?_⟩
    rw [translateAtomic_eq_some htranslate]
    exact .sent pCaches memory

theorem endRetry_eq_ok {sent : Bool} (h : cpu.endRetry sent = .ok cpu')
    (hmore : 1 < cpu.pendingPIM.length) :
    cpu.pimEvent = false ∧ cpu' = { cpu with
      pendingPIM := if sent then cpu.pendingPIM.tail else cpu.pendingPIM
      pimEvent := true } := by
  have htail : cpu.pendingPIM.tail ≠ [] := by
    rw [← List.length_pos_iff, List.length_tail]
    omega
  cases sent with
  | true => exact schedulePIM_eq_ok (by simpa [endRetry, htail] using h)
  | false =>
    have hne : cpu.pendingPIM ≠ [] := by
      rintro hnil
      simp [hnil] at hmore
    exact schedulePIM_eq_ok (by simpa [endRetry, hne] using h)

/-- A retry that returns sends the first pending command, and keeps a copy of it at the end. -/
theorem retryPIM_of_pending {curThread : ℕ} (h : retryPIM p cpu curThread fault = .ok cpu')
    (hpending : cpu.pendingPIM ≠ []) :
    cpu'.executed = cpu.executed ∧ cpu'.sent.length = cpu.sent.length + 1 ∧
      cpu'.pendingPIM.length = cpu.pendingPIM.length := by
  obtain ⟨f, rest, hfirst⟩ := List.exists_cons_of_ne_nil hpending
  simp only [retryPIM, hfirst] at h
  obtain ⟨_, -, h⟩ := Outcome.bind_eq_ok.mp h
  obtain ⟨_, -, h⟩ := Outcome.bind_eq_ok.mp h
  obtain ⟨_, -, h⟩ := Outcome.bind_eq_ok.mp h
  obtain ⟨_, -, h⟩ := Outcome.bind_eq_ok.mp h
  obtain ⟨⟨sent, cpu₁⟩, hcommand, h⟩ := Outcome.bind_eq_ok.mp h
  obtain ⟨-, threadid, hcommanded⟩ := PIMCommand_cases hcommand
  cases hcommanded with
  | sent pCaches memory =>
    -- the copy that the command queued is still there
    obtain ⟨-, rfl⟩ := endRetry_eq_ok h (by simp [hfirst, enqueue])
    exact ⟨rfl, by simp, by simp [hfirst, enqueue]⟩
  | faulted =>
    -- the retry event that the command scheduled is scheduled again
    obtain ⟨hidle, -⟩ := endRetry_eq_ok h (by simp [hfirst, enqueue])
    cases hidle

/-! ### Delivery -/

/-- The packet of a command carries the translations of its operands in its thread's page table. -/
def packetOf (p : CommandParams) (command : ℕ × List ℕ) : List ℕ :=
  command.2.map (p.translate command.1)

/-- The commands executed are those sent, in order, and those pending, and the retry event is scheduled
when a command is pending. -/
def Delivered (p : CommandParams) (cpu : HostCPU δ) : Prop :=
  (∃ done waiting, cpu.executed = done ++ waiting ∧ cpu.sent = done.map (packetOf p) ∧
    cpu.pendingPIM.map (·.addr) = waiting.map (·.2)) ∧
  (cpu.pendingPIM ≠ [] → cpu.pimEvent = true)

theorem Delivered.length (h : Delivered p cpu) :
    cpu.executed.length = cpu.sent.length + cpu.pendingPIM.length := by
  obtain ⟨⟨done, waiting, hexecuted, hsent, hpending⟩, -⟩ := h
  have hlength : cpu.pendingPIM.length = waiting.length := by
    simpa using congrArg List.length hpending
  rw [hexecuted, hsent, hlength, List.length_append, List.length_map]

/-- With no command pending, the commands executed were all sent. -/
theorem delivered_of_nil (hpending : cpu.pendingPIM = []) :
    Delivered p cpu ↔ cpu.sent = cpu.executed.map (packetOf p) := by
  constructor
  · rintro ⟨⟨done, waiting, hexecuted, hsent, h⟩, -⟩
    have hnone : waiting = [] := by
      rw [hpending] at h
      exact List.map_eq_nil_iff.mp h.symm
    rw [hexecuted, hsent, hnone, List.append_nil]
  · intro hsent
    exact ⟨⟨cpu.executed, [], by simp, hsent, by simp [hpending]⟩,
      fun hne => absurd hpending hne⟩

/-- **An event that finds no command pending** leaves the commands delivered. -/
theorem Delivered.step {e : CommandEvent} (h : Delivered p cpu) (hpending : cpu.pendingPIM = [])
    (hstep : HostCPU.step p cpu e = .ok cpu') : Delivered p cpu' := by
  have hsent := (delivered_of_nil hpending).mp h
  cases e with
  | instruction tc in1 in2 out1 fault =>
    obtain ⟨⟨sent, cpu₁⟩, hcommand, hstep⟩ := Outcome.bind_eq_ok.mp hstep
    cases hstep
    obtain ⟨-, threadid, hcommanded⟩ := PIMCommand_cases hcommand
    cases hcommanded with
    | sent pCaches memory =>
      refine (delivered_of_nil ?_).mpr ?_
      · simp [hpending, enqueue]
      · simp [hpending, enqueue, hsent, packetOf]
    | faulted =>
      refine ⟨⟨cpu.executed, [(tc, [in1, in2, out1])], rfl, hsent, ?_⟩, fun _ => rfl⟩
      simp [hpending, enqueue]
  | retry curThread fault =>
    have hnothing : HostCPU.step p cpu (.retry curThread fault) =
        .ok { cpu with pimEvent := false } := by
      simp [HostCPU.step, retryPIM, hpending, pure, Except.pure]
    cases hnothing.symm.trans hstep
    refine (delivered_of_nil ?_).mpr ?_
    · exact hpending
    · exact hsent

/-- **An event that finds a command pending** leaves the commands undelivered. -/
theorem Delivered.not_step {e : CommandEvent} (h : Delivered p cpu) (hpending : cpu.pendingPIM ≠ [])
    (hstep : HostCPU.step p cpu e = .ok cpu') : ¬ Delivered p cpu' := by
  cases e with
  | instruction tc in1 in2 out1 fault =>
    obtain ⟨⟨sent, cpu₁⟩, hcommand, -⟩ := Outcome.bind_eq_ok.mp hstep
    -- the retry event is scheduled, which stops the command
    have hidle : cpu.pimEvent = false := (PIMCommand_cases hcommand).1
    rw [h.2 hpending] at hidle
    cases hidle
  | retry curThread fault =>
    have hretry : retryPIM p { cpu with pimEvent := false } curThread fault = .ok cpu' := hstep
    have hretried := retryPIM_of_pending hretry hpending
    obtain ⟨hexecuted, hsent, hlength⟩ : cpu'.executed = cpu.executed ∧
        cpu'.sent.length = cpu.sent.length + 1 ∧
        cpu'.pendingPIM.length = cpu.pendingPIM.length := hretried
    intro h'
    have hbefore := h.length
    have hafter := h'.length
    rw [hexecuted, hsent, hlength] at hafter
    omega

end HostCPU

open HostCPU in
/-- **Delivery of commands.** In every run whose events all find no pending command, each command that
was executed is sent once, in order and with the translations of its own operands, or pending once; an
event that finds a command pending stops the simulation or leaves the commands undelivered. -/
theorem commands_delivered {p : CommandParams} {pCaches : List (Cache δ)} {memory : ℕ → δ}
    {es : List CommandEvent} {cpu : HostCPU δ}
    (hes : Along (step p) (fun cpu e => cpu.Possible p e ∧ cpu.pendingPIM = [])
      (create pCaches memory) es)
    (hrun : exec (step p) (create pCaches memory) es = .ok cpu) :
    Delivered p cpu ∧
      ∀ e cpu', cpu.pendingPIM ≠ [] → step p cpu e = .ok cpu' → ¬ Delivered p cpu' := by
  have hinit : Delivered p (create pCaches memory) := (delivered_of_nil rfl).mpr rfl
  have h : Delivered p cpu :=
    exec_along (fun _ _ _ h hgood hstep => h.step hgood.2 hstep) hinit hes hrun
  exact ⟨h, fun _ _ hpending hstep => h.not_step hpending hstep⟩

/-- A processor with one thread, whose pages are mapped one page higher, and no caches. -/
def oneThread : CommandParams where
  model := .timingSimpleCPU
  contextId := [0]
  translate := fun _ a => a + 4096
  blkSize := 64

open HostCPU in
/-- Two commands; the second one's last operand faults. -/
theorem commands_delivered_two :
    let es : List CommandEvent := [.instruction 0 0 64 128 fun _ => false,
      .instruction 0 256 320 384 fun i => i == 2]
    ∃ cpu : HostCPU ℕ, exec (step oneThread) (create [] fun _ => 0) es = .ok cpu ∧
      cpu.sent = [[4096, 4160, 4224]] ∧ cpu.pendingPIM = [⟨[256, 320, 384], 0⟩] ∧
      Delivered oneThread cpu := by
  intro es
  have hes : Along (step oneThread) (fun cpu e => cpu.Possible oneThread e ∧ cpu.pendingPIM = [])
      (create [] fun _ => (0 : ℕ)) es := by
    decide +kernel
  have hend : (exec (step oneThread) (create [] fun _ => (0 : ℕ)) es).map (fun cpu => decide
      (cpu.sent = [[4096, 4160, 4224]] ∧ cpu.pendingPIM = [⟨[256, 320, 384], 0⟩])) = .ok true := by
    decide +kernel
  obtain ⟨cpu, hcpu, hlists⟩ := Outcome.exists_of_map_eq_ok hend
  obtain ⟨hsent, hpending⟩ := of_decide_eq_true hlists
  exact ⟨cpu, hcpu, hsent, hpending, (commands_delivered hes hcpu).1⟩

open HostCPU in
/-- A command whose first operand faults once is sent by each retry, and stays pending. -/
theorem not_commands_delivered :
    let es : List CommandEvent := [.instruction 0 0 64 128 fun i => i == 0,
      .retry 0 fun _ => false, .retry 0 fun _ => false]
    Along (step oneThread) (fun cpu e => cpu.Possible oneThread e)
        (create [] fun _ => (0 : ℕ)) es ∧
      (exec (step oneThread) (create [] fun _ => (0 : ℕ)) es).map (fun cpu => decide
        (cpu.executed = [(0, [0, 64, 128])] ∧
          cpu.sent = [[4096, 4160, 4224], [4096, 4160, 4224]] ∧
          cpu.pendingPIM = [⟨[0, 64, 128], 0⟩])) = .ok true := by
  decide +kernel

end PIMSim.Gem5
