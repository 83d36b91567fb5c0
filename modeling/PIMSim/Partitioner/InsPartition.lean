import PIMSim.Library.Run
import PIMSim.TraceReader.FileReader

/-!
# The instruction partitioner

The partitioner fetches inputs from the traces, sorts them into one queue for each processor and one
for each memory-side unit, and hands them out when a unit asks and their time has come.

## Main definitions

* `InsPartition`: the queues, the flags of the ended traces and the clock
* `InsPartition.getReq`: the hand-out
* `InsPartition.recvFunctionalResp`: an input arrives
* `Feed.step`: the partitioner with its traces, asked for inputs between its cycles

## Main results

* `InsPartition.getReq_spec`: a call of `getReq` hands out nothing or the head of the queue, when its
  time has come
* `hands_out_in_order`: after every run, what a unit was handed followed by what its queue holds is
  what arrived for it, and nothing was handed out too early
-/

namespace PIMSim

open CSharp

/-- A unit that asks for inputs: a processor of the host, or a unit of the memory side. -/
structure ExecUnit where
  host : Bool
  pid : Int
deriving DecidableEq

structure InsPartition where
  allIns : List (List TraceInput)
  pimIns : List (List TraceInput)
  eof : List Bool
  cycle : UInt64 := 0
  divideHostReqs : List UInt64
  dividePimReqs : List UInt64
deriving DecidableEq

namespace InsPartition

/-- The constructor. -/
def init (cfg : Config) : InsPartition where
  allIns := List.replicate cfg.n []
  pimIns := List.replicate cfg.pimCuCount []
  eof := List.replicate cfg.n false
  divideHostReqs := List.replicate cfg.n 0
  dividePimReqs := List.replicate cfg.pimCuCount 0

def queues (p : InsPartition) (host : Bool) : List (List TraceInput) :=
  if host then p.allIns else p.pimIns

def setQueue (p : InsPartition) (u : ExecUnit) (q : List TraceInput) : InsPartition :=
  if u.host then { p with allIns := p.allIns.set u.pid.toNat q }
  else { p with pimIns := p.pimIns.set u.pid.toNat q }

/-- The inputs that wait for a unit. -/
def queue (p : InsPartition) (u : ExecUnit) : List TraceInput :=
  (listAt (p.queues u.host) u.pid).toOption.getD []

/-- `divide_host_reqs[pid]++` -/
def countHost (p : InsPartition) (pid : Int) : Outcome InsPartition := do
  let x ← listAt p.divideHostReqs pid
  return { p with divideHostReqs := p.divideHostReqs.set pid.toNat (x + 1) }

/-- `divide_pim_reqs[pid]++` -/
def countPim (p : InsPartition) (pid : Int) : Outcome InsPartition := do
  let x ← listAt p.dividePimReqs pid
  return { p with dividePimReqs := p.dividePimReqs.set pid.toNat (x + 1) }

/-- The answer that carries no input: a new instruction, which does nothing. -/
def hostNop (p : InsPartition) (pid : Int) : Outcome (Option TraceInput × InsPartition) := do
  let p ← p.countHost pid
  return (none, p)

/-- `get_req` of a processor. -/
def hostReq (p : InsPartition) (pid : Int) (pc : UInt64) :
    Outcome (Option TraceInput × InsPartition) := do
  let q ← listAt p.allIns pid
  match q with
  | [] => p.hostNop pid
  | .pcTrace peek :: rest =>
    if pc = 0 ∨ peek.pc ≤ pc then
      return (some (.pcTrace peek), p.setQueue ⟨true, pid⟩ rest)
    else p.hostNop pid
  | current :: rest =>
    if p.cycle - 1 < current.cycle then p.hostNop pid
    else
      match current with
      -- only the units of the memory run functions
      | .function _ => .error (.exit 1)
      | _ => do
        let p ← (p.setQueue ⟨true, pid⟩ rest).countHost pid
        return (some current, p)

/-- `get_req` of a memory-side unit. A line of a PC trace that has to wait is counted for the
host. -/
def pimReq (p : InsPartition) (pid : Int) (pc : UInt64) :
    Outcome (Option TraceInput × InsPartition) := do
  let q ← listAt p.pimIns pid
  match q with
  | [] => return (none, p)
  | .pcTrace peek :: rest =>
    if pc = 0 ∨ peek.pc ≤ pc then
      return (some (.pcTrace peek), p.setQueue ⟨false, pid⟩ rest)
    else p.hostNop pid
  | current :: rest =>
    if p.cycle - 1 < current.cycle then return (none, p)
    else do
      let p ← (p.setQueue ⟨false, pid⟩ rest).countPim pid
      return (some current, p)

/-- `get_req`: no input stands for the new instruction, which does nothing. -/
def getReq (p : InsPartition) (u : ExecUnit) (pc : UInt64) :
    Outcome (Option TraceInput × InsPartition) :=
  if u.host then p.hostReq u.pid pc else p.pimReq u.pid pc

/-- `corresponding_unit` -/
def correspondingUnit : Int := 0

/-- The queue that `recvFunctionalResp` selects for an input. The end of a trace has none. -/
def destination (cfg : Config) : TraceInput → Option ExecUnit
  | .instruction t =>
    if t.ins.type = .eof then none
    else if t.pim then some ⟨false, correspondingUnit⟩
    else some ⟨true, t.ins.pid⟩
  | .pcTrace t =>
    if cfg.pimKernal.any fun r => r.1 ≤ t.pc && t.pc ≤ r.2 then some ⟨false, t.id⟩
    else some ⟨true, t.id⟩
  | .function _ => some ⟨false, correspondingUnit⟩
  | .block _ => some ⟨false, correspondingUnit⟩

/-- The processor an input names. -/
def pidOf : TraceInput → Int
  | .instruction t => t.ins.pid
  | .pcTrace t => t.id
  | .function _ => 0
  | .block _ => 0

def recvFunctionalResp (cfg : Config) (p : InsPartition) (input : TraceInput) :
    Outcome InsPartition :=
  match destination cfg input with
  | some u => do
    let q ← listAt (p.queues u.host) u.pid
    return p.setQueue u (q ++ [input])
  | none => do
    let _ ← listAt p.eof (pidOf input)
    return { p with eof := p.eof.set (pidOf input).toNat true }

/-! ### The queues -/

variable {cfg : Config} {p p' : InsPartition} {u v : ExecUnit} {pc : UInt64} {q : List TraceInput}
  {input : TraceInput}

theorem queue_setQueue {q' : List TraceInput} (h : listAt (p.queues u.host) u.pid = .ok q) :
    (p.setQueue u q').queue v = if v = u then q' else p.queue v := by
  obtain ⟨uh, ui⟩ := u
  obtain ⟨vh, vi⟩ := v
  cases uh <;> cases vh <;>
    simp only [setQueue, queue, queues, ExecUnit.mk.injEq, Bool.false_eq_true, Bool.true_eq_false,
      if_true, if_false, false_and, true_and] at h ⊢
  all_goals
    rw [listAt_set h]
    split_ifs <;> rfl

theorem queue_eq (h : listAt (p.queues u.host) u.pid = .ok q) : p.queue u = q := by
  simp [queue, h, Except.toOption]

@[simp] theorem setQueue_eof (p : InsPartition) (u : ExecUnit) (q : List TraceInput) :
    (p.setQueue u q).eof = p.eof := by
  unfold setQueue
  split_ifs <;> rfl

@[simp] theorem setQueue_cycle (p : InsPartition) (u : ExecUnit) (q : List TraceInput) :
    (p.setQueue u q).cycle = p.cycle := by
  unfold setQueue
  split_ifs <;> rfl

/-- What is not a counter stays. -/
structure Same (p p' : InsPartition) : Prop where
  queue : p'.queue = p.queue
  eof : p'.eof = p.eof
  cycle : p'.cycle = p.cycle

theorem countHost_same {pid : Int} (h : p.countHost pid = .ok p') : Same p p' := by
  obtain ⟨x, -, h⟩ := Outcome.bind_eq_ok.mp h
  cases h
  exact ⟨rfl, rfl, rfl⟩

theorem countPim_same {pid : Int} (h : p.countPim pid = .ok p') : Same p p' := by
  obtain ⟨x, -, h⟩ := Outcome.bind_eq_ok.mp h
  cases h
  exact ⟨rfl, rfl, rfl⟩

/-- The time of an input has come for a unit that asks with `pc`. -/
def Due (cycle pc : UInt64) : TraceInput → Prop
  | .pcTrace t => pc = 0 ∨ t.pc ≤ pc
  | input => input.cycle ≤ cycle - 1

/-- What one call of `getReq` may do: it hands out nothing, or the head of the queue. -/
def Answers (p : InsPartition) (u : ExecUnit) (pc : UInt64) (answer : Option TraceInput)
    (p' : InsPartition) : Prop :=
  match answer with
  | none => Same p p'
  | some input => Due p.cycle pc input ∧ ∃ rest,
      listAt (p.queues u.host) u.pid = .ok (input :: rest) ∧ Same (p.setQueue u rest) p'

theorem hostNop_spec {pid : Int} {answer : Option TraceInput}
    (h : p.hostNop pid = .ok (answer, p')) : answer = none ∧ Same p p' := by
  obtain ⟨p₁, hp₁, h⟩ := Outcome.bind_eq_ok.mp h
  cases h
  exact ⟨rfl, countHost_same hp₁⟩

theorem answers_nop {pid : Int} {answer : Option TraceInput}
    (h : p.hostNop pid = .ok (answer, p')) : Answers p u pc answer p' := by
  obtain ⟨rfl, hsame⟩ := hostNop_spec h
  exact hsame

theorem hostReq_spec {pid : Int} {answer : Option TraceInput}
    (h : p.hostReq pid pc = .ok (answer, p')) : Answers p ⟨true, pid⟩ pc answer p' := by
  obtain ⟨q, hq, h⟩ := Outcome.bind_eq_ok.mp h
  match q with
  | [] => exact answers_nop h
  | .pcTrace peek :: rest =>
    dsimp only at h
    split_ifs at h with hpc
    · cases h
      exact ⟨hpc, rest, hq, rfl, rfl, rfl⟩
    · exact answers_nop h
  | .instruction t :: rest =>
    dsimp only at h
    split_ifs at h with hcycle
    · exact answers_nop h
    · obtain ⟨p₁, hp₁, h⟩ := Outcome.bind_eq_ok.mp h
      cases h
      exact ⟨UInt64.not_lt.mp hcycle, rest, hq, countHost_same hp₁⟩
  | .function f :: rest =>
    dsimp only at h
    split_ifs at h
    exact answers_nop h
  | .block b :: rest =>
    dsimp only at h
    split_ifs at h with hcycle
    · exact answers_nop h
    · obtain ⟨p₁, hp₁, h⟩ := Outcome.bind_eq_ok.mp h
      cases h
      exact ⟨UInt64.not_lt.mp hcycle, rest, hq, countHost_same hp₁⟩

/-- The branch of `pimReq` that all inputs but the lines of a PC trace take. -/
theorem answers_pim {pid : Int} {answer : Option TraceInput} {current : TraceInput}
    {rest : List TraceInput} (hq : listAt p.pimIns pid = .ok (current :: rest))
    (hdue : current.cycle ≤ p.cycle - 1 → Due p.cycle pc current)
    (h : (if p.cycle - 1 < current.cycle then (return (none, p) : Outcome _)
      else do
        let p ← (p.setQueue ⟨false, pid⟩ rest).countPim pid
        return (some current, p)) = .ok (answer, p')) :
    Answers p ⟨false, pid⟩ pc answer p' := by
  split_ifs at h with hcycle
  · cases h
    exact ⟨rfl, rfl, rfl⟩
  · obtain ⟨p₁, hp₁, h⟩ := Outcome.bind_eq_ok.mp h
    cases h
    exact ⟨hdue (UInt64.not_lt.mp hcycle), rest, hq, countPim_same hp₁⟩

theorem pimReq_spec {pid : Int} {answer : Option TraceInput}
    (h : p.pimReq pid pc = .ok (answer, p')) : Answers p ⟨false, pid⟩ pc answer p' := by
  obtain ⟨q, hq, h⟩ := Outcome.bind_eq_ok.mp h
  match q with
  | [] =>
    cases h
    exact ⟨rfl, rfl, rfl⟩
  | .pcTrace peek :: rest =>
    dsimp only at h
    split_ifs at h with hpc
    · cases h
      exact ⟨hpc, rest, hq, rfl, rfl, rfl⟩
    · exact answers_nop h
  | .instruction t :: rest => exact answers_pim hq id h
  | .function f :: rest => exact answers_pim hq id h
  | .block b :: rest => exact answers_pim hq id h

theorem getReq_spec {answer : Option TraceInput} (h : p.getReq u pc = .ok (answer, p')) :
    Answers p u pc answer p' := by
  obtain ⟨host, pid⟩ := u
  cases host with
  | false => exact pimReq_spec h
  | true => exact hostReq_spec h

/-- **The hand-out**: a unit takes the head of its own queue, and every other queue stays. -/
theorem getReq_queue {answer : Option TraceInput} (h : p.getReq u pc = .ok (answer, p')) :
    (∀ v, p.queue v = (if v = u then answer.toList else []) ++ p'.queue v) ∧
      p'.eof = p.eof ∧ p'.cycle = p.cycle := by
  have hspec := getReq_spec h
  cases answer with
  | none => exact ⟨fun v => by simp [hspec.queue], hspec.eof, hspec.cycle⟩
  | some input =>
    obtain ⟨-, rest, hq, hsame⟩ := hspec
    refine ⟨fun v => ?_, by rw [hsame.eof, setQueue_eof], by rw [hsame.cycle, setQueue_cycle]⟩
    rw [hsame.queue, queue_setQueue hq]
    split_ifs with hv
    · rw [hv, queue_eq hq]
      rfl
    · rfl

/-- An arriving input is appended to the queue that is selected for it. -/
theorem recv_queue (h : recvFunctionalResp cfg p input = .ok p') (v : ExecUnit) :
    p'.queue v = p.queue v ++ if destination cfg input = some v then [input] else [] := by
  unfold recvFunctionalResp at h
  cases hd : destination cfg input with
  | some u =>
    rw [hd] at h
    obtain ⟨q, hq, h⟩ := Outcome.bind_eq_ok.mp h
    cases h
    rw [queue_setQueue hq]
    by_cases hv : v = u
    · rw [if_pos hv, if_pos (by rw [hv]), hv, queue_eq hq]
    · have hne : ¬ some u = some v := fun h => hv (Option.some.inj h).symm
      rw [if_neg hv, if_neg hne, List.append_nil]
  | none =>
    rw [hd] at h
    obtain ⟨_, -, h⟩ := Outcome.bind_eq_ok.mp h
    cases h
    simp [queue, queues]

theorem recv_cycle (h : recvFunctionalResp cfg p input = .ok p') : p'.cycle = p.cycle := by
  unfold recvFunctionalResp at h
  split at h
  · obtain ⟨q, -, h⟩ := Outcome.bind_eq_ok.mp h
    cases h
    exact setQueue_cycle ..
  · obtain ⟨_, -, h⟩ := Outcome.bind_eq_ok.mp h
    cases h
    rfl

end InsPartition

/-! ### The partitioner with its traces -/

/-- An input that was handed out: to whom, on which asking `pc`, and after how many steps. -/
structure Handed where
  unit : ExecUnit
  pc : UInt64
  steps : ℕ
  input : TraceInput
deriving DecidableEq

/-- The partitioner and the traces, with the history of what was fetched for which processor and of
what was handed out. -/
structure Feed where
  insp : InsPartition
  fetcher : TraceFetcher
  steps : ℕ := 0
  fetched : List (ℕ × TraceInput) := []
  handed : List Handed := []
deriving DecidableEq

inductive FeedEvent
  | step
  | getReq (u : ExecUnit) (pc : UInt64)
deriving DecidableEq

namespace Feed

open Transition

def init (cfg : Config) (traces : List (List Line)) : Feed where
  insp := InsPartition.init cfg
  fetcher := { sr := traces }

/-- The body of the loop of `PartitionMethod`: one input of processor `i` is asked for, unless its
trace has ended or its queue is full. -/
def request (cfg : Config) (read : Reader) (f : Feed) (i : ℕ) : Outcome Feed := do
  let ended ← listAt f.insp.eof i
  if ended then return f
  else do
    let q ← listAt f.insp.allIns i
    if cfg.maxInspWaittingQueue ≤ q.length then return f
    else do
      let (input, fetcher) ← TraceFetcher.recvFunctionalReq read f.fetcher i
      let insp ← InsPartition.recvFunctionalResp cfg f.insp input
      return { f with insp, fetcher, fetched := f.fetched ++ [(i, input)] }

/-- The partitioner asks for an input of processor `i`. -/
def Asks (cfg : Config) (f : Feed) (i : ℕ) : Prop :=
  f.insp.eof[i]? = some false ∧
    ∃ q, f.insp.allIns[i]? = some q ∧ (q.length : Int) < cfg.maxInspWaittingQueue

/-- The rounds of the two loops of `PartitionMethod`. -/
def rounds (cfg : Config) : List ℕ :=
  (List.range cfg.n).flatMap fun i => List.replicate cfg.ipc.toNat i

/-- `cycle++` -/
def tick (f : Feed) : Feed :=
  { f with insp := { f.insp with cycle := f.insp.cycle + 1 }, steps := f.steps + 1 }

/-- `Step`, and a unit that asks. -/
def step (cfg : Config) (read : Reader) (f : Feed) : FeedEvent → Outcome Feed
  | .step => exec (request cfg read) f.tick (rounds cfg)
  | .getReq u pc => do
    let (answer, insp) ← f.insp.getReq u pc
    let handed := answer.toList.map fun input => { unit := u, pc, steps := f.steps, input }
    return { f with insp, handed := f.handed ++ handed }

/-- The inputs that have arrived for a unit. -/
def arrivedAt (cfg : Config) (f : Feed) (u : ExecUnit) : List TraceInput :=
  (f.fetched.map Prod.snd).filter fun input => InsPartition.destination cfg input = some u

/-- The inputs a unit was handed. -/
def handedTo (f : Feed) (u : ExecUnit) : List TraceInput :=
  (f.handed.filter fun h => h.unit = u).map Handed.input

/-- The time of an input had come when it was handed out: more steps were made than its cycle
tells, or the asking `pc` was zero or had reached that of the input. -/
def InTime (h : Handed) : Prop :=
  match h.input with
  | .pcTrace t => h.pc = 0 ∨ t.pc ≤ h.pc
  | input => input.cycle.toNat < h.steps

/-- Every unit was handed the inputs of its queue in order, each in time. -/
structure HandsOut (cfg : Config) (f : Feed) : Prop where
  order : ∀ u, f.handedTo u ++ f.insp.queue u = f.arrivedAt cfg u
  inTime : ∀ h ∈ f.handed, InTime h

/-- What every step keeps: the clock counts the steps, and before the first step nothing has
arrived. -/
structure Steady (cfg : Config) (f : Feed) : Prop extends HandsOut cfg f where
  clock : f.insp.cycle = UInt64.ofNat f.steps
  early : f.steps = 0 → ∀ u, f.insp.queue u = []

variable {cfg : Config} {read : Reader} {f f' : Feed}

/-- A round of the loop leaves everything as it is, or one input arrives. -/
theorem request_eq_ok {i : ℕ} (h : request cfg read f i = .ok f') :
    (¬ Asks cfg f i ∧ f' = f) ∨ (Asks cfg f i ∧ ∃ input insp fetcher,
      TraceFetcher.recvFunctionalReq read f.fetcher i = .ok (input, fetcher) ∧
      InsPartition.recvFunctionalResp cfg f.insp input = .ok insp ∧
      f' = { f with insp, fetcher, fetched := f.fetched ++ [(i, input)] }) := by
  obtain ⟨ended, hended, h⟩ := Outcome.bind_eq_ok.mp h
  replace hended := listAt_natCast.mp hended
  cases ended with
  | true =>
    cases h
    refine .inl ⟨fun hasks => ?_, rfl⟩
    cases hended.symm.trans hasks.1
  | false =>
    obtain ⟨q, hq, h⟩ := Outcome.bind_eq_ok.mp h
    replace hq := listAt_natCast.mp hq
    split_ifs at h with hfull
    · cases h
      refine .inl ⟨fun hasks => ?_, rfl⟩
      obtain ⟨q', hq', hroom⟩ := hasks.2
      cases hq.symm.trans hq'
      omega
    · obtain ⟨⟨input, fetcher⟩, hreq, h⟩ := Outcome.bind_eq_ok.mp h
      obtain ⟨insp, hinsp, h⟩ := Outcome.bind_eq_ok.mp h
      cases h
      exact .inr ⟨⟨hended, q, hq, Int.not_le.mp hfull⟩, input, insp, fetcher, hreq, hinsp, rfl⟩

/-- An arriving input goes to the end of its queue and of the record of what has arrived. -/
theorem request_steady {i : ℕ} (hf : Steady cfg f ∧ 0 < f.steps)
    (h : request cfg read f i = .ok f') : Steady cfg f' ∧ 0 < f'.steps := by
  obtain ⟨hf, hsteps⟩ := hf
  obtain ⟨-, rfl⟩ | ⟨-, input, insp, fetcher, -, hinsp, rfl⟩ := request_eq_ok h
  · exact ⟨hf, hsteps⟩
  refine ⟨⟨⟨fun u => ?_, hf.inTime⟩, ?_, fun h0 => absurd h0 hsteps.ne'⟩, hsteps⟩
  · have horder := hf.order u
    simp only [handedTo, arrivedAt] at horder ⊢
    rw [InsPartition.recv_queue hinsp, ← List.append_assoc, horder, List.map_append,
      List.filter_append]
    simp [List.filter_singleton]
  · exact (InsPartition.recv_cycle hinsp).trans hf.clock

theorem tick_steady (hf : Steady cfg f) : Steady cfg f.tick ∧ 0 < f.tick.steps := by
  refine ⟨⟨⟨hf.order, hf.inTime⟩, ?_, nofun⟩, Nat.succ_pos _⟩
  change f.insp.cycle + 1 = UInt64.ofNat (f.steps + 1)
  rw [hf.clock, UInt64.ofNat_add]
  rfl

/-- The clock of a step is ahead of every cycle it lets pass, also when the clock has wrapped. -/
theorem lt_steps_of_le {c : UInt64} {n : ℕ} (hn : 0 < n) (h : c ≤ UInt64.ofNat n - 1) :
    c.toNat < n := by
  obtain ⟨k, rfl⟩ := Nat.exists_eq_succ_of_ne_zero hn.ne'
  have hk : UInt64.ofNat (k + 1) - 1 = UInt64.ofNat k := by
    rw [UInt64.ofNat_add]
    exact UInt64.add_sub_cancel ..
  rw [hk] at h
  have hle : c.toNat ≤ k % 2 ^ 64 := by simpa using UInt64.le_iff_toNat_le.mp h
  have := Nat.mod_le k (2 ^ 64)
  omega

theorem inTime_of_due (hf : Steady cfg f) {u : ExecUnit} {pc : UInt64} {input : TraceInput}
    {rest : List TraceInput} (hq : listAt (f.insp.queues u.host) u.pid = .ok (input :: rest))
    (hdue : InsPartition.Due f.insp.cycle pc input) :
    InTime { unit := u, pc, steps := f.steps, input } := by
  have hsteps : 0 < f.steps := by
    refine Nat.pos_of_ne_zero fun h0 => ?_
    have hnil := hf.early h0 u
    rw [InsPartition.queue_eq hq] at hnil
    cases hnil
  cases input with
  | pcTrace t => exact hdue
  | instruction t => exact lt_steps_of_le hsteps (hf.clock ▸ hdue)
  | function t => exact lt_steps_of_le hsteps (hf.clock ▸ hdue)
  | block t => exact lt_steps_of_le hsteps (hf.clock ▸ hdue)

/-- A call of `getReq` moves the head of a queue to the record of what was handed out. -/
theorem getReq_steady (hf : Steady cfg f) {u : ExecUnit} {pc : UInt64}
    (h : step cfg read f (.getReq u pc) = .ok f') : Steady cfg f' := by
  obtain ⟨⟨answer, insp⟩, hreq, h⟩ := Outcome.bind_eq_ok.mp h
  cases h
  obtain ⟨hqueue, -, hcycle⟩ := InsPartition.getReq_queue hreq
  refine ⟨⟨fun v => ?_, ?_⟩, hcycle.trans hf.clock, fun h0 v => ?_⟩
  · have horder := hf.order v
    rw [hqueue v] at horder
    simp only [handedTo, arrivedAt] at horder ⊢
    rw [← horder, List.filter_append, List.map_append, List.append_assoc]
    congr 1
    congr 1
    by_cases hv : v = u
    · subst hv
      cases answer <;> simp
    · cases answer <;> simp [hv, Ne.symm hv]
  · intro handed hmem
    rcases List.mem_append.mp hmem with hmem | hmem
    · exact hf.inTime handed hmem
    cases answer with
    | none => cases hmem
    | some input =>
      cases List.mem_singleton.mp hmem
      obtain ⟨hdue, rest, hq, -⟩ := InsPartition.getReq_spec hreq
      exact inTime_of_due hf hq hdue
  · have hnil := hf.early h0 v
    rw [hqueue v] at hnil
    exact (List.append_eq_nil_iff.mp hnil).2

theorem step_steady {e : FeedEvent} (hf : Steady cfg f) (h : step cfg read f e = .ok f') :
    Steady cfg f' := by
  cases e with
  | getReq u pc => exact getReq_steady hf h
  | step =>
    exact (exec_invariant (I := fun f => Steady cfg f ∧ 0 < f.steps)
      (fun _ _ _ hf h => request_steady hf h) (tick_steady hf) h).1

theorem queue_init (cfg : Config) (u : ExecUnit) : (InsPartition.init cfg).queue u = [] := by
  obtain ⟨host, pid⟩ := u
  have hnil : ∀ n : ℕ,
      (listAt (List.replicate n ([] : List TraceInput)) pid).toOption.getD [] = [] := by
    intro n
    cases h : listAt (List.replicate n ([] : List TraceInput)) pid with
    | error e => rfl
    | ok q =>
      have hget := (listAt_eq_ok.mp h).2
      rw [List.getElem?_replicate] at hget
      split_ifs at hget
      cases hget
      rfl
  cases host
  · exact hnil cfg.pimCuCount
  · exact hnil cfg.n

theorem init_steady (cfg : Config) (traces : List (List Line)) : Steady cfg (init cfg traces) := by
  refine ⟨⟨fun u => ?_, nofun⟩, rfl, fun _ u => queue_init cfg u⟩
  change [] ++ (InsPartition.init cfg).queue u = []
  rw [queue_init, List.append_nil]

/-- **The hand-out of the partitioner**: after every run, with any traces and any units that ask in
between, what a unit was handed followed by what its queue still holds is what has arrived for it;
and every input was handed out in time. -/
theorem hands_out_in_order (cfg : Config) (read : Reader) (traces : List (List Line))
    (events : List FeedEvent) (f : Feed)
    (h : exec (step cfg read) (init cfg traces) events = .ok f) : HandsOut cfg f :=
  (exec_invariant (fun _ _ _ hf h => step_steady hf h) (init_steady cfg traces) h).toHandsOut

/-- A line is a calculation, whose cycle is the length of the line. -/
def lengthFormat : LineFormat where
  insLine line := .ok (some { cycle := UInt64.ofNat line.length, kind := .calculation })
  functionHead _ := .error .format
  functionField _ _ := .error .format

/-- One processor whose trace has two lines, which asks four times: after the first step and after the
third one the time of the next input has not come. -/
theorem hands_out_in_order_two_lines : ∃ f,
    exec (step {} (DetailedTxtReader.getReq lengthFormat 0))
      (init {} [[['a'], ['a', 'b', 'c']]]) [.step, .getReq ⟨true, 0⟩ 0, .step,
        .getReq ⟨true, 0⟩ 0, .step, .getReq ⟨true, 0⟩ 0, .step, .getReq ⟨true, 0⟩ 0] = .ok f ∧
      (f.handed.map fun h => (h.input.cycle, h.steps)) = [(1, 2), (3, 4)] ∧ HandsOut {} f := by
  obtain ⟨f, hf, hhanded⟩ := Outcome.exists_of_map_eq_ok
    (f := fun f : Feed => f.handed.map fun h => (h.input.cycle, h.steps)) (b := [(1, 2), (3, 4)])
    (x := exec (step {} (DetailedTxtReader.getReq lengthFormat 0))
      (init {} [[['a'], ['a', 'b', 'c']]]) [.step, .getReq ⟨true, 0⟩ 0, .step,
        .getReq ⟨true, 0⟩ 0, .step, .getReq ⟨true, 0⟩ 0, .step, .getReq ⟨true, 0⟩ 0])
    (by decide +kernel)
  exact ⟨f, hf, hhanded, hands_out_in_order {} _ _ _ f hf⟩

end Feed

end PIMSim
