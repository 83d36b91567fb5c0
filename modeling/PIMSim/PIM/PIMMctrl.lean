import Mathlib.Logic.Relation
import PIMSim.PIM.Coherence

/-!
# The memory side's controller

The controller of the processing-in-memory units takes the page lock of a request and flushes its
block from the host before it hands the request on.

## Main definitions

* `PIMMctrl.transfer`: the memory request of a request
* `PIMMctrl.visit`, `PIMMctrl.step`: what a step does with one request, and one cycle
* `PIMMctrl.Holds`: why a step keeps a request
-/

namespace PIMSim.PIMMctrl

open CSharp

variable {Obj : Type}

/-- The memory request of a processor request. -/
def transfer (info : List (Region Obj)) (req : ProcRequest) : Outcome MemRequest := do
  let address ← MemorySelector.resize info req.actualAddr
  return {
    address := address
    data := 0
    blockAddr := req.blockAddr
    pid := [req.pid]
    stageId := req.stageId
    cycle := req.cycle
    memtype := match req.type with
      | .read => .read
      | .write => .write
      | .flush => .flush
      | .load => .load
      | .store => .store
      | _ => .returnData }

/-- What a step does with one request. The lock is taken whatever its state is, and handed back
when the host still has to write the block. -/
def visit (cfg : Config) (info : List (Region Obj)) (cycle : UInt64)
    (s : Coherence × List (List MemRequest)) (peek : ProcRequest) :
    Outcome ((Coherence × List (List MemRequest)) × Fate) :=
  let (coherence, sendQueue) := s
  if Controller.due cfg cycle peek then
    if cfg.consistencyModel = .spinLock then do
      let lock ← spinLockOf coherence.spinLock
      let lock ← SpinLock.setlock info lock peek.actualAddr
      let (flushed, host) ← Coherence.flush cfg coherence.host peek.blockAddr false
      if !flushed then
        -- the request goes back to the queue, and tries again in the next cycle
        let lock ← SpinLock.releseLock info lock peek.actualAddr
        return (({ coherence with host := host, spinLock := some lock }, sendQueue), .flushing)
      else
        let (sendQueue, fate) ← Controller.place info (transfer info) sendQueue peek
        return (({ coherence with host := host, spinLock := some lock }, sendQueue), fate)
    else
      -- the branch of the other models is missing: the request stays
      .ok (s, .ignored)
  else
    .ok (s, .early)

/-- The hosts that flushes of the memory side make of a host. -/
def Flushes (cfg : Config) : Host → Host → Prop :=
  Relation.ReflTransGen fun host host' =>
    ∃ block flushed, Coherence.flush cfg host block false = .ok (flushed, host')

/-- Why the memory side's controller keeps a request: it is not past its latency, or the flush of
its block was not finished in the host as the flushes of the cycle have left it. -/
def Holds (cfg : Config) (coherence : Coherence) (cycle : UInt64) (req : ProcRequest)
    (fate : Fate) : Prop :=
  fate = .early ∧ Controller.due cfg cycle req = false ∨
    fate = .flushing ∧ ∃ host host', Flushes cfg coherence.host host ∧
      Coherence.flush cfg host req.blockAddr false = .ok (false, host')

/-- One cycle. -/
def step (cfg : Config) (info : List (Region Obj)) (coherence : Coherence) (c : Controller) :
    Outcome (Coherence × Controller) := do
  let cycle := c.cycle + 1
  let ((coherence, sendQueue), waitQueue) ←
    Sweep.scan (visit cfg info cycle) Fate.leaves (coherence, c.sendQueue) c.waitQueue
  return (coherence, { waitQueue, sendQueue, cycle })

/-- What a visit of the memory side's controller does: nothing before the latency is over; else the
lock is set and the block flushed, and the request is placed or its lock handed back. -/
theorem visit_cases {cfg : Config} {info : List (Region Obj)} {cycle : UInt64}
    {s s' : Coherence × List (List MemRequest)} {req : ProcRequest} {fate : Fate}
    (hmodel : cfg.consistencyModel = .spinLock)
    (h : visit cfg info cycle s req = .ok (s', fate)) :
    (Controller.due cfg cycle req = false ∧ s' = s ∧ fate = .early) ∨
      Controller.due cfg cycle req = true ∧ ∃ lock lock' flushed host,
        s.1.spinLock = some lock ∧ SpinLock.setlock info lock req.actualAddr = .ok lock' ∧
        Coherence.flush cfg s.1.host req.blockAddr false = .ok (flushed, host) ∧
        ((flushed = true ∧ s'.1 = { s.1 with host := host, spinLock := some lock' } ∧
            Controller.place info (transfer info) s.2 req = .ok (s'.2, fate)) ∨
          flushed = false ∧ fate = .flushing ∧ s'.2 = s.2 ∧ ∃ lock'',
            SpinLock.releseLock info lock' req.actualAddr = .ok lock'' ∧
            s'.1 = { s.1 with host := host, spinLock := some lock'' }) := by
  obtain ⟨coherence, queues⟩ := s
  unfold visit at h
  by_cases hdue : Controller.due cfg cycle req = true
  · simp only [if_pos hdue, if_pos hmodel, Outcome.bind_eq_ok,
      spinLockOf_eq_ok] at h
    obtain ⟨lock, hl, lock', hset, ⟨flushed, host⟩, hflush, h⟩ := h
    refine .inr ⟨hdue, lock, lock', flushed, host, hl, hset, hflush, ?_⟩
    cases flushed with
    | false =>
      obtain ⟨lock'', hrelese, heq⟩ := Outcome.bind_eq_ok.mp h
      cases heq
      exact .inr ⟨rfl, rfl, rfl, lock'', hrelese, rfl⟩
    | true =>
      obtain ⟨⟨queues', fate'⟩, hplace, heq⟩ := Outcome.bind_eq_ok.mp h
      cases heq
      exact .inl ⟨rfl, rfl, hplace⟩
  · simp only [if_neg hdue] at h
    cases h
    exact .inl ⟨by simpa using hdue, rfl, rfl⟩

/-- A visit leaves a host that flushes make of the one it finds. -/
theorem visit_flushes {cfg : Config} {info : List (Region Obj)} {cycle : UInt64}
    {s s' : Coherence × List (List MemRequest)} {req : ProcRequest} {fate : Fate}
    (h : visit cfg info cycle s req = .ok (s', fate)) : Flushes cfg s.1.host s'.1.host := by
  by_cases hmodel : cfg.consistencyModel = .spinLock
  · rcases visit_cases hmodel h with ⟨-, rfl, -⟩ |
      ⟨-, lock, lock', flushed, host, -, -, hflush, ⟨-, heq, -⟩ | ⟨-, -, -, lock'', -, heq⟩⟩
    · exact .refl
    · rw [heq]
      exact .single ⟨_, _, hflush⟩
    · rw [heq]
      exact .single ⟨_, _, hflush⟩
  · -- the other models touch nothing
    simp only [visit, if_neg hmodel] at h
    split_ifs at h <;> cases h <;> exact .refl

end PIMSim.PIMMctrl
