import PIMSim.General
import PIMSim.Library.Sweep
import PIMSim.PIM.SpinLock

/-!
# The memory controllers

A controller queues processor requests and hands them to the memory objects. The host's and the
memory side's controller share their queues' form, and differ in what a step does with a request.

## Main definitions

* `Controller`: the wait queue, the send queue of each memory object, and the cycle
* `Fate`: what a step does with a waiting request
* `Controller.addToMctrl`, `Controller.getReq`: the calls of the processors and the memory objects
* `Mctrl.transfer`, `Mctrl.step`: the memory request of a request, and one cycle of the host's
  controller
-/

namespace PIMSim

open CSharp

variable {Obj : Type}

/-- A memory controller. -/
structure Controller where
  waitQueue : List ProcRequest := []
  sendQueue : List (List MemRequest) := []
  cycle : UInt64 := 0

/-- What a step does with a waiting request: it is not past its latency, its consistency model has
no branch, its page is locked, the host has not flushed its block, or it is placed on a send
queue. -/
inductive Fate
  | early
  | ignored
  | locked
  | flushing
  | placed (queue : ℕ) (req : MemRequest)
deriving DecidableEq

namespace Fate

/-- Whether the request leaves the wait queue. -/
def leaves : Fate → Bool
  | placed _ _ => true
  | _ => false

end Fate

namespace Controller

/-- The controller for `n` memory objects. -/
def init (n : ℕ) : Controller := { sendQueue := List.replicate n [] }

/-- A request is queued, unless the wait queue is full. -/
def addToMctrl (cfg : Config) (c : Controller) (req : ProcRequest) : Bool × Controller :=
  if cfg.crtlQueueMax - 1 < c.waitQueue.length then (false, c)
  else (true, { c with waitQueue := c.waitQueue ++ [req] })

/-- A memory object fetches its next request. -/
def getReq (pim : Bool) (c : Controller) (pid : Int) : Outcome (Option MemRequest × Controller) := do
  match ← listAt c.sendQueue pid with
  | [] => return (none, c)
  | req :: queue =>
    return (some { req with pim := pim }, { c with sendQueue := c.sendQueue.set pid.toNat queue })

/-- A request is past its latency. -/
def due (cfg : Config) (cycle : UInt64) (peek : ProcRequest) : Bool :=
  peek.cycle + UInt64.ofInt cfg.mcLatency ≤ cycle - 1

/-- `send_queue[MemorySelector.get_id(a)].Enqueue(transfer(req))` -/
def place (info : List (Region Obj)) (transfer : ProcRequest → Outcome MemRequest)
    (sendQueue : List (List MemRequest)) (req : ProcRequest) :
    Outcome (List (List MemRequest) × Fate) := do
  let id ← MemorySelector.getId info req.actualAddr
  let queue ← listAt sendQueue id
  let trans ← transfer req
  return (sendQueue.set id.toNat (queue ++ [trans]), .placed id.toNat trans)

theorem addToMctrl_eq (cfg : Config) (c : Controller) (req : ProcRequest) :
    c.addToMctrl cfg req = (false, c) ∨
      c.addToMctrl cfg req = (true, { c with waitQueue := c.waitQueue ++ [req] }) := by
  unfold addToMctrl
  split_ifs
  · exact .inl rfl
  · exact .inr rfl

/-- The address selects one of `n` memory objects. -/
def Routable (info : List (Region Obj)) (n : ℕ) (addr : UInt64) : Prop :=
  ∃ k : ℕ, MemorySelector.getId info addr = .ok (k : Int) ∧ k < n

theorem place_eq_ok {info : List (Region Obj)}
    {transfer : ProcRequest → Outcome MemRequest} {queues queues' : List (List MemRequest)}
    {req : ProcRequest} {fate : Fate}
    (h : place info transfer queues req = .ok (queues', fate)) :
    ∃ k m queue, fate = .placed k m ∧ MemorySelector.getId info req.actualAddr = .ok (k : Int) ∧
      transfer req = .ok m ∧ queues[k]? = some queue ∧ queues' = queues.set k (queue ++ [m]) := by
  simp only [place, Outcome.bind_eq_ok] at h
  obtain ⟨id, hid, queue, hqueue, m, hm, heq⟩ := h
  obtain ⟨hnn, hget⟩ := listAt_eq_ok.mp hqueue
  cases heq
  exact ⟨id.toNat, m, queue, rfl, by rw [hid, Int.toNat_of_nonneg hnn], hm, hget, rfl⟩

/-- A request is placed when its address selects a memory object. -/
theorem place_returns {info : List (Region Obj)} {transfer : ProcRequest → Outcome MemRequest}
    {queues : List (List MemRequest)} {req : ProcRequest} {m : MemRequest}
    (h : Routable info queues.length req.actualAddr) (hm : transfer req = .ok m) :
    ∃ queues' k, place info transfer queues req = .ok (queues', .placed k m) := by
  obtain ⟨k, hid, hk⟩ := h
  have hat : listAt queues (k : Int) = .ok (queues.get ⟨k, hk⟩) :=
    listAt_natCast.mpr (List.getElem?_eq_getElem hk)
  refine ⟨queues.set k (queues.get ⟨k, hk⟩ ++ [m]), k, ?_⟩
  simp only [place, hid, hat, hm, Outcome.ok_bind]
  rfl

theorem Routable.of_place {info : List (Region Obj)} {transfer : ProcRequest → Outcome MemRequest}
    {queues queues' : List (List MemRequest)} {req : ProcRequest} {fate : Fate}
    (h : place info transfer queues req = .ok (queues', fate)) :
    Routable info queues.length req.actualAddr := by
  obtain ⟨k, m, queue, -, hid, -, hget, -⟩ := place_eq_ok h
  exact ⟨k, hid, (List.getElem?_eq_some_iff.mp hget).1⟩

theorem length_of_place {info : List (Region Obj)} {transfer : ProcRequest → Outcome MemRequest}
    {queues queues' : List (List MemRequest)} {req : ProcRequest} {fate : Fate}
    (h : place info transfer queues req = .ok (queues', fate)) :
    queues'.length = queues.length := by
  obtain ⟨k, m, queue, -, -, -, -, rfl⟩ := place_eq_ok h
  exact List.length_set

end Controller

/-- `Coherence.spin_lock`, which is null unless the consistency model is the spin lock. -/
def spinLockOf (lock : Option SpinLock) : Outcome SpinLock :=
  match lock with
  | some lock => .ok lock
  | none => .error .nullReference

theorem spinLockOf_eq_ok {lock : Option SpinLock} {l : SpinLock} :
    spinLockOf lock = .ok l ↔ lock = some l := by
  cases lock <;> simp [spinLockOf]

namespace Mctrl

/-- The memory request of a processor request. -/
def transfer (info : List (Region Obj)) (req : ProcRequest) : Outcome MemRequest := do
  let address ← MemorySelector.resize info req.actualAddr
  return {
    address := address
    data := 0
    blockAddr := req.blockAddr
    pid := [req.pid]
    cycle := req.cycle
    memtype := match req.type with
      | .read => .read
      | .write => .write
      | .flush => .flush
      | _ => .returnData }

/-- What a step does with one request. -/
def visit (cfg : Config) (info : List (Region Obj)) (lock : Option SpinLock) (cycle : UInt64)
    (sendQueue : List (List MemRequest)) (peek : ProcRequest) :
    Outcome (List (List MemRequest) × Fate) :=
  if Controller.due cfg cycle peek then
    if cfg.consistencyModel = .spinLock then do
      let lock ← spinLockOf lock
      let locked ← SpinLock.getLockState info lock peek.actualAddr
      if !locked then
        Controller.place info (transfer info) sendQueue peek
      else
        return (sendQueue, .locked)
    else
      -- the branch of the other models is missing: the request stays
      .ok (sendQueue, .ignored)
  else
    .ok (sendQueue, .early)

/-- Why the host's controller keeps a request: it is not past its latency, or its page is locked. -/
def Holds (cfg : Config) (info : List (Region Obj)) (lock : Option SpinLock)
    (cycle : UInt64) (req : ProcRequest) (fate : Fate) : Prop :=
  fate = .early ∧ Controller.due cfg cycle req = false ∨
    fate = .locked ∧ ∃ l, lock = some l ∧ SpinLock.getLockState info l req.actualAddr = .ok true

/-- One cycle. -/
def step (cfg : Config) (info : List (Region Obj)) (lock : Option SpinLock) (c : Controller) :
    Outcome Controller := do
  let cycle := c.cycle + 1
  let (sendQueue, waitQueue) ←
    Sweep.scan (visit cfg info lock cycle) Fate.leaves c.sendQueue c.waitQueue
  return { waitQueue, sendQueue, cycle }

/-- What a visit does: nothing before the latency is over; else the request is placed, or kept when
its page is locked. -/
theorem visit_cases {cfg : Config} {info : List (Region Obj)} {lock : Option SpinLock}
    {cycle : UInt64} {queues queues' : List (List MemRequest)} {req : ProcRequest} {fate : Fate}
    (hmodel : cfg.consistencyModel = .spinLock)
    (h : visit cfg info lock cycle queues req = .ok (queues', fate)) :
    (Controller.due cfg cycle req = false ∧ queues' = queues ∧ fate = .early) ∨
      Controller.due cfg cycle req = true ∧ ∃ l locked, lock = some l ∧
        SpinLock.getLockState info l req.actualAddr = .ok locked ∧
        ((locked = true ∧ queues' = queues ∧ fate = .locked) ∨
          locked = false ∧
            Controller.place info (transfer info) queues req = .ok (queues', fate)) := by
  unfold visit at h
  by_cases hdue : Controller.due cfg cycle req = true
  · simp only [if_pos hdue, if_pos hmodel, Outcome.bind_eq_ok, spinLockOf_eq_ok] at h
    obtain ⟨l, hl, locked, hlocked, h⟩ := h
    refine .inr ⟨hdue, l, locked, hl, hlocked, ?_⟩
    cases locked with
    | false => exact .inr ⟨rfl, h⟩
    | true =>
      cases h
      exact .inl ⟨rfl, rfl, rfl⟩
  · rw [if_neg hdue] at h
    cases h
    exact .inl ⟨by simpa using hdue, rfl, rfl⟩

end Mctrl

end PIMSim
