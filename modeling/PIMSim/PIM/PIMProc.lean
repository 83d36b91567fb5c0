import PIMSim.PIM.Coherence

/-!
# A processor at the memory side

What a processing-in-memory unit does when one of its memory requests completes.

## Main definitions

* `PIMProc`: the fields the callbacks use
* `PIMProc.handleReadCallback`, `PIMProc.handleWriteCallback`: the completion callbacks
-/

namespace PIMSim

open CSharp

variable {Obj : Type}

/-- The fields of a memory-side processor that its callbacks use. -/
structure PIMProc where
  pid : Int
  l1Cache : Cache
  mshr : List ProcRequest := []
  insW : InstructionWindow

namespace PIMProc

/-- A processor whose cache is empty. -/
def fresh : PIMProc where
  pid := 0
  l1Cache := CacheArray.create 1 1
  insW := { ins := [], size := 0 }

/-- The waiting instructions of the block are ready, and the cache is filled. -/
def fill (cfg : Config) (p : PIMProc) (blockAddr : UInt64) : Outcome PIMProc := do
  let p := { p with
    insW := p.insW.setReady blockAddr
    mshr := p.mshr.filter (·.blockAddr ≠ blockAddr) }
  if cfg.pimUseL1Cache then
    let (hit, l1) ← Cache.searchBlock p.l1Cache blockAddr .read
    if !hit then
      let (_, l1) ← Cache.add l1 blockAddr .read p.pid
      return { p with l1Cache := l1 }
    else
      return { p with l1Cache := l1 }
  else
    return p

/-- `Coherence.spin_lock.relese_lock(addr)` -/
def releseLock (info : List (Region Obj)) (coherence : Coherence) (addr : UInt64) :
    Outcome Coherence := do
  let lock ← spinLockOf coherence.spinLock
  let lock ← SpinLock.releseLock info lock addr
  return { coherence with spinLock := some lock }

/-- Read complete callback. The lock is released at the start under a test of the consistency
model, and at the end without one. -/
def handleReadCallback (cfg : Config) (info : List (Region Obj)) (coherence : Coherence)
    (p : PIMProc) (callback : CallBackInfo) : Outcome (Coherence × PIMProc) := do
  let coherence ← if coherence.consistency = .spinLock then
    releseLock info coherence callback.address else pure coherence
  let p ← p.fill cfg callback.blockAddr
  let coherence ← releseLock info coherence callback.address
  return (coherence, p)

/-- Write complete callback. -/
def handleWriteCallback (cfg : Config) (info : List (Region Obj)) (coherence : Coherence)
    (p : PIMProc) (callback : CallBackInfo) : Outcome (Coherence × PIMProc) := do
  let p ← p.fill cfg callback.blockAddr
  let coherence ← releseLock info coherence callback.address
  return (coherence, p)

end PIMProc

end PIMSim
