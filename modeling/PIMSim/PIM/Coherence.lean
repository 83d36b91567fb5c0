import PIMSim.Procs.Proc

/-!
# The host under the coherence component

All host processors with what they share, and the coherence component that flushes blocks out of
them.

## Main definitions

* `Host`: the processors, what they share, and the record of what they did
* `Host.onProc`: one processor does something
* `Coherence`, `Coherence.init`, `Coherence.flush`: the coherence component and the flush of a block
  from all processors
-/

namespace PIMSim

open CSharp

variable {Obj : Type}

/-- What happens in a run: a processor does something, or a write of a block reaches its memory
object. -/
inductive Record
  | core (i : ℕ) (act : Act)
  | written (block : UInt64)
deriving DecidableEq

/-- The processors, what they share, and the record of what happened. -/
structure Host where
  procs : List Proc
  world : World
  history : List Record := []

namespace Host

/-- The processor `i` does something, from an index of the source. -/
def onProc {α : Type} (host : Host) (i : Int) (f : Core → Outcome (α × Core)) :
    Outcome (α × Host) := do
  let proc ← listAt host.procs i
  let (res, c) ← f { proc := proc, world := host.world }
  return (res, {
    procs := host.procs.set i.toNat c.proc
    world := c.world
    history := host.history ++ c.acts.map (.core i.toNat) })

/-- The processor `i` does something without an answer. -/
def run (host : Host) (i : Int) (f : Core → Outcome Core) : Outcome Host :=
  Prod.snd <$> host.onProc i fun c => Prod.mk () <$> f c

end Host

/-- The static fields of `Coherence`. -/
structure Coherence where
  host : Host
  spinLock : Option SpinLock := none
  consistency : Consistency

namespace Coherence

/-- The spin lock exists when the consistency model asks for it. -/
def init (cfg : Config) (info : List (Region Obj)) (host : Host) : Outcome Coherence :=
  if cfg.consistencyModel = .spinLock then do
    let lock ← SpinLock.create info cfg.pageSize
    return { host := host, spinLock := some lock, consistency := cfg.consistencyModel }
  else
    .ok { host := host, consistency := cfg.consistencyModel }

/-- The component is as `init` leaves it: it has a spin lock when the model asks for one. -/
def Initialised (cfg : Config) (c : Coherence) : Prop :=
  c.consistency = cfg.consistencyModel ∧
    (c.spinLock.isSome ↔ cfg.consistencyModel = .spinLock)

theorem initialised_init {cfg : Config} {info : List (Region Obj)} {host : Host} {c : Coherence}
    (h : init cfg info host = .ok c) : c.Initialised cfg := by
  unfold init at h
  split_ifs at h with hmodel
  · obtain ⟨lock, -, heq⟩ := Outcome.bind_eq_ok.mp h
    cases heq
    exact ⟨rfl, by simp [hmodel]⟩
  · cases h
    exact ⟨rfl, by simp [hmodel]⟩

/-- The loop of `flush` over the processors from index `i`: the answer is the last processor's. -/
def flushFrom (cfg : Config) (addr : UInt64) (actual : Bool) :
    ℕ → ℕ → Bool → Host → Outcome (Bool × Host)
  | 0, _, stall, host => .ok (stall, host)
  | n + 1, i, _, host => do
    let (stall, host) ← host.onProc i fun c => c.flush cfg addr actual
    flushFrom cfg addr actual n (i + 1) stall host

/-- A block is flushed from all processors. -/
def flush (cfg : Config) (host : Host) (addr : UInt64) (actual : Bool) : Outcome (Bool × Host) :=
  flushFrom cfg addr actual host.procs.length 0 true host

end Coherence

end PIMSim
