import PIMSim.PIM.System
import PIMSim.Procs.Issue

/-!
# What a transition does to the host

Every transition of the system is a cycle of one processor, or a sequence of moves that keep the
current requests of the processors.

## Main definitions

* `Host.core`, `Host.put`: one processor taken out of the host, and put back
* `Coherence.flushCalls`, `PIMMctrl.flushCalls`, `System.callbackCalls`: the states in which the
  processors are called
* `Host.Work`: a callback or a flush of one processor
* `Host.Move`: the work of a processor, or a change outside the processors and the caches

## Main results

* `Coherence.flush_works`, `System.hostCallbacks_works`, `PIMMctrl.step_works`: flushes, callbacks
  and steps of the memory side's controller are work of the processors
* `System.step_cases`: a transition is a cycle of a processor, or a sequence of moves
-/

namespace PIMSim

open CSharp Transition

variable {Obj : Type} {cfg : Config} {W : Host → Waiver}

/-! ### Calls -/

/-- The processors from index `i` on that are asked for a flush, each in the state of the host at its
turn. -/
def Coherence.flushCalls (cfg : Config) (addr : UInt64) (actual : Bool) :
    ℕ → ℕ → Host → List (Host × ℕ)
  | 0, _, _ => []
  | n + 1, i, host => (host, i) :: match host.onProc i fun c => c.flush cfg addr actual with
    | .ok (_, host) => flushCalls cfg addr actual n (i + 1) host
    | .error _ => []

/-- The processors that a sweep of the memory side's controller asks for a flush, with the block. -/
def PIMMctrl.flushCalls (cfg : Config) (info : List (Region Obj)) (cycle : UInt64) :
    List ProcRequest → Coherence × List (List MemRequest) → List (UInt64 × Host × ℕ)
  | [], _ => []
  | req :: reqs, s =>
    (if Controller.due cfg cycle req ∧ cfg.consistencyModel = .spinLock then
      (Coherence.flushCalls cfg req.blockAddr false s.1.host.procs.length 0 s.1.host).map
        (Prod.mk req.blockAddr)
    else []) ++
    match visit cfg info cycle s req with
    | .ok (s, _) => flushCalls cfg info cycle reqs s
    | .error _ => []

/-- The processors that a completion calls back, each in the state of the host at its turn. -/
def System.callbackCalls (callback : Core → Outcome Core) : List Int → Host → List (Host × ℕ)
  | [], _ => []
  | pid :: pids, host => (host, pid.toNat) :: match host.run pid callback with
    | .ok host => callbackCalls callback pids host
    | .error _ => []

namespace Host

/-- One processor with what the processors share. -/
def core (host : Host) (proc : Proc) : Core := { proc := proc, world := host.world }

/-- The processor `i` is put back. -/
def put (host : Host) (i : ℕ) (c : Core) : Host where
  procs := host.procs.set i c.proc
  world := c.world
  history := host.history ++ c.acts.map (.core i)

/-- A callback or a flush of one processor: effects that keep its current request, under the waiver
that belongs to the state of the host. -/
inductive Work (cfg : Config) (W : Host → Waiver) : Host → Host → Prop
  | mk {host : Host} {i : ℕ} {proc : Proc} {c : Core} (hproc : host.procs[i]? = some proc)
      (heffects : Core.Effects cfg (W host) (host.core proc) c) (haside : Core.Aside (host.core proc) c) :
      Work cfg W host (host.put i c)

/-- A sequence of callbacks and flushes. -/
def Works (cfg : Config) (W : Host → Waiver) : Host → Host → Prop := Relation.ReflTransGen (Work cfg W)

/-- The work of a processor, or a change outside the processors and the caches. -/
inductive Move (cfg : Config) (W : Host → Waiver) : Host → Host → Prop
  | work {host host' : Host} (h : Work cfg W host host') : Move cfg W host host'
  | written {host : Host} {b : UInt64} :
      Move cfg W host { host with history := host.history ++ [.written b] }
  | unqueue {host : Host} {b : UInt64} : Move cfg W host { host with
      world := { host.world with flushQueue := host.world.flushQueue.erase b } }
  | mctrl {host : Host} {mctrl : Controller} : Move cfg W host { host with
      world := { host.world with mctrl := mctrl } }
  | tick {host : Host} : Move cfg W host { host with
      world := { host.world with tick := host.world.tick + 1 } }

/-- A sequence of moves. -/
def Moves (cfg : Config) (W : Host → Waiver) : Host → Host → Prop := Relation.ReflTransGen (Move cfg W)

theorem Works.refl {host : Host} : Works cfg W host host := Relation.ReflTransGen.refl

theorem Works.trans {host host' host'' : Host} (h : Works cfg W host host')
    (h' : Works cfg W host' host'') : Works cfg W host host'' := Relation.ReflTransGen.trans h h'

theorem Works.moves {host host' : Host} (h : Works cfg W host host') : Moves cfg W host host' :=
  Relation.ReflTransGen.mono (fun _ _ h => .work h) _ _ h

theorem Moves.refl {host : Host} : Moves cfg W host host := Relation.ReflTransGen.refl

theorem Move.moves {host host' : Host} (h : Move cfg W host host') : Moves cfg W host host' :=
  Relation.ReflTransGen.single h

theorem Moves.trans {host host' host'' : Host} (h : Moves cfg W host host')
    (h' : Moves cfg W host' host'') : Moves cfg W host host'' := Relation.ReflTransGen.trans h h'

/-- What every work preserves holds after a sequence of them. -/
theorem Works.invariant {I : Host → Prop} (hwork : ∀ h h', I h → Work cfg W h h' → I h')
    {host host' : Host} (h : Works cfg W host host') (hI : I host) : I host' := by
  induction h with
  | refl => exact hI
  | tail _ hw ih => exact hwork _ _ ih hw

/-- What every move preserves holds after a sequence of them. -/
theorem Moves.invariant {I : Host → Prop} (hmove : ∀ h h', I h → Move cfg W h h' → I h')
    {host host' : Host} (h : Moves cfg W host host') (hI : I host) : I host' := by
  induction h with
  | refl => exact hI
  | tail _ hm ih => exact hmove _ _ ih hm

/-! ### Calls of one processor -/

theorem onProc_eq_ok {α : Type} {host host' : Host} {i : Int} {f : Core → Outcome (α × Core)}
    {r : α} : host.onProc i f = .ok (r, host') ↔ 0 ≤ i ∧ ∃ proc c,
      host.procs[i.toNat]? = some proc ∧ f (host.core proc) = .ok (r, c) ∧
        host' = host.put i.toNat c := by
  simp only [onProc, Outcome.bind_eq_ok, listAt_eq_ok]
  constructor
  · rintro ⟨proc, ⟨hi, hproc⟩, ⟨r', c⟩, hf, heq⟩
    cases heq
    exact ⟨hi, proc, c, hproc, hf, rfl⟩
  · rintro ⟨hi, proc, c, hproc, hf, rfl⟩
    exact ⟨proc, ⟨hi, hproc⟩, (r, c), hf, rfl⟩

theorem run_eq_ok {host host' : Host} {i : Int} {f : Core → Outcome Core} :
    host.run i f = .ok host' ↔ 0 ≤ i ∧ ∃ proc c,
      host.procs[i.toNat]? = some proc ∧ f (host.core proc) = .ok c ∧
        host' = host.put i.toNat c := by
  have hmap : ∀ {α β : Type} (g : α → β) (x : Outcome α) (b : β),
      g <$> x = .ok b ↔ ∃ a, x = .ok a ∧ g a = b := by
    intro α β g x b
    cases x with
    | error e => exact iff_of_false nofun fun ⟨_, h, _⟩ => nomatch h
    | ok a => exact ⟨fun h => ⟨a, rfl, Except.ok.inj h⟩, fun ⟨_, h, hg⟩ => by cases h; rw [← hg]; rfl⟩
  simp only [run, hmap, Prod.exists, onProc_eq_ok]
  constructor
  · rintro ⟨_, host₁, ⟨hi, proc, c, hproc, ⟨c', hc', heq⟩, rfl⟩, rfl⟩
    cases heq
    exact ⟨hi, proc, c, hproc, hc', rfl⟩
  · rintro ⟨hi, proc, c, hproc, hc, rfl⟩
    exact ⟨(), _, ⟨hi, proc, c, hproc, ⟨c, hc, rfl⟩, rfl⟩, rfl⟩

/-- What a processor gives up when it is asked to flush the block is covered. -/
def FlushWaives (cfg : Config) (W : Host → Waiver) (b : UInt64) (call : Host × ℕ) : Prop :=
  ∀ proc ∈ call.1.procs[call.2]?, (call.1.core proc).refuses cfg b = true → (W call.1).refused b

/-- What a processor gives up when the block arrives is covered. -/
def CallbackWaives (cfg : Config) (W : Host → Waiver) (b : UInt64) (call : Host × ℕ) : Prop :=
  ∀ proc ∈ call.1.procs[call.2]?, ∀ v ∈ (call.1.core proc).callbackEvicted cfg b, (W call.1).dropped v

end Host

/-! ### Works -/

/-- The flushes of the processors one after the other. -/
theorem Coherence.flush_works {addr : UInt64} {actual r : Bool} {host host' : Host}
    (hwaives : ∀ call ∈ flushCalls cfg addr actual host.procs.length 0 host,
      Host.FlushWaives cfg W addr call)
    (h : Coherence.flush cfg host addr actual = .ok (r, host')) : Host.Works cfg W host host' := by
  have hfrom : ∀ (n i : ℕ) (stall : Bool) (host : Host),
      (∀ call ∈ flushCalls cfg addr actual n i host, Host.FlushWaives cfg W addr call) →
        flushFrom cfg addr actual n i stall host = .ok (r, host') → Host.Works cfg W host host' := by
    intro n
    induction n with
    | zero =>
      intro i stall host _ h
      cases h
      exact .refl
    | succ n ih =>
      intro i stall host hwaives h
      obtain ⟨⟨stall', host₁⟩, hone, h⟩ := Outcome.bind_eq_ok.mp h
      rw [flushCalls, hone, List.forall_mem_cons] at hwaives
      obtain ⟨-, proc, c, hproc, hflush, rfl⟩ := Host.onProc_eq_ok.mp hone
      have hwork := Host.Work.mk hproc (Core.flush_effects hflush (hwaives.1 proc hproc))
        (Core.flush_aside hflush)
      exact (Relation.ReflTransGen.single hwork).trans (ih _ _ _ hwaives.2 h)
  exact hfrom _ _ _ _ hwaives h

/-- The callbacks of the processors one after the other. -/
theorem System.hostCallbacks_works {fill : RequestType} {callback : CallBackInfo}
    {pids : List Int} {host host' : Host}
    (hwaives : ∀ call ∈ System.callbackCalls (·.handleCallback cfg fill callback) pids host,
      Host.CallbackWaives cfg W callback.blockAddr call)
    (h : System.hostCallbacks (·.handleCallback cfg fill callback) pids host = .ok host') :
    Host.Works cfg W host host' := by
  induction pids generalizing host with
  | nil =>
    cases h
    exact .refl
  | cons pid pids ih =>
    obtain ⟨host₁, hone, h⟩ := Outcome.bind_eq_ok.mp h
    rw [callbackCalls, hone, List.forall_mem_cons] at hwaives
    obtain ⟨-, proc, c, hproc, hcall, rfl⟩ := Host.run_eq_ok.mp hone
    have hwork := Host.Work.mk hproc (Core.callback_effects hcall (hwaives.1 proc hproc))
      (Core.callback_aside hcall)
    exact (Relation.ReflTransGen.single hwork).trans (ih hwaives.2 h)

/-- A step of the memory side's controller flushes blocks from the host. -/
theorem PIMMctrl.step_works {info : List (Region Obj)} {c c' : Coherence}
    {pimMctrl pimMctrl' : Controller}
    (hwaives : ∀ call ∈ flushCalls cfg info (pimMctrl.cycle + 1) pimMctrl.waitQueue
      (c, pimMctrl.sendQueue), Host.FlushWaives cfg W call.1 call.2)
    (h : PIMMctrl.step cfg info c pimMctrl = .ok (c', pimMctrl')) :
    Host.Works cfg W c.host c'.host := by
  obtain ⟨⟨⟨c₁, queues⟩, waiting⟩, hscan, heq⟩ := Outcome.bind_eq_ok.mp h
  cases heq
  obtain ⟨vs, hvs, -⟩ := Sweep.scan_eq_ok.mp hscan
  have hrule := Sweep.visits_rest_rule
    (P := fun (s : Coherence × List (List MemRequest)) reqs => Host.Works cfg W c.host s.1.host ∧
      ∀ call ∈ flushCalls cfg info (pimMctrl.cycle + 1) reqs s,
        Host.FlushWaives cfg W call.1 call.2) ?_ ⟨.refl, hwaives⟩ hvs
  · exact hrule.1
  rintro ⟨c₂, queues₂⟩ req reqs ⟨c₃, queues₃⟩ fate ⟨hworks, hwaives⟩ hvisit
  rw [flushCalls, hvisit, List.forall_mem_append] at hwaives
  refine ⟨hworks.trans ?_, hwaives.2⟩
  by_cases hdue : Controller.due cfg (pimMctrl.cycle + 1) req = true
  · by_cases hmodel : cfg.consistencyModel = .spinLock
    · rcases PIMMctrl.visit_cases hmodel hvisit with ⟨hearly, -, -⟩ |
        ⟨-, lock, lock', flushed, host, -, -, hflush, hcase⟩
      · exact absurd hearly (by simp [hdue])
      · rw [if_pos ⟨hdue, hmodel⟩, List.forall_mem_map] at hwaives
        have hflush' := Coherence.flush_works hwaives.1 hflush
        rcases hcase with ⟨-, hc, -⟩ | ⟨-, -, -, lock'', -, hc⟩ <;> cases hc <;> exact hflush'
    · simp only [visit, if_pos hdue, if_neg hmodel] at hvisit
      cases hvisit
      exact .refl
  · simp only [visit, if_neg hdue] at hvisit
    cases hvisit
    exact .refl

/-- What the callbacks of the memory side preserve one by one holds behind all of them. -/
theorem System.pimCallbacks_invariant {I : Coherence → Prop}
    {onPim : Coherence → PIMProc → Outcome (Coherence × PIMProc)}
    (hone : ∀ c c' p p', I c → onPim c p = .ok (c', p') → I c') {pids : List Int}
    {c c' : Coherence} {units units' : List PIMProc} (hc : I c)
    (h : System.pimCallbacks onPim pids (c, units) = .ok (c', units')) : I c' := by
  induction pids generalizing c units with
  | nil =>
    cases h
    exact hc
  | cons pid pids ih =>
    simp only [System.pimCallbacks, Outcome.bind_eq_ok] at h
    obtain ⟨unit, -, ⟨c₁, unit'⟩, hcall, h⟩ := h
    exact ih (hone c c₁ unit unit' hc hcall) h

theorem System.pimCallbacks_host {onPim : Coherence → PIMProc → Outcome (Coherence × PIMProc)}
    (hone : ∀ c c' p p', onPim c p = .ok (c', p') → c'.host = c.host) {pids : List Int}
    {c c' : Coherence} {units units' : List PIMProc}
    (h : System.pimCallbacks onPim pids (c, units) = .ok (c', units')) : c'.host = c.host :=
  pimCallbacks_invariant (I := fun d => d.host = c.host)
    (fun c₁ c₂ p p' hc hcall => (hone c₁ c₂ p p' hcall).trans hc) rfl h

theorem PIMProc.releseLock_host {info : List (Region Obj)} {c c' : Coherence} {addr : UInt64}
    (h : PIMProc.releseLock info c addr = .ok c') : c'.host = c.host := by
  simp only [PIMProc.releseLock, Outcome.bind_eq_ok] at h
  obtain ⟨lock, -, lock', -, heq⟩ := h
  cases heq
  rfl

theorem PIMProc.readCallback_host {info : List (Region Obj)} {c c' : Coherence} {p p' : PIMProc}
    {callback : CallBackInfo} (h : p.handleReadCallback cfg info c callback = .ok (c', p')) :
    c'.host = c.host := by
  unfold PIMProc.handleReadCallback at h
  split_ifs at h
  · simp only [Outcome.bind_eq_ok] at h
    obtain ⟨c₁, hfirst, p₁, -, c₂, hlast, heq⟩ := h
    cases heq
    exact (releseLock_host hlast).trans (releseLock_host hfirst)
  · simp only [pure_bind, Outcome.bind_eq_ok] at h
    obtain ⟨p₁, -, c₂, hlast, heq⟩ := h
    cases heq
    exact releseLock_host hlast

theorem PIMProc.writeCallback_host {info : List (Region Obj)} {c c' : Coherence} {p p' : PIMProc}
    {callback : CallBackInfo} (h : p.handleWriteCallback cfg info c callback = .ok (c', p')) :
    c'.host = c.host := by
  simp only [PIMProc.handleWriteCallback, Outcome.bind_eq_ok] at h
  obtain ⟨p₁, -, c₂, hlast, heq⟩ := h
  cases heq
  exact releseLock_host hlast

/-! ### Transitions -/

namespace System

variable {info : List (Region Obj)} {s s' : System}

/-- The callbacks of a completion are work of the host's processors, and change nothing else that
the host sees. -/
theorem callBack_works {req : MemRequest} {fill : RequestType} {callback : CallBackInfo}
    {onPim : Coherence → PIMProc → Outcome (Coherence × PIMProc)}
    (hone : ∀ c c' p p', onPim c p = .ok (c', p') → c'.host = c.host)
    (hwaives : req.pim = false →
      ∀ call ∈ callbackCalls (·.handleCallback cfg fill callback) req.pid s.coherence.host,
        Host.CallbackWaives cfg W callback.blockAddr call)
    (h : s.callBack req (·.handleCallback cfg fill callback) onPim = .ok s') :
    Host.Works cfg W s.coherence.host s'.coherence.host ∧ s'.memory = s.memory := by
  unfold callBack at h
  split_ifs at h with hpim
  · simp only [Outcome.bind_eq_ok] at h
    obtain ⟨_, -, ⟨coherence, units⟩, hcall, heq⟩ := h
    cases heq
    refine ⟨?_, rfl⟩
    rw [show coherence.host = s.coherence.host from pimCallbacks_host hone hcall]
    exact .refl
  · simp only [Outcome.bind_eq_ok] at h
    obtain ⟨_, -, host, hcall, heq⟩ := h
    cases heq
    exact ⟨hostCallbacks_works (hwaives (by simpa using hpim)) hcall, rfl⟩

theorem written_moves (s : System) (req : MemRequest) :
    Host.Moves cfg W s.coherence.host (s.written req).coherence.host := by
  unfold written
  split_ifs
  · exact .refl
  · exact Host.Move.written.moves

/-- A completion. -/
theorem finish_moves {req : MemRequest} (h : s.finish cfg info req = .ok s') :
    Host.Moves cfg (fun _ => .all) s.coherence.host s'.coherence.host := by
  unfold finish at h
  dsimp only at h
  have waives : ∀ {fill : RequestType} {s₁ : System}, req.pim = false →
      ∀ call ∈ callbackCalls (·.handleCallback cfg fill (callBackInfo req)) req.pid s₁.coherence.host,
        Host.CallbackWaives cfg (fun _ => .all) (callBackInfo req).blockAddr call :=
    fun _ _ _ _ _ _ _ => trivial
  cases hmemtype : req.memtype <;> rw [hmemtype] at h
  case read =>
    exact (callBack_works (fun _ _ _ _ => PIMProc.readCallback_host) waives h).1.moves
  case write =>
    apply (written_moves s req).trans
    exact (callBack_works (fun _ _ _ _ => PIMProc.writeCallback_host) waives h).1.moves
  case flush =>
    cases h
    exact (written_moves s req).trans Host.Move.unqueue.moves
  case load => cases h
  case store => cases h
  case returnData =>
    cases h
    exact .refl
  case null =>
    cases h
    exact .refl

/-- **A transition** is a cycle of a processor, or a sequence of moves of the host. -/
theorem step_cases {e : Event} (h : System.step cfg info s e = .ok s') :
    (∃ i proc c, e = .procStep i ∧ s.coherence.host.procs[i]? = some proc ∧
      (s.coherence.host.core proc).step cfg = .ok c ∧
        s' = s.withHost (s.coherence.host.put i c)) ∨
      Host.Moves cfg (fun _ => .all) s.coherence.host s'.coherence.host := by
  cases e with
  | procStep i =>
    obtain ⟨host, hrun, heq⟩ := Outcome.bind_eq_ok.mp h
    cases heq
    obtain ⟨-, proc, c, hproc, hstep, rfl⟩ := Host.run_eq_ok.mp hrun
    exact .inl ⟨i, proc, c, rfl, hproc, hstep, rfl⟩
  | mctrlStep =>
    obtain ⟨mctrl, -, heq⟩ := Outcome.bind_eq_ok.mp h
    cases heq
    exact .inr Host.Move.mctrl.moves
  | pimMctrlStep =>
    obtain ⟨⟨coherence, pimMctrl⟩, hstep, heq⟩ := Outcome.bind_eq_ok.mp h
    cases heq
    exact .inr (PIMMctrl.step_works (fun _ _ _ _ _ => trivial) hstep).moves
  | pimAdd req =>
    cases h
    exact .inr .refl
  | take pid =>
    obtain ⟨⟨req, mctrl⟩, -, heq⟩ := Outcome.bind_eq_ok.mp h
    cases heq
    exact .inr Host.Move.mctrl.moves
  | takePim pid =>
    obtain ⟨⟨req, pimMctrl⟩, -, heq⟩ := Outcome.bind_eq_ok.mp h
    cases heq
    exact .inr .refl
  | merge i j =>
    cases h
    unfold merge
    split
    · split_ifs <;> exact .inr .refl
    · exact .inr .refl
  | complete k =>
    simp only [System.step, complete] at h
    split at h
    · cases h
      exact .inr .refl
    · exact .inr (finish_moves (s := { s with memory := s.memory.eraseIdx k }) h)
  | flush addr actual =>
    obtain ⟨⟨stall, host⟩, hflush, heq⟩ := Outcome.bind_eq_ok.mp h
    cases heq
    exact .inr (Coherence.flush_works (fun _ _ _ _ _ => trivial) hflush).moves
  | tick =>
    cases h
    exact .inr Host.Move.tick.moves

end System

end PIMSim
