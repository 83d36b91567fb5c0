import PIMSim.PIM.Moves

/-!
# The requests of the host's processors

Between two instructions a processor queues the memory instruction in the window and sends its
request, once each, unless a cache or the window answers it. A request that the controller refuses
is not sent again: the retry registers it in the miss registers a second time and moves on.

## Main definitions

* `actsOf`: the acts of one processor in the record of a run
* `KeepsUp`: a cycle does not come to the branches where the request is lost

## Main results

* `conserved_step`: a transition that keeps up conserves the requests of every processor
* `requests_conserved`: so does every run of such transitions
-/

namespace PIMSim

open CSharp Transition

variable {Obj : Type} {cfg : Config} {W : Host → Waiver} {info : List (Region Obj)}

/-- The acts of the processor `i`. -/
def actsOf (i : ℕ) (history : List Record) : List Act :=
  history.filterMap fun
    | .core j a => if j = i then some a else none
    | .written _ => none

/-- A cycle of a processor that comes to the issue or the retry of its current request keeps up
with it. -/
def KeepsUp (cfg : Config) (s : System) : Event → Prop
  | .procStep i => match s.coherence.host.procs[i]? with
    | none => True
    | some proc => match (s.coherence.host.core proc).arrive cfg with
      | .ok (true, c) => c.keepsUp cfg = true
      | _ => True
  | _ => True

instance (cfg : Config) (s : System) (e : Event) : Decidable (KeepsUp cfg s e) := by
  unfold KeepsUp
  split
  · split
    · infer_instance
    · split <;> infer_instance
  · infer_instance

theorem KeepsUp.keepsUp {s : System} {i : ℕ} {proc : Proc} (h : KeepsUp cfg s (.procStep i))
    (hproc : s.coherence.host.procs[i]? = some proc) :
    ∀ c, (s.coherence.host.core proc).arrive cfg = .ok (true, c) → c.keepsUp cfg = true := by
  intro c harrive
  simp only [KeepsUp, hproc, harrive] at h
  exact h

theorem actsOf_append (i : ℕ) (history history' : List Record) :
    actsOf i (history ++ history') = actsOf i history ++ actsOf i history' :=
  List.filterMap_append

theorem actsOf_core (i j : ℕ) (as : List Act) :
    actsOf i (as.map (.core j)) = if j = i then as else [] := by
  unfold actsOf
  rw [List.filterMap_map]
  split_ifs with hij
  · simp [hij]
  · simp [hij]

/-- The processors keep their requests and instructions together, none retries a refused request,
and their records are of served instructions. -/
structure Conserved (host : Host) : Prop where
  procs : ∀ proc ∈ host.procs, (host.core proc).Paired ∧ proc.mctrlRetry = false
  served : ∀ i, ServedRun (actsOf i host.history)

/-- A processor that conserves its instructions is put back. -/
theorem Conserved.put {host : Host} {i : ℕ} {proc : Proc} {c : Core} (h : Conserved host)
    (hproc : host.procs[i]? = some proc) (hpair : c.Paired)
    (hconserving : Core.Conserving (host.core proc) c) : Conserved (host.put i c) := by
  obtain ⟨hretry, as, has, hserved⟩ := hconserving
  have hacts : c.acts = as := by simpa [Host.core] using has
  refine ⟨fun p hp => ?_, fun j => ?_⟩
  · rcases List.mem_or_eq_of_mem_set hp with hp | rfl
    · exact h.procs p hp
    · exact ⟨hpair, hretry (h.procs proc (List.mem_of_getElem? hproc)).2⟩
  · show ServedRun (actsOf j (host.history ++ c.acts.map (.core i)))
    rw [actsOf_append, actsOf_core, hacts]
    apply (h.served j).append
    split_ifs
    · exact hserved
    · exact .nil

theorem Conserved.move {host host' : Host} (h : Conserved host) (hmove : Host.Move cfg W host host') :
    Conserved host' := by
  cases hmove with
  | work hwork =>
    obtain ⟨hproc, heffects, haside⟩ := hwork
    have hpair := (h.procs _ (List.mem_of_getElem? hproc)).1
    exact h.put hproc (haside.paired hpair) haside.conserving
  | @written b =>
    refine ⟨h.procs, fun i => ?_⟩
    have hnone : actsOf i [.written b] = [] := rfl
    rw [actsOf_append, hnone, List.append_nil]
    exact h.served i
  | unqueue => exact ⟨h.procs, h.served⟩
  | mctrl => exact ⟨h.procs, h.served⟩
  | tick => exact ⟨h.procs, h.served⟩

/-- **A transition that keeps up** conserves the requests. -/
theorem conserved_step {s s' : System} {e : Event} (h : Conserved s.coherence.host)
    (hkeeps : KeepsUp cfg s e) (hs : System.step cfg info s e = .ok s') :
    Conserved s'.coherence.host := by
  rcases System.step_cases hs with ⟨i, proc, c, rfl, hproc, hstep, rfl⟩ | hmoves
  · have hpair := (h.procs proc (List.mem_of_getElem? hproc)).1
    have hpassage := Core.step_passage hpair Core.waives_all hstep
    exact h.put hproc hpassage.paired (hpassage.conserving (hkeeps.keepsUp hproc))
  · exact hmoves.invariant (fun _ _ h hmove => h.move hmove) h

theorem conserved_init {P : Platform Obj} {s : System} (h : System.init cfg P = .ok s) :
    Conserved s.coherence.host := by
  have hhost : s.coherence.host = P.host cfg := by
    obtain ⟨coherence, hc, heq⟩ := Outcome.bind_eq_ok.mp h
    cases heq
    unfold Coherence.init at hc
    split_ifs at hc
    · obtain ⟨lock, -, heq⟩ := Outcome.bind_eq_ok.mp hc
      cases heq
      rfl
    · cases hc
      rfl
  rw [hhost]
  refine ⟨fun proc hproc => ?_, fun i => .nil⟩
  obtain ⟨i, hi, rfl⟩ := List.mem_mapIdx.mp hproc
  exact ⟨rfl, rfl⟩

/-- **Requests are conserved in every run** whose cycles keep up with them: a memory instruction
without a hit is queued in the window once, and its request is sent once, before the processor moves
on. -/
theorem requests_conserved (P : Platform Obj) {s₀ s : System} {es : List Event}
    (hinit : System.init cfg P = .ok s₀)
    (hkeeps : Along (System.step cfg P.memory) (KeepsUp cfg) s₀ es)
    (h : exec (System.step cfg P.memory) s₀ es = .ok s) :
    ∀ i, AllServed [] (actsOf i s.coherence.host.history) := fun i =>
  ((exec_along (I := fun s => Conserved s.coherence.host)
    (fun _ _ _ hI hgood hstep => conserved_step hI hgood hstep) (conserved_init hinit) hkeeps
    h).served i).allServed

/-- One processor that reads two blocks. -/
def twoReads : List (List Input) :=
  [[.instruction { type := .read, address := 64, isMem := true },
    .instruction { type := .read, address := 128, isMem := true }]]

/-- Both requests are sent. -/
theorem requests_conserved_two_reads : ∃ s,
    exec (System.step {} oneObject) (smallSystem {} twoReads) [.procStep 0, .procStep 0] = .ok s ∧
      (sends (actsOf 0 s.coherence.host.history)).map (·.blockAddr) = [64, 128] ∧
      ∀ i, AllServed [] (actsOf i s.coherence.host.history) := by
  have hrun : (exec (System.step {} oneObject) (smallSystem {} twoReads)
      [.procStep 0, .procStep 0]).map
        (fun s => (sends (actsOf 0 s.coherence.host.history)).map (·.blockAddr)) =
          .ok [64, 128] := by decide +kernel
  obtain ⟨s, hs, hsends⟩ := Outcome.exists_of_map_eq_ok hrun
  refine ⟨s, hs, hsends, requests_conserved (smallPlatform twoReads) ?_ ?_ hs⟩
  · exact init_smallPlatform rfl rfl twoReads
  · decide +kernel

/-- A controller that holds one request refuses the second. The retry queues the instruction in the
window again, and the processor moves on without sending the request. -/
theorem not_conserves_refused_read :
    ¬ ∀ s, exec (System.step { crtlQueueMax := 1 } oneObject)
      (smallSystem { crtlQueueMax := 1 } twoReads) [.procStep 0, .procStep 0, .procStep 0] = .ok s →
        ∀ i, AllServed [] (actsOf i s.coherence.host.history) := by
  intro h
  have hrun : (exec (System.step { crtlQueueMax := 1 } oneObject)
      (smallSystem { crtlQueueMax := 1 } twoReads) [.procStep 0, .procStep 0, .procStep 0]).map
        (fun s => decide (AllServed [] (actsOf 0 s.coherence.host.history))) = .ok false := by
    decide +kernel
  obtain ⟨s, hs, hlost⟩ := Outcome.exists_of_map_eq_ok hrun
  exact absurd (h s hs 0) (of_decide_eq_false hlost)

end PIMSim
