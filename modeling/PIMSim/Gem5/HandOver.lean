import Mathlib.Data.Nat.Log
import Mathlib.Logic.Function.Basic
import PIMSim.Gem5.AbstractMemory

/-!
# Handing threads to the processors of the memory

A host hands the thread it runs to a processor of the memory, which takes over its contexts, and that
processor hands it back to the host whose number it keeps. Nothing looks at what the processor of the
memory is running.

## Main definitions

* `Processor`, `HandOverSystem`: the processors, and the record of what was handed over
* `HandOverSystem.PIMProcess`, `HandOverSystem.HostProcess`: the two instructions
* `ownStep`: who may hand over what to whom
* `AtMostOnce`: no thread is active on two processors
* `Free`: the host runs its thread 0, and the processor of the memory runs nothing

## Main results

* `handed_over`: in every run whose hand-overs meet the condition, no thread is active on two
  processors and each thread is handed back to its host
-/

namespace PIMSim.Gem5

open Cpp Transition

/-- The statuses of a thread context. -/
inductive ThreadStatus
  | active
  | suspended
  | halted
deriving DecidableEq, Repr

/-- A thread context: its process, the identifier of the thread it holds, and its status. -/
structure ThreadContext where
  process : ℕ
  contextId : ℕ
  status : ThreadStatus
deriving DecidableEq, Repr

/-- A processor. -/
structure Processor where
  threadContexts : List ThreadContext
  activeThreads : List ℕ
  host_id : ℕ
deriving DecidableEq, Repr

namespace Processor

variable (model : CPUModel) (cpu : Processor)

/-- The identifiers of the threads that the contexts hold. -/
def contextIds : List ℕ := cpu.threadContexts.map (·.contextId)

def activateContext (thread_num : ℕ) : Outcome Processor := do
  let _ ← assert (thread_num < cpu.threadContexts.length)
  return { cpu with activeThreads :=
    if thread_num ∈ cpu.activeThreads then cpu.activeThreads
    else cpu.activeThreads ++ [thread_num] }

/-- The context of the executing thread `t` is halted; the out-of-order model takes its identifier for
the thread's number. -/
def haltContext (t : ℕ) : Outcome Processor :=
  match model with
  | .timingSimpleCPU => do
    let _ ← assert (t < cpu.threadContexts.length)
    return { cpu with activeThreads := cpu.activeThreads.filter (· ≠ t) }
  | .fullO3CPU => do
    let tc ← vectorAt "haltContext" cpu.threadContexts t
    return { cpu with activeThreads := cpu.activeThreads.erase tc.contextId }

/-- The processor takes over the contexts of another one, which halt there. -/
def takeOverFrom (oldCPU : Processor) : Outcome (Processor × Processor) := do
  let _ ← assert (cpu.threadContexts.length = oldCPU.threadContexts.length)
  let _ ← assert (cpu.threadContexts.map (·.process) = oldCPU.threadContexts.map (·.process))
  return ({ cpu with threadContexts := oldCPU.threadContexts },
    { oldCPU with threadContexts :=
        oldCPU.threadContexts.map fun tc => { tc with status := .halted } })

end Processor

/-- The processor of `n` ones with a number in its name. One alone has no number, and numbers are padded
to one width. -/
def findNumbered (n id : ℕ) : Option ℕ :=
  if n = 1 then some 0
  else if id < n ∧ Nat.log 10 id = Nat.log 10 (n - 1) then some id
  else none

/-- What was handed over: the thread that a host handed to a processor of the memory, and the thread
that this processor handed to a host. -/
inductive HandOver
  | offload (host pim context : ℕ)
  | resume (pim host context : ℕ)
deriving DecidableEq, Repr

/-- The hosts, the processors of the memory, and what was handed over. -/
structure HandOverSystem where
  model : CPUModel
  cpus : List Processor
  pim_cpus : List Processor
  history : List HandOver
deriving DecidableEq, Repr

/-- A host or a processor of the memory. -/
inductive Location
  | host (i : ℕ)
  | pim (p : ℕ)
deriving DecidableEq, Repr

/-- A thread of a processor executes one of the two instructions. -/
inductive HandOverEvent
  | PIMProcess (l : Location) (t pim_id : ℕ)
  | HostProcess (l : Location) (t : ℕ)
deriving DecidableEq, Repr

namespace HandOverSystem

variable (s : HandOverSystem)

/-- The processor at a location. -/
def processor : Location → Option Processor
  | .host i => s.cpus[i]?
  | .pim p => s.pim_cpus[p]?

/-- A processor of the memory goes on; a host hands its contexts to one. -/
def PIMProcess (l : Location) (t pim_id : ℕ) : Outcome HandOverSystem :=
  match l with
  | .pim _ => return s
  | .host i =>
    match findNumbered s.pim_cpus.length pim_id with
    | none => .error .fatal
    | some p => do
      let host ← vectorAt "system" s.cpus i
      let pim ← vectorAt "system" s.pim_cpus p
      let (pim, host) ← pim.takeOverFrom host
      let host ← host.haltContext s.model t
      let pim ← { pim with host_id := i }.activateContext 0
      let tc ← vectorAt "PIMProcess" host.threadContexts t
      return { s with
        cpus := s.cpus.set i host
        pim_cpus := s.pim_cpus.set p pim
        history := s.history ++ [.offload i p tc.contextId] }

/-- A processor of the memory hands its contexts to the host whose number it keeps. -/
def HostProcess (l : Location) (t : ℕ) : Outcome HandOverSystem :=
  match l with
  | .host _ => .error .assertion
  | .pim p => do
    let pim ← vectorAt "system" s.pim_cpus p
    match findNumbered s.cpus.length pim.host_id with
    | none => .error .fatal
    | some i => do
      let host ← vectorAt "system" s.cpus i
      let (host, pim) ← host.takeOverFrom pim
      let pim ← pim.haltContext s.model t
      let host ← host.activateContext 0
      let tc ← vectorAt "HostProcess" host.threadContexts 0
      return { s with
        cpus := s.cpus.set i host
        pim_cpus := s.pim_cpus.set p pim
        history := s.history ++ [.resume p i tc.contextId] }

/-- An active thread executes the instruction. -/
def Possible : HandOverEvent → Prop
  | .PIMProcess l t _ | .HostProcess l t => ∃ cpu ∈ s.processor l, t ∈ cpu.activeThreads

instance : ∀ e, Decidable (s.Possible e)
  | .PIMProcess l t _ | .HostProcess l t =>
    inferInstanceAs (Decidable (∃ cpu ∈ s.processor l, t ∈ cpu.activeThreads))

/-- One instruction. -/
def step : HandOverEvent → Outcome HandOverSystem
  | .PIMProcess l t pim_id => s.PIMProcess l t pim_id
  | .HostProcess l t => s.HostProcess l t

/-! ### Who holds what -/

/-- A processor of the memory that holds nothing is handed a thread, and it hands this thread back to the
same host. -/
def ownStep (holder : ℕ → Option (ℕ × ℕ)) : HandOver → Outcome (ℕ → Option (ℕ × ℕ))
  | .offload host pim context => do
    let _ ← assert (holder pim = none)
    return Function.update holder pim (some (host, context))
  | .resume pim host context => do
    let _ ← assert (holder pim = some (host, context))
    return Function.update holder pim none

/-- The thread with an identifier is active on the processor at a location. -/
def Runs (l : Location) (t context : ℕ) : Prop :=
  ∃ cpu, s.processor l = some cpu ∧ t ∈ cpu.activeThreads ∧ cpu.contextIds[t]? = some context

/-- No thread is active on two processors. -/
def AtMostOnce : Prop :=
  ∀ l l' t t' context, s.Runs l t context → s.Runs l' t' context → l = l'

/-- A host executes the instruction on its thread 0, which is the one that its model halts, and the
processor of the memory runs no thread. -/
def Free : HandOverEvent → Prop
  | .PIMProcess (.host i) t pim_id => t = 0 ∧
      (s.model = .fullO3CPU → ∀ host ∈ s.cpus[i]?, host.contextIds[0]? = some 0) ∧
      ∀ p ∈ findNumbered s.pim_cpus.length pim_id, ∀ pim ∈ s.pim_cpus[p]?, pim.activeThreads = []
  | _ => True

instance : ∀ e, Decidable (s.Free e)
  | .PIMProcess (.host i) t pim_id => inferInstanceAs (Decidable (t = 0 ∧
      (s.model = .fullO3CPU → ∀ host ∈ s.cpus[i]?, host.contextIds[0]? = some 0) ∧
      ∀ p ∈ findNumbered s.pim_cpus.length pim_id, ∀ pim ∈ s.pim_cpus[p]?, pim.activeThreads = []))
  | .PIMProcess (.pim _) _ _ | .HostProcess _ _ => .isTrue trivial

/-- An identifier is in one list and at one place. -/
def Distinct (contexts : List (List ℕ)) : Prop :=
  ∀ (i i' t t' : ℕ) (a a' : List ℕ) (context : ℕ), contexts[i]? = some a →
    contexts[i']? = some a' → a[t]? = some context → a'[t']? = some context → i = i' ∧ t = t'

/-- Nothing was handed over: the hosts' contexts hold different threads, and the processors of the
memory run none. -/
structure Fresh : Prop where
  distinct : Distinct (s.cpus.map Processor.contextIds)
  nodup : ∀ host ∈ s.cpus, host.activeThreads.Nodup
  inactive : ∀ pim ∈ s.pim_cpus, pim.activeThreads = []
  history : s.history = []

end HandOverSystem

/-! ### The functions of a processor -/

namespace Processor

variable {model : CPUModel} {cpu cpu' old old' : Processor} {t : ℕ}

theorem takeOverFrom_eq_ok (h : cpu.takeOverFrom old = .ok (cpu', old')) :
    cpu' = { cpu with threadContexts := old.threadContexts } ∧ old'.activeThreads = old.activeThreads ∧
      old'.contextIds = old.contextIds ∧ old'.host_id = old.host_id := by
  obtain ⟨_, -, h⟩ := Outcome.bind_eq_ok.mp h
  obtain ⟨_, -, h⟩ := Outcome.bind_eq_ok.mp h
  cases h
  refine ⟨rfl, rfl, ?_, rfl⟩
  simp [contextIds, Function.comp_def]

/-- Halting the thread 0 that the model takes for it deactivates this thread and no other. -/
theorem haltContext_eq_ok (h : cpu.haltContext model 0 = .ok cpu')
    (hcontext : model = .fullO3CPU → cpu.contextIds[0]? = some 0) (hnodup : cpu.activeThreads.Nodup) :
    cpu'.threadContexts = cpu.threadContexts ∧ cpu'.host_id = cpu.host_id ∧
      cpu'.activeThreads.Nodup ∧ ∀ t, t ∈ cpu'.activeThreads ↔ t ∈ cpu.activeThreads ∧ t ≠ 0 := by
  cases model with
  | timingSimpleCPU =>
    obtain ⟨_, -, h⟩ := Outcome.bind_eq_ok.mp h
    cases h
    exact ⟨rfl, rfl, hnodup.filter _, by simp⟩
  | fullO3CPU =>
    obtain ⟨tc, htc, h⟩ := Outcome.bind_eq_ok.mp h
    have hzero : tc.contextId = 0 := by
      have hcontext := hcontext rfl
      rw [contextIds, List.getElem?_map, vectorAt_eq_ok.mp htc] at hcontext
      exact Option.some.inj hcontext
    cases h
    refine ⟨rfl, rfl, hnodup.erase _, ?_⟩
    intro t
    rw [hzero, hnodup.mem_erase_iff]
    exact and_comm

theorem activateContext_eq_ok (h : cpu.activateContext t = .ok cpu') :
    cpu'.threadContexts = cpu.threadContexts ∧ cpu'.host_id = cpu.host_id ∧
      cpu'.activeThreads =
        if t ∈ cpu.activeThreads then cpu.activeThreads else cpu.activeThreads ++ [t] := by
  obtain ⟨_, -, h⟩ := Outcome.bind_eq_ok.mp h
  cases h
  exact ⟨rfl, rfl, rfl⟩

theorem contextIds_congr (h : cpu'.threadContexts = cpu.threadContexts) :
    cpu'.contextIds = cpu.contextIds := by
  rw [contextIds, contextIds, h]

end Processor

theorem findNumbered_eq_some {n id i : ℕ} (h : findNumbered n id = some i) (hid : id < n) :
    i = id := by
  unfold findNumbered at h
  split_ifs at h with hone
  · have hzero : i = 0 := (Option.some.inj h).symm
    omega
  · exact (Option.some.inj h).symm

/-! ### The invariant -/

namespace HandOverSystem

variable {C : List (List ℕ)} {s s' : HandOverSystem} {holder : ℕ → Option (ℕ × ℕ)}

/-- The hosts' contexts never change, and a processor of the memory that holds a thread runs it in its
context 0 and keeps the number of the host, whose thread 0 is not active. -/
structure Sound (C : List (List ℕ)) (s : HandOverSystem) (holder : ℕ → Option (ℕ × ℕ)) : Prop where
  contexts : s.cpus.map Processor.contextIds = C
  nodup : ∀ host ∈ s.cpus, host.activeThreads.Nodup
  idle : ∀ p pim, s.pim_cpus[p]? = some pim → holder p = none → pim.activeThreads = []
  busy : ∀ p i c, holder p = some (i, c) → ∃ pim host, s.pim_cpus[p]? = some pim ∧
    s.cpus[i]? = some host ∧ pim.activeThreads = [0] ∧ pim.host_id = i ∧ 0 ∉ host.activeThreads ∧
    pim.contextIds = host.contextIds ∧ host.contextIds[0]? = some c ∧
    (s.model = .fullO3CPU → c = 0)
  once : ∀ p q i c c', holder p = some (i, c) → holder q = some (i, c') → p = q

theorem Fresh.sound (h : s.Fresh) :
    Sound (s.cpus.map Processor.contextIds) s fun _ => none where
  contexts := rfl
  nodup := h.nodup
  idle p pim hpim _ := h.inactive pim (List.mem_of_getElem? hpim)
  busy _ _ _ hp := by cases hp
  once _ _ _ _ _ hp := by cases hp

/-- **No thread is active twice.** -/
theorem Sound.atMostOnce (h : Sound C s holder) (hC : Distinct C) : s.AtMostOnce := by
  -- each running thread comes from a context of a host, which is not active when it was handed over
  have hhost {i t c : ℕ} (hruns : s.Runs (.host i) t c) :
      ∃ a, C[i]? = some a ∧ a[t]? = some c ∧
        ∀ host, s.cpus[i]? = some host → t ∈ host.activeThreads := by
    obtain ⟨host, hi, ht, hc⟩ := hruns
    refine ⟨host.contextIds, ?_, hc, ?_⟩
    · rw [← h.contexts, List.getElem?_map]
      exact congrArg (Option.map _) hi
    · intro host' hi'
      rwa [← Option.some.inj (hi.symm.trans hi')]
  have hpim {p t c : ℕ} (hruns : s.Runs (.pim p) t c) :
      ∃ i a, holder p = some (i, c) ∧ C[i]? = some a ∧ a[0]? = some c ∧
        ∃ host, s.cpus[i]? = some host ∧ 0 ∉ host.activeThreads := by
    obtain ⟨pim, hp, ht, hc⟩ := hruns
    cases hholder : holder p with
    | none =>
      rw [h.idle p pim hp hholder] at ht
      cases ht
    | some ic =>
      obtain ⟨i, c'⟩ := ic
      obtain ⟨pim', host, hp', hi, hactive, -, hnot, hsame, hzero, -⟩ := h.busy p i c' hholder
      obtain rfl : pim = pim' := Option.some.inj (hp.symm.trans hp')
      rw [hactive, List.mem_singleton] at ht
      rw [ht, hsame, hzero] at hc
      obtain rfl := Option.some.inj hc
      refine ⟨i, host.contextIds, rfl, ?_, hzero, host, hi, hnot⟩
      rw [← h.contexts, List.getElem?_map, hi]
      rfl
  intro l l' t t' c hl hl'
  cases l with
  | host i =>
    obtain ⟨a, hi, ht, hactive⟩ := hhost hl
    cases l' with
    | host i' =>
      obtain ⟨a', hi', ht', -⟩ := hhost hl'
      rw [(hC i i' t t' a a' c hi hi' ht ht').1]
    | pim p =>
      obtain ⟨i', a', -, hi', hc, host, hhost', hnot⟩ := hpim hl'
      obtain ⟨rfl, rfl⟩ := hC i i' t 0 a a' c hi hi' ht hc
      exact absurd (hactive host hhost') hnot
  | pim p =>
    obtain ⟨i, a, hp, hi, hc, host, hhost', hnot⟩ := hpim hl
    cases l' with
    | host i' =>
      obtain ⟨a', hi', ht', hactive⟩ := hhost hl'
      obtain ⟨rfl, rfl⟩ := hC i' i t' 0 a' a c hi' hi ht' hc
      exact absurd (hactive host hhost') hnot
    | pim q =>
      obtain ⟨i', a', hq, hi', hc', -⟩ := hpim hl'
      obtain ⟨rfl, -⟩ := hC i i' 0 0 a a' c hi hi' hc hc'
      rw [h.once p q i c c hp hq]

/-- What a host's instruction does. -/
theorem PIMProcess_eq_ok {i t pim_id : ℕ} (h : s.PIMProcess (.host i) t pim_id = .ok s') :
    ∃ p host pim halted taken host' pim' tc, findNumbered s.pim_cpus.length pim_id = some p ∧
      s.cpus[i]? = some host ∧ s.pim_cpus[p]? = some pim ∧
      pim.takeOverFrom host = .ok (taken, halted) ∧ halted.haltContext s.model t = .ok host' ∧
      { taken with host_id := i }.activateContext 0 = .ok pim' ∧
      host'.threadContexts[t]? = some tc ∧ s' = { s with
        cpus := s.cpus.set i host'
        pim_cpus := s.pim_cpus.set p pim'
        history := s.history ++ [.offload i p tc.contextId] } := by
  unfold PIMProcess at h
  cases hp : findNumbered s.pim_cpus.length pim_id with
  | none =>
    simp only [hp] at h
    cases h
  | some p =>
    simp only [hp] at h
    obtain ⟨host, hhost, h⟩ := Outcome.bind_eq_ok.mp h
    obtain ⟨pim, hpim, h⟩ := Outcome.bind_eq_ok.mp h
    obtain ⟨⟨taken, halted⟩, htake, h⟩ := Outcome.bind_eq_ok.mp h
    obtain ⟨host', hhalt, h⟩ := Outcome.bind_eq_ok.mp h
    obtain ⟨pim', hactivate, h⟩ := Outcome.bind_eq_ok.mp h
    obtain ⟨tc, htc, h⟩ := Outcome.bind_eq_ok.mp h
    exact ⟨p, host, pim, halted, taken, host', pim', tc, rfl, vectorAt_eq_ok.mp hhost,
      vectorAt_eq_ok.mp hpim, htake, hhalt, hactivate, vectorAt_eq_ok.mp htc,
      (Outcome.pure_eq_ok.mp h).symm⟩

/-- What an instruction of a processor of the memory does. -/
theorem HostProcess_eq_ok {p t : ℕ} (h : s.HostProcess (.pim p) t = .ok s') :
    ∃ i host pim halted taken host' pim' tc, s.pim_cpus[p]? = some pim ∧
      findNumbered s.cpus.length pim.host_id = some i ∧ s.cpus[i]? = some host ∧
      host.takeOverFrom pim = .ok (taken, halted) ∧ halted.haltContext s.model t = .ok pim' ∧
      taken.activateContext 0 = .ok host' ∧ host'.threadContexts[0]? = some tc ∧ s' = { s with
        cpus := s.cpus.set i host'
        pim_cpus := s.pim_cpus.set p pim'
        history := s.history ++ [.resume p i tc.contextId] } := by
  obtain ⟨pim, hpim, h⟩ := Outcome.bind_eq_ok.mp h
  cases hi : findNumbered s.cpus.length pim.host_id with
  | none =>
    simp only [hi] at h
    cases h
  | some i =>
    simp only [hi] at h
    obtain ⟨host, hhost, h⟩ := Outcome.bind_eq_ok.mp h
    obtain ⟨⟨taken, halted⟩, htake, h⟩ := Outcome.bind_eq_ok.mp h
    obtain ⟨pim', hhalt, h⟩ := Outcome.bind_eq_ok.mp h
    obtain ⟨host', hactivate, h⟩ := Outcome.bind_eq_ok.mp h
    obtain ⟨tc, htc, h⟩ := Outcome.bind_eq_ok.mp h
    exact ⟨i, host, pim, halted, taken, host', pim', tc, vectorAt_eq_ok.mp hpim, hi,
      vectorAt_eq_ok.mp hhost, htake, hhalt, hactivate, vectorAt_eq_ok.mp htc,
      (Outcome.pure_eq_ok.mp h).symm⟩

/-- A processor whose contexts hold the same threads can take the place of another one. -/
theorem map_contextIds_set {cpus : List Processor} {i : ℕ} {host host' : Processor}
    (hi : cpus[i]? = some host) (hsame : host'.contextIds = host.contextIds) :
    (cpus.set i host').map Processor.contextIds = cpus.map Processor.contextIds := by
  apply List.ext_getElem?
  intro j
  rw [List.getElem?_map, List.getElem?_map, List.getElem?_set]
  by_cases hj : i = j
  · subst hj
    obtain ⟨hlt, rfl⟩ := List.getElem?_eq_some_iff.mp hi
    simp [hlt, hsame]
  · simp [hj]

/-- A host and a processor of the memory change together, and no other processor of the memory holds a
thread of the host. -/
theorem Sound.update {i p : ℕ} {host host' pim pim' : Processor} {held : Option (ℕ × ℕ)}
    {history : List HandOver} (h : Sound C s holder) (hi : s.cpus[i]? = some host)
    (hp : s.pim_cpus[p]? = some pim) (hids : host'.contextIds = host.contextIds)
    (hnodup : host'.activeThreads.Nodup)
    (hother : ∀ q i' c, q ≠ p → holder q = some (i', c) → i' ≠ i)
    (hnone : held = none → pim'.activeThreads = [])
    (hsome : ∀ i' c, held = some (i', c) → i' = i ∧ pim'.activeThreads = [0] ∧ pim'.host_id = i ∧
      0 ∉ host'.activeThreads ∧ pim'.contextIds = host'.contextIds ∧
      host'.contextIds[0]? = some c ∧ (s.model = .fullO3CPU → c = 0)) :
    Sound C { s with
      cpus := s.cpus.set i host'
      pim_cpus := s.pim_cpus.set p pim'
      history } (Function.update holder p held) := by
  have hilt : i < s.cpus.length := (List.getElem?_eq_some_iff.mp hi).1
  have hplt : p < s.pim_cpus.length := (List.getElem?_eq_some_iff.mp hp).1
  refine ⟨(map_contextIds_set hi hids).trans h.contexts, ?_, ?_, ?_, ?_⟩
  · intro cpu hcpu
    rcases List.mem_or_eq_of_mem_set hcpu with hcpu | rfl
    · exact h.nodup cpu hcpu
    · exact hnodup
  · intro q cpu hq hholder
    by_cases hqp : q = p
    · subst hqp
      rw [Function.update_self] at hholder
      obtain rfl : pim' = cpu := by simpa [hplt] using hq
      exact hnone hholder
    · rw [Function.update_of_ne hqp] at hholder
      exact h.idle q cpu (by simpa [Ne.symm hqp] using hq) hholder
  · intro q i' c hholder
    by_cases hqp : q = p
    · subst hqp
      rw [Function.update_self] at hholder
      obtain ⟨rfl, hactive, hid, hnot, hsame, hzero, hmodel⟩ := hsome i' c hholder
      exact ⟨pim', host', by simp [hplt], by simp [hilt], hactive, hid, hnot, hsame, hzero, hmodel⟩
    · rw [Function.update_of_ne hqp] at hholder
      obtain ⟨pim₁, host₁, hq, hi', hrest⟩ := h.busy q i' c hholder
      have hne := hother q i' c hqp hholder
      exact ⟨pim₁, host₁, by simpa [Ne.symm hqp] using hq, by simpa [Ne.symm hne] using hi', hrest⟩
  · -- One holder for each host: `hother` settles the cases in which one of the two has changed.
    intro q q' i' c c' hq hq'
    by_cases hqp : q = p
    · subst hqp
      by_cases hq'p : q' = q
      · exact hq'p.symm
      · rw [Function.update_self] at hq
        rw [Function.update_of_ne hq'p] at hq'
        exact absurd (hsome i' c hq).1 (hother q' i' c' hq'p hq')
    · rw [Function.update_of_ne hqp] at hq
      by_cases hq'p : q' = p
      · subst hq'p
        rw [Function.update_self] at hq'
        exact absurd (hsome i' c' hq').1 (hother q i' c hqp hq)
      · rw [Function.update_of_ne hq'p] at hq'
        exact h.once q q' i' c c' hq hq'

/-- **A host's instruction that meets the condition** hands its thread to a processor of the memory that
held nothing. -/
theorem Sound.offload {i t pim_id : ℕ} (h : Sound C s holder)
    (hposs : s.Possible (.PIMProcess (.host i) t pim_id))
    (hfree : s.Free (.PIMProcess (.host i) t pim_id))
    (hstep : s.PIMProcess (.host i) t pim_id = .ok s') :
    ∃ e holder', s'.history = s.history ++ [e] ∧ ownStep holder e = .ok holder' ∧
      Sound C s' holder' := by
  obtain ⟨p, host, pim, halted, taken, host', pim', tc, hp, hi, hpim, htake, hhalt, hactivate, htc,
    rfl⟩ := PIMProcess_eq_ok hstep
  obtain ⟨rfl, hcontext, hinactive⟩ := hfree
  obtain ⟨cpu, hcpu, hrunning⟩ := hposs
  obtain rfl : host = cpu := Option.some.inj (hi.symm.trans hcpu)
  have hidle : pim.activeThreads = [] := hinactive p hp pim hpim
  -- A processor without an active thread holds nothing.
  have hholder : holder p = none := by
    cases hholder : holder p with
    | none => rfl
    | some ic =>
      obtain ⟨pim₁, -, hpim₁, -, hactive, -⟩ := h.busy p ic.1 ic.2 hholder
      obtain rfl : pim = pim₁ := Option.some.inj (hpim.symm.trans hpim₁)
      rw [hidle] at hactive
      cases hactive
  obtain ⟨rfl, hactive, hids, -⟩ := Processor.takeOverFrom_eq_ok htake
  have hzero : s.model = .fullO3CPU → halted.contextIds[0]? = some 0 := by
    intro hmodel
    rw [hids]
    exact hcontext hmodel host hi
  obtain ⟨hcontexts, -, hnodup', hkept⟩ := Processor.haltContext_eq_ok hhalt hzero
    (by simpa [hactive] using h.nodup host (List.mem_of_getElem? hi))
  obtain ⟨hpcontexts, hpid, hpactive⟩ := Processor.activateContext_eq_ok hactivate
  have hids' : host'.contextIds = host.contextIds :=
    (Processor.contextIds_congr hcontexts).trans hids
  have hpids : pim'.contextIds = host.contextIds := Processor.contextIds_congr hpcontexts
  have hcontextId : host'.contextIds[0]? = some tc.contextId := by
    rw [Processor.contextIds, List.getElem?_map, htc]
    rfl
  refine ⟨.offload i p tc.contextId, Function.update holder p (some (i, tc.contextId)), rfl, ?_, ?_⟩
  · exact Outcome.bind_eq_ok.mpr ⟨(), assert_eq_ok.mpr hholder, rfl⟩
  · refine h.update hi hpim hids' hnodup' ?_ nofun ?_
    · -- The host ran the instruction, so that no other processor holds its thread.
      rintro q i' c hqp hq rfl
      obtain ⟨-, host₁, -, hi', -, -, hnot, -⟩ := h.busy q i' c hq
      obtain rfl : host = host₁ := Option.some.inj (hi.symm.trans hi')
      exact hnot hrunning
    · rintro i' c hheld
      cases hheld
      refine ⟨rfl, ?_, hpid, ?_, hpids.trans hids'.symm, hcontextId, ?_⟩
      · rw [hpactive]
        simp [hidle]
      · rw [hkept]
        simp
      · intro hmodel
        have hctx := hcontext hmodel host hi
        rw [← hids', hcontextId] at hctx
        exact Option.some.inj hctx

/-- **An instruction of a processor of the memory** hands the thread it holds back to its host. -/
theorem Sound.resume {p t : ℕ} (h : Sound C s holder) (hposs : s.Possible (.HostProcess (.pim p) t))
    (hstep : s.HostProcess (.pim p) t = .ok s') :
    ∃ e holder', s'.history = s.history ++ [e] ∧ ownStep holder e = .ok holder' ∧
      Sound C s' holder' := by
  obtain ⟨i, host, pim, halted, taken, host', pim', tc, hpim, hfind, hi, htake, hhalt, hactivate, htc,
    rfl⟩ := HostProcess_eq_ok hstep
  obtain ⟨cpu, hcpu, hrunning⟩ := hposs
  obtain rfl : pim = cpu := Option.some.inj (hpim.symm.trans hcpu)
  obtain ⟨i', c, hholder⟩ : ∃ i' c, holder p = some (i', c) := by
    cases hholder : holder p with
    | none =>
      rw [h.idle p pim hpim hholder] at hrunning
      cases hrunning
    | some ic => exact ⟨ic.1, ic.2, rfl⟩
  obtain ⟨pim₁, host₁, hpim₁, hi', hpactive, hid, hnot, hsame, hzero, hmodel⟩ := h.busy p i' c hholder
  obtain rfl : pim = pim₁ := Option.some.inj (hpim.symm.trans hpim₁)
  -- the number that the processor keeps is that of the host it was handed the thread by
  obtain rfl : i = i' := by
    rw [hid] at hfind
    exact findNumbered_eq_some hfind (List.getElem?_eq_some_iff.mp hi').1
  obtain rfl : host = host₁ := Option.some.inj (hi.symm.trans hi')
  obtain rfl : t = 0 := by
    rw [hpactive] at hrunning
    exact List.mem_singleton.mp hrunning
  obtain ⟨rfl, hactive, hids, -⟩ := Processor.takeOverFrom_eq_ok htake
  have hcontext : s.model = .fullO3CPU → halted.contextIds[0]? = some 0 := by
    intro ho3
    rw [hids, hsame, hzero, hmodel ho3]
  obtain ⟨-, -, hnodup', hkept⟩ := Processor.haltContext_eq_ok hhalt hcontext
    (by simp [hactive, hpactive])
  obtain ⟨hcontexts, -, hactive'⟩ := Processor.activateContext_eq_ok hactivate
  have htaken : host'.contextIds = pim.contextIds := Processor.contextIds_congr hcontexts
  have hids' : host'.contextIds = host.contextIds := htaken.trans hsame
  have hcontextId : tc.contextId = c := by
    have htc' : host'.contextIds[0]? = some tc.contextId := by
      rw [Processor.contextIds, List.getElem?_map, htc]
      rfl
    rw [hids', hzero] at htc'
    exact (Option.some.inj htc').symm
  refine ⟨.resume p i tc.contextId, Function.update holder p none, rfl, ?_, ?_⟩
  · rw [hcontextId]
    exact Outcome.bind_eq_ok.mpr ⟨(), assert_eq_ok.mpr hholder, rfl⟩
  · refine h.update hi hpim hids' ?_ ?_ ?_ nofun
    · have hnodup := h.nodup host (List.mem_of_getElem? hi)
      replace hactive' : host'.activeThreads = host.activeThreads ++ [0] := by
        rw [hactive', if_neg hnot]
      rw [hactive', List.nodup_append]
      refine ⟨hnodup, by simp, ?_⟩
      rintro u hu v hv rfl
      rw [List.mem_singleton.mp hv] at hu
      exact hnot hu
    · rintro q i' c' hqp hq rfl
      exact hqp (h.once q p i' c' c hq hholder)
    · intro _
      apply List.eq_nil_iff_forall_not_mem.mpr
      intro u hu
      obtain ⟨hu, hne⟩ := (hkept u).mp hu
      rw [hactive, hpactive] at hu
      exact hne (List.mem_singleton.mp hu)

/-- A processor of the memory that runs a thread is handed another one against the record. -/
theorem Sound.not_offload {i t pim_id p : ℕ} {pim : Processor} (h : Sound C s holder)
    (hhistory : exec ownStep (fun _ => none) s.history = .ok holder)
    (hp : findNumbered s.pim_cpus.length pim_id = some p) (hpim : s.pim_cpus[p]? = some pim)
    (hrunning : pim.activeThreads ≠ []) (hstep : s.PIMProcess (.host i) t pim_id = .ok s') :
    ¬ ∃ holder', exec ownStep (fun _ => none) s'.history = .ok holder' := by
  rintro ⟨holder', hown⟩
  obtain ⟨p', _, _, _, _, _, _, tc, hp', -, -, -, -, -, -, rfl⟩ := PIMProcess_eq_ok hstep
  obtain rfl : p = p' := Option.some.inj (hp.symm.trans hp')
  obtain ⟨holder₁, hfirst, hown⟩ := exec_append_eq_ok.mp hown
  obtain rfl : holder = holder₁ := Except.ok.inj (hhistory.symm.trans hfirst)
  obtain ⟨_, hoffload, -⟩ := exec_cons_eq_ok.mp hown
  obtain ⟨_, hnone, -⟩ := Outcome.bind_eq_ok.mp hoffload
  exact hrunning (h.idle p pim hpim (assert_eq_ok.mp hnone))

/-- **An instruction that meets the condition** follows who holds what. -/
theorem Sound.step {e : HandOverEvent} (h : Sound C s holder) (hposs : s.Possible e)
    (hfree : s.Free e) (hstep : HandOverSystem.step s e = .ok s') :
    ∃ es holder', s'.history = s.history ++ es ∧ exec ownStep holder es = .ok holder' ∧
      Sound C s' holder' := by
  have hone (hevent : ∃ e holder', s'.history = s.history ++ [e] ∧ ownStep holder e = .ok holder' ∧
      Sound C s' holder') : ∃ es holder', s'.history = s.history ++ es ∧
      exec ownStep holder es = .ok holder' ∧ Sound C s' holder' := by
    obtain ⟨e, holder', hhistory, hown, hsound⟩ := hevent
    exact ⟨[e], holder', hhistory, exec_cons_eq_ok.mpr ⟨holder', hown, rfl⟩, hsound⟩
  cases e with
  | PIMProcess l t pim_id =>
    cases l with
    | host i => exact hone (h.offload hposs hfree hstep)
    | pim p =>
      cases hstep
      exact ⟨[], holder, by simp, rfl, h⟩
  | HostProcess l t =>
    cases l with
    | host i => cases hstep
    | pim p => exact hone (h.resume hposs hstep)

end HandOverSystem

open HandOverSystem in
/-- **Handing over.** In every run in which the hosts hand over their thread 0 to processors of the
memory that run nothing, no thread is active on two processors, a processor of the memory is handed a
thread only when it holds none, and it hands the thread back to the host it had it from. A hand-over to
a processor that runs a thread breaks this. -/
theorem handed_over {s t : HandOverSystem} {es : List HandOverEvent} (hfresh : s.Fresh)
    (hes : Along step (fun s e => s.Possible e ∧ s.Free e) s es) (hrun : exec step s es = .ok t) :
    (t.AtMostOnce ∧ ∃ holder, exec ownStep (fun _ => none) t.history = .ok holder) ∧
      ∀ i u pim_id t', ¬ (∀ p ∈ findNumbered t.pim_cpus.length pim_id, ∀ pim ∈ t.pim_cpus[p]?,
          pim.activeThreads = []) → step t (.PIMProcess (.host i) u pim_id) = .ok t' →
        ¬ ∃ holder, exec ownStep (fun _ => none) t'.history = .ok holder := by
  let I (t : HandOverSystem) : Prop := ∃ holder,
    exec ownStep (fun _ => none) t.history = .ok holder ∧
      Sound (s.cpus.map Processor.contextIds) t holder
  have hinit : I s := ⟨fun _ => none, by rw [hfresh.history]; rfl, hfresh.sound⟩
  have hstep (t : HandOverSystem) (e : HandOverEvent) (t' : HandOverSystem) (h : I t)
      (hgood : t.Possible e ∧ t.Free e) (ht' : step t e = .ok t') : I t' := by
    obtain ⟨holder, hhistory, hsound⟩ := h
    obtain ⟨es, holder', hhistory', hown, hsound'⟩ := hsound.step hgood.1 hgood.2 ht'
    refine ⟨holder', ?_, hsound'⟩
    rw [hhistory']
    exact exec_append_eq_ok.mpr ⟨holder, hhistory, hown⟩
  obtain ⟨holder, hhistory, hsound⟩ := exec_along hstep hinit hes hrun
  refine ⟨⟨hsound.atMostOnce hfresh.distinct, holder, hhistory⟩, ?_⟩
  intro i u pim_id t' hbusy ht'
  push Not at hbusy
  obtain ⟨p, hp, pim, hpim, hrunning⟩ := hbusy
  exact hsound.not_offload hhistory hp hpim hrunning ht'

/-- Two hosts of one process, and one processor of the memory. -/
def twoHosts : HandOverSystem where
  model := .timingSimpleCPU
  cpus := [{ threadContexts := [⟨0, 0, .active⟩], activeThreads := [0], host_id := 0 },
    { threadContexts := [⟨0, 1, .active⟩], activeThreads := [0], host_id := 0 }]
  pim_cpus := [{ threadContexts := [⟨0, 2, .halted⟩], activeThreads := [], host_id := 0 }]
  history := []

open HandOverSystem in
/-- The second host hands its thread over and has it back before the first one does. -/
theorem handed_over_two :
    let es : List HandOverEvent := [.PIMProcess (.host 1) 0 0, .HostProcess (.pim 0) 0,
      .PIMProcess (.host 0) 0 0]
    ∃ t, exec step twoHosts es = .ok t ∧
      t.history = [.offload 1 0 1, .resume 0 1 1, .offload 0 0 0] ∧ t.AtMostOnce := by
  intro es
  have hfresh : twoHosts.Fresh := by
    refine ⟨?_, by decide, by decide, rfl⟩
    intro i i' t t' a a' c hi hi' ht ht'
    match i, i' with
    | 0, 0 | 1, 1 =>
      cases hi
      cases hi'
      match t, t' with
      | 0, 0 => exact ⟨rfl, rfl⟩
      | t + 1, _ => cases ht
      | _, t' + 1 => cases ht'
    | 0, 1 | 1, 0 =>
      cases hi
      cases hi'
      match t, t' with
      | 0, 0 =>
        cases ht
        cases ht'
      | t + 1, _ => cases ht
      | _, t' + 1 => cases ht'
    | i + 2, _ => cases hi
    | _, i' + 2 => cases hi'
  have hes : Along step (fun s e => s.Possible e ∧ s.Free e) twoHosts es := by
    decide +kernel
  have hend : (exec step twoHosts es).map (fun t => t.history) =
      .ok [.offload 1 0 1, .resume 0 1 1, .offload 0 0 0] := by
    decide +kernel
  obtain ⟨t, ht, hhistory⟩ := Outcome.exists_of_map_eq_ok hend
  exact ⟨t, ht, hhistory, (handed_over hfresh hes ht).1.1⟩

open HandOverSystem in
/-- The second host takes the processor of the memory while it runs the first one's thread; this thread
is on no processor then, and only the second one is handed back. -/
theorem not_handed_over :
    let es : List HandOverEvent := [.PIMProcess (.host 0) 0 0, .PIMProcess (.host 1) 0 0,
      .HostProcess (.pim 0) 0]
    Along step (fun s e => s.Possible e) twoHosts es ∧
      (exec step twoHosts es).map (fun t => t.history) =
        .ok [.offload 0 0 0, .offload 1 0 1, .resume 0 1 1] ∧
      ¬ ∃ holder, exec ownStep (fun _ => none)
        [.offload 0 0 0, .offload 1 0 1, .resume 0 1 1] = .ok holder := by
  refine ⟨by decide +kernel, by decide +kernel, ?_⟩
  rintro ⟨holder, h⟩
  cases h

end PIMSim.Gem5
