import PIMSim.Gem5.PendingQueue

/-!
# The contexts that wait for a command

A context that was suspended at an access is activated by the packet that completes a command. This
packet activates one thread, chosen by the first pending command with the packet's first address.

## Main definitions

* `woken`: the context that the end of a command activates
* `Reaches`: every waiting context is the one activated, or another command covers its address
* `Attended`: each waiting context waits for an address that a pending command covers

## Main results

* `waiting_attended`: in every run whose completions meet the condition the waiting contexts are
  attended, and a completion that does not meet it leaves one unattended
-/

namespace PIMSim.Gem5

open Cpp Transition

variable {δ : Type}

theorem Covered.mono {granularity addr : ℕ} {queue queue' : List PIMSenderState}
    (h : Covered granularity queue addr) (hsub : ∀ e ∈ queue, e ∈ queue') :
    Covered granularity queue' addr := by
  obtain ⟨e, he, hsame⟩ := h
  exact ⟨e, hsub e he, hsame⟩

namespace MemorySystem

variable {s s' : MemorySystem δ} {a b c : ℕ}

/-- The processor and the thread that the end of a pending command activates: the current thread of
the processor, by its context identifier, or the thread with the number of the command's. -/
def woken (s : MemorySystem δ) (e : PIMSenderState) : Option (ℕ × ℕ) := do
  let threadid : Bool := e.threadid ≠ 0
  let cpu ← s.findCPU threadid
  match ← s.cpu_type with
  | .timingSimpleCPU =>
    let h ← s.cpus[cpu]?
    let thread ← h.contextId[h.curThread]?
    return (cpu, thread)
  | .fullO3CPU => return (cpu, threadid.toNat)

/-- Without the first command with the packet's first address, each waiting context's address is still
covered, or the context is the one that is activated. -/
def Reaches (s : MemorySystem δ) : MemoryEvent → Prop
  | .complete a _ _ => ∀ e ∈ s.pendingPIMqueue.find? (Shares a), ∀ w ∈ s.waiting,
      Covered s.coherence_granularity (s.pendingPIMqueue.erase e) w.addr ∨
        s.woken e = some (w.cpu, w.thread)
  | _ => True

instance (s : MemorySystem δ) : ∀ e, Decidable (Reaches s e)
  | .complete a _ _ => inferInstanceAs (Decidable (∀ e ∈ s.pendingPIMqueue.find? (Shares a),
      ∀ w ∈ s.waiting, Covered s.coherence_granularity (s.pendingPIMqueue.erase e) w.addr ∨
        s.woken e = some (w.cpu, w.thread)))
  | .registration _ _ | .access _ _ | .lsqAccess _ _ _ | .fetch _ | .quiesce _ _ | .wakeup _ _ =>
    .isTrue trivial

/-- Each context that waits does so for an address that a pending command covers. -/
def Attended (s : MemorySystem δ) : Prop :=
  ∀ w ∈ s.waiting, Covered s.coherence_granularity s.pendingPIMqueue w.addr

theorem woken_eq {e : PIMSenderState} {cpu_type : CPUModel} {cpu thread : ℕ}
    (hcpu : s.findCPU (e.threadid ≠ 0 : Bool) = some cpu) (hmodel : s.cpu_type = some cpu_type)
    (hthread : s.activatedThread cpu_type cpu (e.threadid ≠ 0 : Bool) = .ok thread) :
    s.woken e = some (cpu, thread) := by
  unfold woken
  simp only [hcpu, hmodel, Option.bind_eq_bind, Option.bind_some]
  cases cpu_type with
  | timingSimpleCPU =>
    obtain ⟨h, hh, hthread⟩ := Outcome.bind_eq_ok.mp hthread
    rw [vectorAt_eq_ok.mp hh]
    simp [vectorAt_eq_ok.mp hthread]
  | fullO3CPU =>
    cases hthread
    rfl

/-- The found command is the first of its kind in the queue. -/
theorem erase_shares {pre post : List PIMSenderState} {e : PIMSenderState}
    (he : Shares a e = true) (hpre : ∀ e' ∈ pre, Shares a e' = false) :
    (pre ++ e :: post).erase e = pre ++ post := by
  have hnone : e ∉ pre := by
    intro hmem
    rw [hpre e hmem] at he
    cases he
  rw [List.erase_append_right _ hnone, List.erase_cons_head]

/-- **A completion** leaves every waiting context attended exactly when it meets the condition. -/
theorem complete_attended (h : s.complete [a, b, c] = .ok s') :
    Attended s' ↔ Reaches s (.complete a b c) := by
  obtain ⟨pre, e, post, cpu, cpu_type, thread, hqueue, hshares, hpre, hcpu, hmodel, hthread, hqueue',
    hwaiting', hgranularity⟩ := complete_eq_ok h
  have hwoken := woken_eq hcpu hmodel hthread
  have hreaches : Reaches s (.complete a b c) ↔ ∀ w ∈ s.waiting,
      Covered s.coherence_granularity (pre ++ post) w.addr ∨ w.cpu = cpu ∧ w.thread = thread := by
    show (∀ e ∈ s.pendingPIMqueue.find? (Shares a), ∀ w ∈ s.waiting, _) ↔ _
    rw [hqueue, find?_shares hshares hpre]
    simp [erase_shares hshares hpre, hwoken, eq_comm]
  rw [hreaches, Attended, hwaiting', hqueue', hgranularity]
  constructor
  · intro hattended w hw
    by_cases hsame : w.cpu = cpu ∧ w.thread = thread
    · exact Or.inr hsame
    · exact Or.inl (hattended w (List.mem_filter.mpr ⟨hw, decide_eq_true hsame⟩))
  · intro hall w hw
    obtain ⟨hw, hkept⟩ := List.mem_filter.mp hw
    exact (hall w hw).resolve_right (of_decide_eq_true hkept)

/-- **An event that meets the condition** leaves every waiting context attended. -/
theorem Attended.step {e : MemoryEvent} (h : Attended s) (hreaches : Reaches s e)
    (hstep : MemorySystem.step s e = .ok s') : Attended s' := by
  cases step_cases hstep with
  | registration => exact fun w hw => (h w hw).mono fun e he => List.mem_append_left _ he
  | complete hcomplete => exact (complete_attended hcomplete).mpr hreaches
  | @suspend _ cpu thread addr host _ hcovered =>
    intro w hw
    rcases List.mem_append.mp hw with hw | hw
    · exact h w hw
    · obtain rfl := List.mem_singleton.mp hw
      exact hcovered
  | goOn _ => exact h
  | wakeup hactivate =>
    obtain ⟨host, rfl⟩ := activate_eq_ok hactivate
    exact fun w hw => h w (List.mem_of_mem_filter hw)

end MemorySystem

open MemorySystem in
/-- **No lost wake-up.** In every run whose completions activate every waiting context that no other
command covers, each waiting context waits for an address that a pending command covers; and a
completion leaves it so exactly when it does that. -/
theorem waiting_attended {s t : MemorySystem δ} {es : List MemoryEvent} (hnone : s.waiting = [])
    (hes : Along step (fun s e => s.Possible e ∧ Reaches s e) s es)
    (hrun : exec step s es = .ok t) :
    Attended t ∧ ∀ a b c t', t.complete [a, b, c] = .ok t' →
      (Attended t' ↔ Reaches t (.complete a b c)) := by
  have hinit : Attended s := by
    intro w hw
    rw [hnone] at hw
    cases hw
  exact ⟨exec_along (fun _ _ _ h hgood hstep => h.step hgood.2 hstep) hinit hes hrun,
    fun _ _ _ _ h => complete_attended h⟩

/-- A host with two threads, the second one quiesced. -/
def twoThreads : MemorySystem ℕ :=
  { oneHost with
    cpus := [{ status := .running, contextId := [0, 1], curThread := 0, activeThreads := [0] }] }

open MemorySystem in
/-- The thread waits for the second of two commands, and the first one completes. -/
theorem waiting_attended_two :
    let es : List MemoryEvent := [.registration [0, 64, 128] 0, .registration [256, 320, 384] 0,
      .access 0 (.single 8 (some 328)), .wakeup 0 1, .fetch 0, .complete 0 64 128]
    ∃ t, exec step twoThreads es = .ok t ∧ t.waiting = [⟨0, 0, 328⟩] ∧ Attended t := by
  intro es
  have hes : Along step (fun s e => s.Possible e ∧ Reaches s e) twoThreads es := by
    decide +kernel
  have hend : (exec step twoThreads es).map (fun t => t.waiting) = .ok [⟨0, 0, 328⟩] := by
    decide +kernel
  obtain ⟨t, ht, hwaiting⟩ := Outcome.exists_of_map_eq_ok hend
  exact ⟨t, ht, hwaiting, (waiting_attended rfl hes ht).1⟩

open MemorySystem in
/-- Both threads wait for one command; its end activates the current one, and the other one waits with
no command pending. -/
theorem not_waiting_attended :
    let es : List MemoryEvent := [.registration [0, 64, 128] 0, .access 0 (.single 8 (some 8)),
      .wakeup 0 1, .fetch 0, .access 0 (.single 8 (some 64)), .complete 0 64 128]
    Along step (fun s e => s.Possible e) twoThreads es ∧
      (exec step twoThreads es).map (fun t => (t.waiting, t.pendingPIMqueue, t.cpus)) =
        .ok ([⟨0, 0, 8⟩], [],
          [{ status := .running, contextId := [0, 1], curThread := 1, activeThreads := [1] }]) := by
  decide +kernel

end PIMSim.Gem5
