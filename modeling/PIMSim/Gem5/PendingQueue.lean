import PIMSim.Gem5.AbstractMemory

/-!
# The queue of pending commands

A packet that completes a command removes the first pending command with the same first address.

## Main definitions

* `outstandingStep`: what the packets do to the registrations that are not completed
* `Named`: the first pending command with the packet's first address has all its addresses

## Main results

* `complete_eq_ok`: what the end of a command does
* `pending_outstanding`: in every run whose completions meet the condition, the queue is the
  registrations not completed, and a completion that does not meet it removes another command
-/

namespace PIMSim.Gem5

open Cpp Transition

variable {δ : Type}

/-- A registration is outstanding until a completion with its addresses. -/
def outstandingStep (q : List (List ℕ)) : MemorySystem.MemoryEvent → Outcome (List (List ℕ))
  | .registration addr _ => return q ++ [addr]
  | .complete a b c => do
    let _ ← assert ([a, b, c] ∈ q)
    return q.erase [a, b, c]
  | .access _ _ | .lsqAccess _ _ _ | .fetch _ | .quiesce _ _ | .wakeup _ _ => return q

namespace MemorySystem

variable {s s' : MemorySystem δ} {a b c n m : ℕ} {e : PIMSenderState} {queue : List PIMSenderState}

/-- A pending command shares its first address with the packet. -/
def Shares (a : ℕ) (e : PIMSenderState) : Bool := e.addr.head? == some a

/-- The first pending command that shares its first address with the packet has all its addresses. -/
def Named (s : MemorySystem δ) : MemoryEvent → Prop
  | .complete a b c => ∀ e ∈ s.pendingPIMqueue.find? (Shares a), e.addr = [a, b, c]
  | _ => True

instance (s : MemorySystem δ) : ∀ e, Decidable (Named s e)
  | .complete a b c =>
    inferInstanceAs (Decidable (∀ e ∈ s.pendingPIMqueue.find? (Shares a), e.addr = [a, b, c]))
  | .registration _ _ | .access _ _ | .lsqAccess _ _ _ | .fetch _ | .quiesce _ _ | .wakeup _ _ =>
    .isTrue trivial

/-- The entry that is found is the first one that shares the address. -/
theorem findEntry_eq_some (h : findEntry [a, b, c] n queue = .ok (some (m, e))) :
    ∃ pre post, queue = pre ++ e :: post ∧ m = n + pre.length ∧ Shares a e = true ∧
      ∀ e' ∈ pre, Shares a e' = false := by
  induction queue generalizing n with
  | nil => cases h
  | cons i queue ih =>
    obtain ⟨x, hx, h⟩ := Outcome.bind_eq_ok.mp h
    obtain ⟨y, hy, h⟩ := Outcome.bind_eq_ok.mp h
    have hhead : i.addr.head? = some x := by
      rw [List.head?_eq_getElem?]
      exact vectorAt_eq_ok.mp hx
    obtain rfl : a = y := Option.some.inj (vectorAt_eq_ok.mp hy)
    by_cases hshare : x = a
    · rw [if_pos hshare] at h
      cases h
      exact ⟨[], queue, rfl, rfl, by simp [Shares, hhead, hshare], by simp⟩
    · rw [if_neg hshare] at h
      obtain ⟨pre, post, rfl, rfl, hfound, hpre⟩ := ih h
      refine ⟨i :: pre, post, rfl, ?_, hfound, ?_⟩
      · rw [List.length_cons]
        omega
      intro e' he'
      rcases List.mem_cons.mp he' with rfl | he'
      · simp [Shares, hhead, hshare]
      · exact hpre e' he'

/-- What the end of a command does. -/
theorem complete_eq_ok (h : s.complete [a, b, c] = .ok s') :
    ∃ pre e post cpu cpu_type thread, s.pendingPIMqueue = pre ++ e :: post ∧ Shares a e = true ∧
      (∀ e' ∈ pre, Shares a e' = false) ∧
      s.findCPU (e.threadid ≠ 0 : Bool) = some cpu ∧
      s.cpu_type = some cpu_type ∧
      s.activatedThread cpu_type cpu (e.threadid ≠ 0 : Bool) = .ok thread ∧
      s'.pendingPIMqueue = pre ++ post ∧
      s'.waiting = s.waiting.filter (fun w => ¬ (w.cpu = cpu ∧ w.thread = thread)) ∧
      s'.coherence_granularity = s.coherence_granularity := by
  obtain ⟨found, hfind, h⟩ := Outcome.bind_eq_ok.mp h
  cases found with
  | none => cases h
  | some found =>
    obtain ⟨n, e⟩ := found
    obtain ⟨pre, post, hqueue, rfl, hshares, hpre⟩ := findEntry_eq_some hfind
    simp only at h
    cases hcpu : s.findCPU (e.threadid ≠ 0 : Bool) with
    | none =>
      rw [hcpu] at h
      cases h
    | some cpu =>
      rw [hcpu] at h
      obtain ⟨⟨pCaches, memory⟩, -, h⟩ := Outcome.bind_eq_ok.mp h
      obtain ⟨cpu_type, hmodel, h⟩ := Outcome.bind_eq_ok.mp h
      obtain ⟨thread, hthread, h⟩ := Outcome.bind_eq_ok.mp h
      obtain ⟨s₁, hactivate, h⟩ := Outcome.bind_eq_ok.mp h
      obtain ⟨host, rfl⟩ := activate_eq_ok hactivate
      cases h
      refine ⟨pre, e, post, cpu, cpu_type, thread, hqueue, hshares, hpre, hcpu,
        model_eq_ok.mp hmodel, hthread, ?_, rfl, rfl⟩
      show s.pendingPIMqueue.eraseIdx (0 + pre.length) = pre ++ post
      rw [hqueue, Nat.zero_add, List.eraseIdx_append_of_length_le (Nat.le_refl _), Nat.sub_self,
        List.eraseIdx_cons_zero]

theorem find?_shares {pre post : List PIMSenderState} (he : Shares a e = true)
    (hpre : ∀ e' ∈ pre, Shares a e' = false) : (pre ++ e :: post).find? (Shares a) = some e := by
  rw [List.find?_append, List.find?_eq_none.mpr (by simpa using hpre), List.find?_cons_of_pos he]
  rfl

/-- The registered address lists without those of the removed entry are those without the packet's
exactly when the entry has the packet's addresses. -/
theorem map_addr_erase {pre post : List PIMSenderState} {addr : List ℕ}
    (hpre : ∀ e' ∈ pre, e'.addr ≠ addr) :
    addr ∈ (pre ++ e :: post).map (·.addr) ∧
        (pre ++ post).map (·.addr) = ((pre ++ e :: post).map (·.addr)).erase addr ↔
      e.addr = addr := by
  constructor
  · rintro ⟨hmem, herase⟩
    have hperm := List.perm_cons_erase hmem
    rw [← herase, List.map_append, List.map_cons, List.map_append] at hperm
    have hcount := (List.perm_middle.symm.trans hperm).count_eq e.addr
    by_contra hne
    rw [List.count_cons_self, List.count_cons_of_ne (Ne.symm hne)] at hcount
    omega
  · intro haddr
    have hnone : addr ∉ pre.map (·.addr) := by
      intro h
      obtain ⟨e', he', haddr'⟩ := List.mem_map.mp h
      exact hpre e' he' haddr'
    rw [List.map_append, List.map_cons, haddr, List.erase_append_right _ hnone,
      List.erase_cons_head, ← List.map_append]
    exact ⟨by simp, rfl⟩

/-- **A completion** takes its own registration away exactly when it meets the condition. -/
theorem complete_named (h : s.complete [a, b, c] = .ok s') :
    [a, b, c] ∈ s.pendingPIMqueue.map (·.addr) ∧ s'.pendingPIMqueue.map (·.addr) =
        (s.pendingPIMqueue.map (·.addr)).erase [a, b, c] ↔
      Named s (.complete a b c) := by
  obtain ⟨pre, e, post, _, _, _, hqueue, hshares, hpre, -, -, -, hqueue', -, -⟩ := complete_eq_ok h
  have hother : ∀ e' ∈ pre, e'.addr ≠ [a, b, c] := by
    intro e' he' haddr
    have hnot := hpre e' he'
    simp [Shares, haddr] at hnot
  rw [hqueue', hqueue, map_addr_erase hother]
  show _ ↔ ∀ e ∈ s.pendingPIMqueue.find? (Shares a), e.addr = [a, b, c]
  rw [hqueue, find?_shares hshares hpre]
  simp

/-- A processor's own event leaves the outstanding registrations. -/
theorem outstandingStep_ofHost {e : MemoryEvent} (he : e.OfHost) (q : List (List ℕ)) :
    outstandingStep q e = .ok q := by
  cases e with
  | registration _ _ | complete _ _ _ => exact he.elim
  | access _ _ | lsqAccess _ _ _ | fetch _ | quiesce _ _ | wakeup _ _ => rfl

/-- An event that meets the condition does to the queue what it does to the outstanding
registrations. -/
theorem step_outstanding {e : MemoryEvent} (h : s.step e = .ok s') (hnamed : Named s e) :
    outstandingStep (s.pendingPIMqueue.map (·.addr)) e = .ok (s'.pendingPIMqueue.map (·.addr)) := by
  cases step_cases h with
  | @registration addr threadid =>
    simp [outstandingStep, MemorySystem.registration, pure, Except.pure]
  | complete h =>
    obtain ⟨hmem, herase⟩ := (complete_named h).mpr hnamed
    refine Outcome.bind_eq_ok.mpr ⟨(), assert_eq_ok.mpr hmem, ?_⟩
    rw [herase]
    rfl
  | suspend he _ => exact outstandingStep_ofHost he _
  | goOn he => exact outstandingStep_ofHost he _
  | wakeup h =>
    obtain ⟨host, rfl⟩ := activate_eq_ok h
    rfl

end MemorySystem

open MemorySystem in
/-- **The pending queue.** In every run whose completions all find their own command first, the queue is
the registrations that are not completed; and a completion does to it what it does to these exactly
when it finds its own command first. -/
theorem pending_outstanding {s t : MemorySystem δ} {es : List MemoryEvent}
    (hempty : s.pendingPIMqueue = []) (hes : Along step Named s es) (hrun : exec step s es = .ok t) :
    exec outstandingStep [] es = .ok (t.pendingPIMqueue.map (·.addr)) ∧
      ∀ a b c t', t.complete [a, b, c] = .ok t' →
        (outstandingStep (t.pendingPIMqueue.map (·.addr)) (.complete a b c) =
            .ok (t'.pendingPIMqueue.map (·.addr)) ↔
          Named t (.complete a b c)) := by
  constructor
  · let R (s : MemorySystem δ) (q : List (List ℕ)) : Prop := q = s.pendingPIMqueue.map (·.addr)
    have hstep (s : MemorySystem δ) (q : List (List ℕ)) (e : MemoryEvent) (s' : MemorySystem δ)
        (hq : R s q) (hnamed : Named s e) (h : s.step e = .ok s') :
        ∃ q', outstandingStep q e = .ok q' ∧ R s' q' := by
      subst hq
      exact ⟨_, step_outstanding h hnamed, rfl⟩
    have hinit : R s [] := by simp [R, hempty]
    obtain ⟨q, hq, hend⟩ := exec_simulation hstep hinit hes hrun
    rw [← hend]
    exact hq
  · intro a b c t' h
    rw [← complete_named h]
    constructor
    · intro hstep
      obtain ⟨u, hmem, herase⟩ := Outcome.bind_eq_ok.mp hstep
      exact ⟨assert_eq_ok.mp hmem, (Except.ok.inj herase).symm⟩
    · rintro ⟨hmem, herase⟩
      refine Outcome.bind_eq_ok.mpr ⟨(), assert_eq_ok.mpr hmem, ?_⟩
      rw [herase]
      rfl

/-- A host with one thread, no cache and a granularity of one block. -/
def oneHost : MemorySystem ℕ where
  cpu_type := some .timingSimpleCPU
  coherence_granularity := 64
  blkSize := 64
  cpus := [{ status := .running, contextId := [0], curThread := 0, activeThreads := [0] }]
  pCaches := []
  memory := fun _ => 0
  pendingPIMqueue := []
  waiting := []

open MemorySystem in
/-- Two commands that share their second address, completed in the other order. -/
theorem pending_outstanding_two :
    let es : List MemoryEvent := [.registration [0, 64, 128] 0, .registration [256, 64, 320] 0,
      .complete 256 64 320]
    ∃ t, exec step oneHost es = .ok t ∧ t.pendingPIMqueue = [⟨[0, 64, 128], 0⟩] ∧
      exec outstandingStep [] es = .ok (t.pendingPIMqueue.map (·.addr)) := by
  intro es
  have hes : Along step Named oneHost es := by
    decide +kernel
  have hend : (exec step oneHost es).map (fun t => t.pendingPIMqueue) =
      .ok [⟨[0, 64, 128], 0⟩] := by
    decide +kernel
  obtain ⟨t, ht, hqueue⟩ := Outcome.exists_of_map_eq_ok hend
  exact ⟨t, ht, hqueue, (pending_outstanding rfl hes ht).1⟩

open MemorySystem in
/-- The second of two commands that share their first address completes, and the first one is
removed. -/
theorem not_pending_outstanding :
    (exec step oneHost [.registration [0, 64, 128] 0, .registration [0, 256, 320] 0,
      .complete 0 256 320]).map (fun t => t.pendingPIMqueue) = .ok [⟨[0, 256, 320], 0⟩] := by
  decide +kernel

end PIMSim.Gem5
