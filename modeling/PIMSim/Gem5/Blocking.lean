import PIMSim.Gem5.AbstractMemory

/-!
# Blocking of host accesses

An access after its translation suspends its thread when it touches the granule of a pending address.
The processor looks at the first byte of the main request only, and before it looks at the fault.

## Main definitions

* `DataAccess.Touches`: the bytes of an access
* `Overlaps`: some byte of the access is in the granule of a pending address
* `Blocks`: the access faults, suspends its thread or is sent, as it should
* `FirstByteDecides`: the first byte decides as all bytes do, and the context identifier of the current
  thread is its number

## Main results

* `blocks_iff`: an access is blocked as it should be exactly when its first byte decides
-/

namespace PIMSim.Gem5

open Cpp

/-- The physical address is a byte of the access. -/
def DataAccess.Touches (x : ℕ) : DataAccess → Prop
  | .single size paddr => ∃ p ∈ paddr, p ≤ x ∧ x < p + size
  | .split sizeLow sizeHigh low high =>
    (∃ p ∈ low, p ≤ x ∧ x < p + sizeLow) ∨ ∃ p ∈ high, p ≤ x ∧ x < p + sizeHigh

section Blocking

variable (granularity : ℕ) (queue : List PIMSenderState) (state : DataAccess) (h : Host)

/-- Some byte of the access is in the granule of a pending address. -/
def Overlaps : Prop := ∃ x, state.Touches x ∧ Covered granularity queue x

/-- The translation ends as it should: a fault is raised, an access that overlaps a pending address
suspends the current thread and no other, and any other access is sent. -/
def Blocks : Prop :=
  ∃ r h', h.finishTranslation granularity queue state = .ok (r, h') ∧
    (state.getFault = true → r = .faulted ∧ h'.activeThreads = h.activeThreads) ∧
    (state.getFault = false → Overlaps granularity queue state →
      (∃ thread, r = .suspended thread) ∧
        ∀ t, t ∈ h'.activeThreads ↔ t ∈ h.activeThreads ∧ t ≠ h.curThread) ∧
    (state.getFault = false → ¬ Overlaps granularity queue state →
      r = .sent ∧ h'.activeThreads = h.activeThreads)

/-- The context identifier of the current thread tells it from the other active threads. -/
def SuspendsCurrent : Prop :=
  ∃ c, h.contextId[h.curThread]? = some c ∧ c < h.numThreads ∧
    ∀ t ∈ h.activeThreads, t = c ↔ t = h.curThread

/-- No address is pending, or the main request has a physical address whose granule is pending exactly
when the access overlaps a pending address and did not fault, and then the context identifier is the
current thread's. -/
def FirstByteDecides : Prop :=
  (∀ e ∈ queue, e.addr = []) ∨
  granularity ≠ 0 ∧ ∃ x, state.mainPaddr = some x ∧
    (Covered granularity queue x ↔ state.getFault = false ∧ Overlaps granularity queue state) ∧
    (Covered granularity queue x → SuspendsCurrent h)

variable {granularity queue state h}

/-- An access that is not stalled goes on. -/
theorem finishTranslation_of_false (hstalled : stalledAddr granularity state.mainPaddr queue = .ok false) :
    h.finishTranslation granularity queue state =
      .ok (if state.getFault then .faulted else .sent, { h with status := .running }) := by
  have hstop : ({ h with status := .running } : Host).stopCurrent .timingSimpleCPU granularity queue
      state.mainPaddr 0 = .ok (none, { h with status := .running }) := by
    unfold Host.stopCurrent
    rw [hstalled]
    rfl
  unfold Host.finishTranslation
  simp only [hstop]
  cases state.getFault <;> rfl

/-- An access that is stalled suspends the thread with the number of the current one's context
identifier. -/
theorem finishTranslation_of_true (hstalled : stalledAddr granularity state.mainPaddr queue = .ok true)
    {r : AccessResult} {h' : Host}
    (hfinish : h.finishTranslation granularity queue state = .ok (r, h')) :
    ∃ c, h.contextId[h.curThread]? = some c ∧ c < h.numThreads ∧ r = .suspended c ∧
      h'.activeThreads = h.activeThreads.filter (· ≠ c) := by
  obtain ⟨⟨stopped, h₁⟩, hstop, hfinish⟩ := Outcome.bind_eq_ok.mp hfinish
  obtain ⟨stalled, hs, hstop⟩ := Outcome.bind_eq_ok.mp hstop
  obtain rfl : true = stalled := Except.ok.inj (hstalled.symm.trans hs)
  rw [if_pos rfl] at hstop
  obtain ⟨c, hc, hstop⟩ := Outcome.bind_eq_ok.mp hstop
  obtain ⟨h₂, hsuspend, hstop⟩ := Outcome.bind_eq_ok.mp hstop
  cases hstop
  cases hfinish
  obtain ⟨_, hlt, hsuspend⟩ := Outcome.bind_eq_ok.mp hsuspend
  cases hsuspend
  exact ⟨c, vectorAt_eq_ok.mp hc, assert_eq_ok.mp hlt, rfl, rfl⟩

theorem exists_finishTranslation (hstalled : stalledAddr granularity state.mainPaddr queue = .ok true)
    {c : ℕ} (hc : h.contextId[h.curThread]? = some c) (hlt : c < h.numThreads) :
    ∃ r, h.finishTranslation granularity queue state = .ok r := by
  have hthread : ({ h with status := .running } : Host).stoppedThread .timingSimpleCPU 0 = .ok c :=
    vectorAt_eq_ok.mpr hc
  obtain ⟨h', hsuspend⟩ : ∃ h', ({ h with status := .running } : Host).suspendContext
      .timingSimpleCPU c = .ok h' :=
    ⟨_, Outcome.bind_eq_ok.mpr ⟨(), assert_eq_ok.mpr hlt, rfl⟩⟩
  refine ⟨(.suspended c, h'), Outcome.bind_eq_ok.mpr ⟨(some c, h'), ?_, rfl⟩⟩
  refine Outcome.bind_eq_ok.mpr ⟨true, hstalled, ?_⟩
  exact Outcome.bind_eq_ok.mpr ⟨c, hthread, Outcome.bind_eq_ok.mpr ⟨h', hsuspend, rfl⟩⟩

/-- An access that is not stalled is blocked as it should be when it faults or does not overlap. -/
theorem blocks_of_false (hstalled : stalledAddr granularity state.mainPaddr queue = .ok false) :
    Blocks granularity queue state h ↔
      (state.getFault = false → ¬ Overlaps granularity queue state) := by
  unfold Blocks
  rw [finishTranslation_of_false hstalled]
  cases hfault : state.getFault with
  | true => simp
  | false =>
    constructor
    · rintro ⟨r, h', hr, -, hblocked, -⟩ - hoverlap
      cases hr
      obtain ⟨⟨thread, hsuspended⟩, -⟩ := hblocked rfl hoverlap
      cases hsuspended
    · intro hnot
      exact ⟨_, _, rfl, nofun, fun _ hoverlap => absurd hoverlap (hnot rfl), fun _ _ => ⟨rfl, rfl⟩⟩

/-- An access that is stalled is blocked as it should be when it overlaps, does not fault and suspends
the current thread. -/
theorem blocks_of_true (hstalled : stalledAddr granularity state.mainPaddr queue = .ok true) :
    Blocks granularity queue state h ↔
      state.getFault = false ∧ Overlaps granularity queue state ∧ SuspendsCurrent h := by
  constructor
  · rintro ⟨r, h', hr, hfaulted, hblocked, hsent⟩
    obtain ⟨c, hc, hlt, rfl, hactive⟩ := finishTranslation_of_true hstalled hr
    have hfault : state.getFault = false := by
      by_contra htrue
      cases (hfaulted (by simpa using htrue)).1
    have hoverlap : Overlaps granularity queue state := by
      by_contra hnot
      cases (hsent hfault hnot).1
    refine ⟨hfault, hoverlap, c, hc, hlt, ?_⟩
    intro t ht
    have hkept := (hblocked hfault hoverlap).2 t
    rw [hactive, List.mem_filter] at hkept
    simp only [ht, true_and, decide_eq_true_eq] at hkept
    exact not_iff_not.mp hkept
  · rintro ⟨hfault, hoverlap, c, hc, hlt, hcurrent⟩
    obtain ⟨⟨r, h'⟩, hr⟩ := exists_finishTranslation hstalled hc hlt
    obtain ⟨c', hc', -, rfl, hactive⟩ := finishTranslation_of_true hstalled hr
    obtain rfl : c = c' := Option.some.inj (hc.symm.trans hc')
    refine ⟨_, h', hr, ?_, fun _ _ => ⟨⟨c, rfl⟩, ?_⟩, fun _ hnot => absurd hoverlap hnot⟩
    · intro htrue
      rw [hfault] at htrue
      cases htrue
    · intro t
      rw [hactive, List.mem_filter]
      simp only [decide_eq_true_eq]
      constructor
      · rintro ⟨ht, hne⟩
        exact ⟨ht, fun heq => hne ((hcurrent t ht).mpr heq)⟩
      · rintro ⟨ht, hne⟩
        exact ⟨ht, fun heq => hne ((hcurrent t ht).mp heq)⟩

/-- **Blocking.** The end of a translation raises the fault, suspends the current thread or sends the
access as it should exactly when its first byte decides. -/
theorem blocks_iff : Blocks granularity queue state h ↔ FirstByteDecides granularity queue state h := by
  by_cases hnone : ∀ e ∈ queue, e.addr = []
  · have hoverlap : ¬ Overlaps granularity queue state := by
      rintro ⟨x, -, e, he, a, ha, -⟩
      rw [hnone e he] at ha
      cases ha
    have hstalled : stalledAddr granularity state.mainPaddr queue = .ok false :=
      stalledAddr_eq_ok.mpr (Or.inl ⟨hnone, rfl⟩)
    exact ⟨fun _ => Or.inl hnone, fun _ => (blocks_of_false hstalled).mpr fun _ => hoverlap⟩
  · have hsome : ∃ e ∈ queue, e.addr ≠ [] := by
      push Not at hnone
      exact hnone
    by_cases hset : granularity ≠ 0 ∧ ∃ x, state.mainPaddr = some x
    · obtain ⟨hg, x, hx⟩ := hset
      have hstalled : stalledAddr granularity state.mainPaddr queue =
          .ok (decide (Covered granularity queue x)) :=
        stalledAddr_eq_ok.mpr (Or.inr ⟨hsome, hg, x, hx, rfl⟩)
      have hdecides : FirstByteDecides granularity queue state h ↔
          (Covered granularity queue x ↔
            state.getFault = false ∧ Overlaps granularity queue state) ∧
          (Covered granularity queue x → SuspendsCurrent h) := by
        simp [FirstByteDecides, hnone, hg, hx]
      rw [hdecides]
      by_cases hcovered : Covered granularity queue x
      · rw [decide_eq_true hcovered] at hstalled
        rw [blocks_of_true hstalled]
        simp only [hcovered, true_iff, forall_const, and_assoc]
      · rw [decide_eq_false hcovered] at hstalled
        rw [blocks_of_false hstalled]
        simp only [hcovered, false_iff, not_and, false_implies, and_true]
    · -- the comparison with a pending address stops the program
      constructor
      · rintro ⟨r, h', hr, -⟩
        obtain ⟨⟨_, _⟩, hstop, -⟩ := Outcome.bind_eq_ok.mp hr
        obtain ⟨stalled, hstalled, -⟩ := Outcome.bind_eq_ok.mp hstop
        rcases stalledAddr_eq_ok.mp hstalled with ⟨hnot, -⟩ | ⟨-, hg, x, hx, -⟩
        · exact absurd hnot hnone
        · exact absurd ⟨hg, x, hx⟩ hset
      · rintro (hnot | ⟨hg, x, hx, -⟩)
        · exact absurd hnot hnone
        · exact absurd ⟨hg, x, hx⟩ hset

/-- An access of eight bytes at the end of a block, four of them in the next block, which is pending,
is sent. -/
theorem not_blocks_split :
    ¬ Blocks 64 [{ addr := [64, 128, 192], threadid := 0 }] (.split 4 4 (some 60) (some 64))
      { status := .running, contextId := [0], curThread := 0, activeThreads := [0] } := by
  rintro ⟨r, h', hr, -, hblocked, -⟩
  obtain ⟨⟨thread, hsuspended⟩, -⟩ := hblocked rfl
    ⟨64, Or.inr ⟨64, rfl, by decide, by decide⟩, _, List.mem_cons_self, 64, by decide, rfl⟩
  cases hr
  cases hsuspended

end Blocking

end PIMSim.Gem5
