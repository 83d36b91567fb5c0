import PIMSim.DDR.Routing

/-!
# Refreshes

A refresh is asked for through one slot that all ranks share, and the REFRESH command is always one of
rank 0. As long as only rank 0 becomes due, and never while a refresh waits, every request is answered
by one REFRESH of its rank.

## Main definitions

* `serve rank`: the protocol of one rank
* `Timely s e`: a refresh becomes due for rank 0 only, and while none waits
* `RefreshProtocol cfg`: all ranks keep the protocol in every run

## Main results

* `refreshes_served`: in a run whose steps are timely all ranks keep the protocol, and the requests
  without an answer wait in the slot
-/

namespace PIMSim.DDR

open CSharp Transition

/-- The protocol of a rank: a refresh is asked for while none waits, and a REFRESH of the rank is sent
while one waits. -/
def serve (rank : ℕ) (waiting : Bool) : Happening → Option Bool
  | .needRefresh r => if r = rank then (if waiting then none else some true) else some waiting
  | .issued p =>
    if p.busPacketType = .refresh ∧ p.rank = rank then (if waiting then some false else none)
    else some waiting
  | _ => some waiting

/-- Whether a refresh of the rank waits after the history, if the rank has kept the protocol. -/
def served (rank : ℕ) (history : List Happening) : Option Bool := history.foldlM (serve rank) false

/-- **The refresh protocol**: in every run every rank is refreshed once for every request. -/
def RefreshProtocol (cfg : DRAMConfig) : Prop :=
  ∀ events s, exec (MemorySystem.step cfg) (MemorySystem.init cfg) events = .ok s →
    ∀ rank, served rank s.history ≠ none

/-- When the countdown of the next rank has run out, it is rank 0, and no refresh waits. -/
def Timely (s : MemorySystem) (e : MemoryEvent) : Prop :=
  e = .update → listAt s.controller.refreshCountdown s.controller.refreshRank = .ok 0 →
    s.controller.refreshRank = 0 ∧ s.controller.commandQueue.refreshWaiting = false

instance (s : MemorySystem) (e : MemoryEvent) : Decidable (Timely s e) :=
  inferInstanceAs (Decidable (e = .update → listAt _ _ = .ok 0 → _ ∧ _))

/-- The refresh that waits is one of rank 0, and the ranks have kept the protocol. -/
structure Serves (s : MemorySystem) : Prop where
  slot : s.controller.commandQueue.refreshWaiting = true → s.controller.commandQueue.refreshRank = 0
  kept : ∀ rank, served rank s.history =
    some (decide (rank = 0 ∧ s.controller.commandQueue.refreshWaiting = true))

variable {cfg : DRAMConfig} {s s' : MemorySystem}

theorem served_append (rank : ℕ) (history : List Happening) (e : Happening) :
    served rank (history ++ [e]) = (served rank history).bind fun waiting => serve rank waiting e := by
  unfold served
  rw [List.foldlM_append]
  cases List.foldlM (serve rank) false history with
  | none => rfl
  | some waiting =>
    change (serve rank waiting e >>= pure) = serve rank waiting e
    rw [bind_pure]

theorem Serves.quiet (h : Serves s) (hquiet : Quiet s s') : Serves s' := by
  refine ⟨?_, ?_⟩
  · rw [hquiet.waiting, hquiet.waitingRank]
    exact h.slot
  · rw [hquiet.waiting, hquiet.history]
    exact h.kept

/-- What is neither a request nor a REFRESH does not concern the protocol. -/
theorem Serves.note (h : Serves s) (e : Happening)
    (he : ∀ rank waiting, serve rank waiting e = some waiting) : Serves (s.note e) := by
  refine ⟨h.slot, fun rank => ?_⟩
  change served rank (s.history ++ [e]) = _
  rw [served_append, h.kept, Option.bind_some, he]
  rfl

theorem Serves.moved (h : Serves s) (hmoved : Moved s s') : Serves s' := by
  cases hmoved with
  | still hquiet => exact h.quiet hquiet
  | arrived p _ hquiet =>
    have hclear : Serves { s with controller := { s.controller with
        outgoingCmdPacket := none } } := ⟨h.slot, h.kept⟩
    exact (hclear.note (.received p.rank p) fun _ _ => rfl).quiet hquiet

theorem Serves.movedData (h : Serves s) (hmoved : MovedData s s') : Serves s' := by
  cases hmoved with
  | still hquiet => exact h.quiet hquiet
  | arrived p _ hquiet =>
    have hdone := h.note (.writeDataDone p.physicalAddress p.callback) fun _ _ => rfl
    exact (hdone.note (.received p.rank p) fun _ _ => rfl).quiet hquiet

/-- A timely request takes the free slot. -/
theorem Serves.checked (h : Serves s) (hchecked : Checked cfg s s')
    (htimely : listAt s.controller.refreshCountdown s.controller.refreshRank = .ok 0 →
      s.controller.refreshRank = 0 ∧ s.controller.commandQueue.refreshWaiting = false) :
    Serves s' := by
  cases hchecked with
  | still hquiet => exact h.quiet hquiet
  | due hdue hquiet =>
    obtain ⟨hrank, hfree⟩ := htimely hdue
    refine Serves.quiet ⟨fun _ => ?_, fun rank => ?_⟩ hquiet
    · change (s.controller.refreshRank : Int) = 0
      rw [hrank]
      rfl
    · change served rank (s.history ++ [.needRefresh s.controller.refreshRank]) =
        some (decide (rank = 0 ∧ true = true))
      rw [served_append, h.kept, Option.bind_some, hfree, hrank]
      unfold serve
      by_cases hzero : rank = 0
      · simp [hzero]
      · simp [hzero, Ne.symm hzero]

/-- The REFRESH answers the request in the slot; other commands do not concern the protocol. -/
theorem Serves.issued (h : Serves s) (hissued : Issued cfg s s') : Serves s' := by
  cases hissued with
  | still hquiet => exact h.quiet hquiet
  | issued p cq hpops _ hhistory hqueue =>
    have hother : p.busPacketType ≠ .refresh →
        cq.refreshWaiting = s.controller.commandQueue.refreshWaiting →
        cq.refreshRank = s.controller.commandQueue.refreshRank → Serves s' := by
      intro htype hwaiting hrank
      refine ⟨?_, fun rank => ?_⟩
      · rw [hqueue, hwaiting, hrank]
        exact h.slot
      · have hserve : ∀ waiting, serve rank waiting (.issued p) = some waiting := fun waiting =>
          if_neg fun hp => htype hp.1
        rw [hqueue, hwaiting, hhistory, served_append, h.kept, Option.bind_some, hserve]
    cases hpops with
    | refresh hwait _ _ hsame =>
      -- the constructor of the packet gives it rank 0, the rank in the slot
      have hfree : cq.refreshWaiting = false := hsame.refreshWaiting
      refine ⟨fun hwaiting => ?_, fun rank => ?_⟩
      · rw [hqueue, hfree] at hwaiting
        cases hwaiting
      · rw [hqueue, hfree, hhistory, served_append, h.kept, Option.bind_some, hwait]
        unfold serve
        by_cases hzero : rank = 0
        · subst hzero
          rfl
        · have hrank : ¬(s.controller.commandQueue.sendRefresh.1.rank = rank) := fun hrank =>
            hzero hrank.symm
          simp [hzero, hrank]
    | precharge _ _ _ _ hsame =>
      exact hother nofun hsame.refreshWaiting hsame.refreshRank
    | queued ref i _ _ hallowed _ hsame =>
      refine hother (fun htype => ?_) hsame.refreshWaiting hsame.refreshRank
      obtain ⟨b, -, hallowed⟩ := hallowed
      rw [htype] at hallowed
      exact hallowed

theorem Serves.scheduled (h : Serves s) (hscheduled : Scheduled cfg s s') : Serves s' := by
  cases hscheduled with
  | still hquiet => exact h.quiet hquiet
  | @scheduled t place type cq₁ cq₂ _ _ act command _ _ hfirst hsecond hquiet =>
    obtain ⟨ref₁, -, -, rfl⟩ := CommandQueue.enqueue_eq_ok hfirst
    obtain ⟨ref₂, -, -, rfl⟩ := CommandQueue.enqueue_eq_ok hsecond
    refine Serves.quiet (Serves.note ?_ (.scheduled t act command) fun _ _ => rfl) hquiet
    exact ⟨h.slot, h.kept⟩

theorem Serves.returned (h : Serves s) (hreturned : Returned s s') : Serves s' := by
  cases hreturned with
  | still hquiet => exact h.quiet hquiet
  | returned t hquiet => exact (h.note (.returnReadData t) fun _ _ => rfl).quiet hquiet

/-- The parts before the check of the countdowns do not touch these and the slots. -/
structure SameSlots (s s' : MemorySystem) : Prop where
  countdown : s'.controller.refreshCountdown = s.controller.refreshCountdown
  slot : s'.controller.refreshRank = s.controller.refreshRank
  waiting : s'.controller.commandQueue.refreshWaiting = s.controller.commandQueue.refreshWaiting

theorem Quiet.sameSlots (h : Quiet s s') : SameSlots s s' := ⟨h.countdown, h.slot, h.waiting⟩

theorem SameSlots.trans {s'' : MemorySystem} (h : SameSlots s s') (h' : SameSlots s' s'') :
    SameSlots s s'' :=
  ⟨h'.countdown.trans h.countdown, h'.slot.trans h.slot, h'.waiting.trans h.waiting⟩

theorem Moved.sameSlots (h : Moved s s') : SameSlots s s' := by
  cases h with
  | still hquiet => exact hquiet.sameSlots
  | arrived p _ hquiet => exact ⟨hquiet.countdown, hquiet.slot, hquiet.waiting⟩

theorem MovedData.sameSlots (h : MovedData s s') : SameSlots s s' := by
  cases h with
  | still hquiet => exact hquiet.sameSlots
  | arrived p _ hquiet => exact ⟨hquiet.countdown, hquiet.slot, hquiet.waiting⟩

/-- **A timely step** keeps the protocol. -/
theorem Serves.step {e : MemoryEvent} (h : Serves s) (htimely : Timely s e)
    (hstep : s.step cfg e = .ok s') : Serves s' := by
  by_cases he : e = .update
  · subst he
    obtain ⟨s₁, s₂, s₃, s₄, s₅, s₆, s₇, s₈, s₉, h₁, h₂, h₃, h₄, h₅, h₆, h₇, h₈, h₉, rfl⟩ :=
      update_parts hstep
    have hslots := ((h₁.sameSlots.trans h₂.sameSlots).trans h₃.sameSlots).trans h₄.sameSlots
    have hserves := (((h.quiet h₁).moved h₂).movedData h₃).quiet h₄
    have hchecked : Serves s₅ := by
      refine hserves.checked h₅ ?_
      rw [hslots.countdown, hslots.slot, hslots.waiting]
      exact htimely rfl
    have hdone := (((hchecked.issued h₆).scheduled h₇).quiet h₈).returned h₉
    exact ⟨hdone.slot, hdone.kept⟩
  · exact h.quiet (step_quiet he hstep)

theorem serves_init (cfg : DRAMConfig) : Serves (MemorySystem.init cfg) := by
  refine ⟨nofun, fun rank => ?_⟩
  change some false = some (decide (rank = 0 ∧ false = true))
  simp

/-- **Refreshes**: in a run whose steps are all timely every rank is refreshed once for every request,
and a request that is not answered yet waits in the slot. -/
theorem refreshes_served (cfg : DRAMConfig) (events : List MemoryEvent)
    (htimely : Along (MemorySystem.step cfg) Timely (MemorySystem.init cfg) events)
    (s : MemorySystem)
    (h : exec (MemorySystem.step cfg) (MemorySystem.init cfg) events = .ok s) (rank : ℕ) :
    served rank s.history =
      some (decide (rank = 0 ∧ s.controller.commandQueue.refreshWaiting = true)) := by
  have hserves : Serves s := exec_along (I := Serves)
    (fun s e s' hs hgood hstep => hs.step hgood hstep) (serves_init cfg) htimely h
  exact hserves.kept rank

/-- Two ranks: the first six updates refresh rank 0 once. -/
theorem refreshes_served_once :
    ∃ s, exec (MemorySystem.step twoRanks) (MemorySystem.init twoRanks)
        (List.replicate 6 .update) = .ok s ∧
      served 0 s.history = some (decide (0 = 0 ∧
        s.controller.commandQueue.refreshWaiting = true)) := by
  have hrun : (exec (MemorySystem.step twoRanks) (MemorySystem.init twoRanks)
      (List.replicate 6 .update)).toBool = true := by
    decide +kernel
  cases hexec : exec (MemorySystem.step twoRanks) (MemorySystem.init twoRanks)
      (List.replicate 6 .update) with
  | error e =>
    rw [hexec] at hrun
    cases hrun
  | ok s => exact ⟨s, rfl, refreshes_served twoRanks _ (by decide +kernel) s hexec 0⟩

/-- Two ranks: in the ninth update the request for rank 1 is answered by a REFRESH of rank 0. -/
theorem not_refreshProtocol_two_ranks : ¬RefreshProtocol twoRanks := by
  intro h
  have hrun : ((exec (MemorySystem.step twoRanks) (MemorySystem.init twoRanks)
      (List.replicate 9 .update)).toOption.any fun s =>
        decide (served 0 s.history = none)) = true := by
    decide +kernel
  cases hexec : exec (MemorySystem.step twoRanks) (MemorySystem.init twoRanks)
      (List.replicate 9 .update) with
  | error e =>
    rw [hexec] at hrun
    cases hrun
  | ok s =>
    rw [hexec] at hrun
    exact h _ s hexec 0 (of_decide_eq_true hrun)

end PIMSim.DDR
