import PIMSim.Library.History
import PIMSim.PIM.Flush
import PIMSim.PIM.Outstanding

/-!
# The order of a pipeline's work

A unit takes a function when it has none, loads both operands at the same time, stores the result
when both are there, and hands the page locks back when the store is done. Memory objects complete
requests in any order, and hosts do anything meanwhile.

A stage, or the controller, that takes a page lock and finds the hosts not flushed hands the lock back
at once and tries again later.

## Main definitions

* `Pipeline.Admissible`, `Pipeline.Ordered`: what must precede an event of the unit
* `Pipeline.Phase`: where the unit stands with its function

## Main results

* `Pipeline.sound_step`: a transition keeps the order and the phase
* `adder_ordered`: every run of the unit is ordered
-/

namespace PIMSim

open CSharp Transition History

variable {Obj : Type} {cfg : Config} {info : List (Region Obj)} {method : PIMLoadMethod}

/-- The unit takes a function. -/
def PipelineHappening.starts : PipelineHappening → Bool
  | started _ => true
  | _ => false

namespace Pipeline

variable {s s' : Pipeline} {st st' : PIMStage} {h hs : List PipelineHappening} {i : Int}

/-! ### The order -/

/-- What happened since the unit took its latest function. -/
def episode (h : List PipelineHappening) : List PipelineHappening :=
  since PipelineHappening.starts h

/-- No function is in progress: the unit took none, or is done with the latest. -/
def Idle (h : List PipelineHappening) : Prop :=
  (∀ e ∈ h, e.starts = false) ∨ .finished ∈ episode h

/-- The load `i` of the function has sent its request, and a callback has completed it. -/
def Loaded (h : List PipelineHappening) (i : Int) : Prop :=
  ∃ req accepted, req.type = .load ∧ req.stageId = [i] ∧
    [PipelineHappening.sent req accepted, .completed i].Sublist (episode h)

/-- What must precede an event. A function is taken when none is in progress, a store request is sent
when both loads are complete, and the unit hands locks back when the store has produced output. A
stage or the controller hands back a lock that it has just taken. -/
def Admissible (h : List PipelineHappening) : PipelineHappening → Prop
  | .started _ => Idle h
  | .sent req _ => req.type = .store → Loaded h 0 ∧ Loaded h 1
  | .released _ => .stored ∈ episode h
  | .backedOff addr => ∃ pre, h = pre ++ [.locked addr]
  | _ => True

/-- Every event is preceded by what must precede it. -/
def Ordered (h : List PipelineHappening) : Prop := Admitted Admissible h

theorem episode_append (hhs : ∀ e ∈ hs, e.starts = false) :
    episode (h ++ hs) = episode h ++ hs := since_append hhs

theorem Idle.append (hidle : Idle h) (hhs : ∀ e ∈ hs, e.starts = false) : Idle (h ++ hs) := by
  rcases hidle with hnone | hfinished
  · refine .inl fun e he => ?_
    rcases List.mem_append.mp he with he | he
    · exact hnone e he
    · exact hhs e he
  · refine .inr ?_
    rw [episode_append hhs]
    exact List.mem_append_left _ hfinished

theorem Loaded.append (hloaded : Loaded h i) (hhs : ∀ e ∈ hs, e.starts = false) :
    Loaded (h ++ hs) i := by
  obtain ⟨req, accepted, htype, hstage, hsub⟩ := hloaded
  refine ⟨req, accepted, htype, hstage, ?_⟩
  rw [episode_append hhs]
  exact hsub.trans (List.sublist_append_left _ _)

theorem stored_append (hstored : .stored ∈ episode h) (hhs : ∀ e ∈ hs, e.starts = false) :
    .stored ∈ episode (h ++ hs) := by
  rw [episode_append hhs]
  exact List.mem_append_left _ hstored

/-- The load `i` of the function has sent its request. -/
def Asked (h : List PipelineHappening) (i : Int) : Prop :=
  ∃ req accepted, req.type = .load ∧ req.stageId = [i] ∧ .sent req accepted ∈ episode h

theorem Asked.append (hasked : Asked h i) (hhs : ∀ e ∈ hs, e.starts = false) :
    Asked (h ++ hs) i := by
  obtain ⟨req, accepted, htype, hstage, hsent⟩ := hasked
  refine ⟨req, accepted, htype, hstage, ?_⟩
  rw [episode_append hhs]
  exact List.mem_append_left _ hsent

/-- A callback completes a load that has sent its request. -/
theorem Asked.loaded (hasked : Asked h i) (hhs : ∀ e ∈ hs, e.starts = false)
    (hcompleted : .completed i ∈ hs) : Loaded (h ++ hs) i := by
  obtain ⟨req, accepted, htype, hstage, hsent⟩ := hasked
  refine ⟨req, accepted, htype, hstage, ?_⟩
  rw [episode_append hhs]
  exact (List.singleton_sublist.mpr hsent).append (List.singleton_sublist.mpr hcompleted)

/-- Events that any history may go on with. -/
def Quiet (hs : List PipelineHappening) : Prop :=
  (∀ e ∈ hs, e.starts = false) ∧ ∀ h, Ordered h → Ordered (h ++ hs)

theorem Quiet.nil : Quiet [] := by
  refine ⟨by simp, fun h hh => ?_⟩
  rw [List.append_nil]
  exact hh

theorem Quiet.append {hs' : List PipelineHappening} (hq : Quiet hs) (hq' : Quiet hs') :
    Quiet (hs ++ hs') := by
  refine ⟨fun e he => ?_, fun h hh => ?_⟩
  · rcases List.mem_append.mp he with he | he
    · exact hq.1 e he
    · exact hq'.1 e he
  · rw [← List.append_assoc]
    exact hq'.2 _ (hq.2 h hh)

theorem Quiet.of_admissible {e : PipelineHappening} (hstarts : e.starts = false)
    (he : ∀ h, Admissible h e) : Quiet [e] := by
  refine ⟨fun f hf => ?_, fun h hh => admitted_concat hh (he h)⟩
  rw [List.mem_singleton.mp hf]
  exact hstarts

theorem quiet_locked (addr : UInt64) : Quiet [.locked addr] :=
  Quiet.of_admissible rfl fun _ => trivial

theorem quiet_backedOff (addr : UInt64) : Quiet [.locked addr, .backedOff addr] := by
  refine ⟨by simp [PipelineHappening.starts], fun h hh => ?_⟩
  have hlocked := (quiet_locked addr).2 h hh
  have hback : Ordered (h ++ [.locked addr] ++ [.backedOff addr]) :=
    admitted_concat hlocked ⟨h, rfl⟩
  rwa [List.append_assoc] at hback

theorem quiet_completed (hhs : ∀ e ∈ hs, e = .completed i) : Quiet hs := by
  induction hs with
  | nil => exact Quiet.nil
  | cons e hs ih =>
    rw [hhs e (List.mem_cons_self ..)]
    exact (Quiet.of_admissible (e := .completed i) rfl fun _ => trivial).append
      (ih fun f hf => hhs f (List.mem_cons_of_mem _ hf))

theorem quiet_lockHappenings (verdict : ProcRequest × Fate) : Quiet (lockHappenings verdict) := by
  obtain ⟨req, fate⟩ := verdict
  cases fate with
  | flushing => exact quiet_backedOff _
  | placed k m => exact quiet_locked _
  | early => exact Quiet.nil
  | locked => exact Quiet.nil
  | ignored => exact Quiet.nil

theorem quiet_flatMap (verdicts : List (ProcRequest × Fate)) :
    Quiet (verdicts.flatMap lockHappenings) := by
  induction verdicts with
  | nil => exact Quiet.nil
  | cons verdict verdicts ih =>
    rw [List.flatMap_cons]
    exact (quiet_lockHappenings verdict).append ih

/-! ### Where the unit stands -/

/-- A load without a function's operand. -/
structure Empty (st : PIMStage) : Prop where
  status : st.status = .noOp
  inputReady : st.inputReady = false
  outputReady : st.outputReady = false

/-- Where a load stands with an operand: it is to send its request, it waits for the callback, it is
complete, or it has handed its output on. -/
inductive LoadPhase (method : PIMLoadMethod) (h : List PipelineHappening) (i : Int)
    (st : PIMStage) : Prop
  | pending (hstatus : st.status = .noOp) (hin : st.inputReady = true)
      (hout : st.outputReady = false)
  | waiting (hstatus : st.status = .outstanding) (hin : st.input ≠ none)
      (hout : st.outputReady = false) (hasked : Asked h i)
  | complete (hstatus : st.status = .complete) (hin : st.input ≠ none)
      (hout : st.outputReady = false) (hloaded : Loaded h i)
  | done (hstatus : st.status = .noOp) (hin : st.inputReady = false)
      (hloaded : method = .conventional → Loaded h i)

/-- Where the unit stands: it has no function, loads the operands, computes and stores the result, or
has stored it. -/
inductive Phase (method : PIMLoadMethod) (h : List PipelineHappening) (u : AdderConventional) : Prop
  | idle (hidle : Idle h) (hcurr : u.curr = none) (h0 : Empty u.load0) (h1 : Empty u.load1)
      (hcomputed : u.computation.outputReady = false) (hstore : u.store.status = .noOp)
      (hout : u.store.outputReady = false)
  | loading (hcurr : u.curr ≠ none) (h0 : LoadPhase method h 0 u.load0)
      (h1 : LoadPhase method h 1 u.load1) (hcomputed : u.computation.outputReady = false)
      (hstore : u.store.status = .noOp) (hout : u.store.outputReady = false)
  | computed (hcurr : u.curr ≠ none) (h0 : Empty u.load0) (h1 : Empty u.load1)
      (hloaded : method = .conventional → Loaded h 0 ∧ Loaded h 1)
      (hout : u.store.outputReady = false)
  | stored (hcurr : u.curr ≠ none) (h0 : Empty u.load0) (h1 : Empty u.load1)
      (hcomputed : u.computation.outputReady = false) (hstore : u.store.status = .noOp)
      (hout : u.store.outputReady = true) (hstored : .stored ∈ episode h)

theorem LoadPhase.append (hphase : LoadPhase method h i st) (hhs : ∀ e ∈ hs, e.starts = false) :
    LoadPhase method (h ++ hs) i st := by
  cases hphase with
  | pending hstatus hin hout => exact .pending hstatus hin hout
  | waiting hstatus hin hout hasked => exact .waiting hstatus hin hout (hasked.append hhs)
  | complete hstatus hin hout hloaded => exact .complete hstatus hin hout (hloaded.append hhs)
  | done hstatus hin hloaded => exact .done hstatus hin fun hm => (hloaded hm).append hhs

theorem Phase.append {u : AdderConventional} (hphase : Phase method h u)
    (hhs : ∀ e ∈ hs, e.starts = false) : Phase method (h ++ hs) u := by
  cases hphase with
  | idle hidle hcurr h0 h1 hcomputed hstore hout =>
    exact .idle (hidle.append hhs) hcurr h0 h1 hcomputed hstore hout
  | loading hcurr h0 h1 hcomputed hstore hout =>
    exact .loading hcurr (h0.append hhs) (h1.append hhs) hcomputed hstore hout
  | computed hcurr h0 h1 hloaded hout =>
    exact .computed hcurr h0 h1 (fun hm => (hloaded hm).imp (·.append hhs) (·.append hhs)) hout
  | stored hcurr h0 h1 hcomputed hstore hout hstored =>
    exact .stored hcurr h0 h1 hcomputed hstore hout (stored_append hstored hhs)

/-- The history is in order, and the unit stands where the history says. -/
structure Sound (method : PIMLoadMethod) (s : Pipeline) : Prop where
  ordered : Ordered s.history
  phase : Phase method s.history s.unit

theorem Sound.quiet (hs' : Sound method s) (hq : Quiet hs) (hunit : s'.unit = s.unit)
    (hhistory : s'.history = s.history ++ hs) : Sound method s' := by
  refine ⟨?_, ?_⟩
  · rw [hhistory]
    exact hq.2 _ hs'.ordered
  · rw [hhistory, hunit]
    exact hs'.phase.append hq.1

/-! ### The parts of a cycle -/

theorem sound_start {answer : Option TraceInput} (hsound : Sound method s)
    (hstart : s.start answer = .ok s') : Sound method s' := by
  rcases start_cases hstart with rfl | ⟨f, first, second, target, hcurr, -, -, -, rfl⟩
  · exact hsound
  · cases hsound.phase with
    | idle hidle _ h0 h1 hcomputed hstore hout =>
      refine ⟨admitted_concat hsound.ordered hidle, ?_⟩
      exact .loading (Option.some_ne_none f) (.pending h0.status rfl h0.outputReady)
        (.pending h1.status rfl h1.outputReady) hcomputed hstore hout
    | loading hsome => exact absurd hcurr hsome
    | computed hsome => exact absurd hcurr hsome
    | stored hsome => exact absurd hcurr hsome

/-- What a stage does beside sending a request may go on any history. -/
theorem quiet_secured {addr : UInt64} (hhs : hs = [] ∨ hs = [.locked addr]) : Quiet hs := by
  rcases hhs with rfl | rfl
  · exact Quiet.nil
  · exact quiet_locked addr

theorem send_history (cfg : Config) (s : Pipeline) (req : ProcRequest) :
    ∃ accepted, (s.send cfg req).history = s.history ++ [.sent req accepted] ∧
      (s.send cfg req).unit = s.unit := by
  rcases send_cases cfg s req with hsend | hsend <;> rw [hsend]
  · exact ⟨false, rfl, rfl⟩
  · exact ⟨true, rfl, rfl⟩

/-- A stage without an input does nothing. -/
theorem ReadsInput.of_empty {type : RequestType} {ready : Bool} (hnoOp : st.status = .noOp)
    (hin : st.inputReady = false)
    (hreads : ReadsInput cfg method type s st ready s' st') : ready = false ∧ s' = s ∧ st' = st := by
  cases hreads with
  | complete hstatus => exact absurd (hnoOp.symm.trans hstatus) (by decide)
  | waits hstatus => exact absurd (hnoOp.symm.trans hstatus) (by decide)
  | empty hstatus hinput => exact ⟨rfl, rfl, rfl⟩
  | backedOff hstatus hready => exact absurd (hin.symm.trans hready) (by decide)
  | passed hmethod hstatus hready => exact absurd (hin.symm.trans hready) (by decide)
  | passes hmethod hstatus hready => exact absurd (hin.symm.trans hready) (by decide)
  | sends hmethod hstatus hready => exact absurd (hin.symm.trans hready) (by decide)

theorem loadStep_of_empty (hst : Empty st)
    (hstep : s.loadStep cfg info method st = .ok (s', st')) : s' = s ∧ Empty st' := by
  obtain ⟨ready, st₁, hreads, rfl⟩ := loadStep_eq_ok hstep
  have hempty : Empty { st with stall := false } := ⟨hst.status, hst.inputReady, hst.outputReady⟩
  obtain ⟨rfl, rfl, rfl⟩ := ReadsInput.of_empty hempty.status hempty.inputReady hreads
  exact ⟨rfl, hempty⟩

@[simp] theorem writeOutput_status (st : PIMStage) : st.writeOutput.status = st.status := by
  unfold PIMStage.writeOutput
  cases st.intermid <;> rfl

@[simp] theorem writeOutput_inputReady (st : PIMStage) :
    st.writeOutput.inputReady = st.inputReady := by
  unfold PIMStage.writeOutput
  cases st.intermid <;> rfl

/-- A load that is to read its operand has no output. -/
theorem LoadPhase.of_ready (hphase : LoadPhase method h i st) (hstatus : st.status = .noOp)
    (hin : st.inputReady = true) : st.outputReady = false := by
  cases hphase with
  | pending _ _ hout => exact hout
  | waiting hwaits => exact absurd (hwaits.symm.trans hstatus) (by decide)
  | complete hcomplete => exact absurd (hcomplete.symm.trans hstatus) (by decide)
  | done _ hdone => exact absurd (hdone.symm.trans hin) (by decide)

/-- **A step of a load** with an operand. -/
theorem loadStep_phase (hid : st.id = i) (hphase : LoadPhase method s.history i st)
    (hstep : s.loadStep cfg info method st = .ok (s', st')) :
    ∃ hs, Quiet hs ∧ s'.unit = s.unit ∧ s'.history = s.history ++ hs ∧
      LoadPhase method s'.history i st' := by
  obtain ⟨ready, st₁, hreads, rfl⟩ := loadStep_eq_ok hstep
  -- The cases of the step are the status of the stage, so that each meets one phase only.
  cases hreads with
  | complete hstatus =>
    refine ⟨[], Quiet.nil, rfl, (List.append_nil _).symm, ?_⟩
    cases hphase with
    | pending hnoOp => exact absurd (hnoOp.symm.trans hstatus) (by decide)
    | waiting hwaits => exact absurd (hwaits.symm.trans hstatus) (by decide)
    | complete _ hin hout hloaded => exact .done (by simp) (by simp) fun _ => hloaded
    | done hnoOp => exact absurd (hnoOp.symm.trans hstatus) (by decide)
  | waits hstatus =>
    refine ⟨[], Quiet.nil, rfl, (List.append_nil _).symm, ?_⟩
    cases hphase with
    | pending hnoOp => exact absurd (hnoOp.symm.trans hstatus) (by decide)
    | waiting _ hin hout hasked => exact .waiting hstatus hin hout hasked
    | complete hcomplete => exact absurd (hcomplete.symm.trans hstatus) (by decide)
    | done hnoOp => exact absurd (hnoOp.symm.trans hstatus) (by decide)
  | empty hstatus hinput =>
    refine ⟨[], Quiet.nil, rfl, (List.append_nil _).symm, ?_⟩
    cases hphase with
    | pending _ hin hout => exact .pending hstatus hin hout
    | waiting hwaits => exact absurd (hwaits.symm.trans hstatus) (by decide)
    | complete hcomplete => exact absurd (hcomplete.symm.trans hstatus) (by decide)
    | done _ hin hloaded => exact .done hstatus hin hloaded
  | backedOff hstatus hready hinput hs =>
    exact ⟨_, quiet_backedOff _, hs.unit, hs.history,
      .pending hstatus hready (hphase.of_ready hstatus hready)⟩
  | passed hmethod hstatus hready hinput hhs hsecured =>
    refine ⟨_, quiet_secured hhs, hsecured.unit, hsecured.history, .done ?_ (by simp) ?_⟩
    · simpa using hstatus
    · intro hconventional
      exact absurd (hmethod.symm.trans hconventional) (by decide)
  | passes hmethod hstatus hready hinput hhs hsecured =>
    exact ⟨_, quiet_secured hhs, hsecured.unit, hsecured.history,
      .pending hstatus hready (hphase.of_ready hstatus hready)⟩
  | @sends addr s₁ hs hmethod hstatus hready hinput hhs hsecured =>
    obtain ⟨accepted, hsent, hunit⟩ := send_history cfg s₁
      (s₁.request { st with stall := false } .load addr)
    have hquiet : Quiet (hs ++
        [.sent (s₁.request { st with stall := false } .load addr) accepted]) := by
      apply (quiet_secured hhs).append
      apply Quiet.of_admissible rfl
      intro h htype
      cases htype
    have hhistory := hsent.trans (by rw [hsecured.history, List.append_assoc])
    refine ⟨_, hquiet, hunit.trans hsecured.unit, hhistory, ?_⟩
    refine .waiting rfl ?_ (hphase.of_ready hstatus hready) ?_
    · show st.input ≠ none
      rw [show st.input = some addr from hinput]
      exact Option.some_ne_none addr
    · refine ⟨s₁.request { st with stall := false } .load addr, accepted, rfl,
        congrArg (fun id => [id]) hid, ?_⟩
      rw [hhistory, episode_append hquiet.1]
      exact List.mem_append_right _ (List.mem_append_right _ (List.mem_singleton_self _))

/-- What a step of a load changes, when it keeps where the load stands. -/
theorem sound_stepLoad0 (hids : s.unit.load0.id = 0) (hsound : Sound method s)
    (hstep : s.stepLoad0 cfg info method = .ok s') : Sound method s' := by
  obtain ⟨⟨s₁, st'⟩, hload, heq⟩ := Outcome.bind_eq_ok.mp hstep
  cases heq
  cases hsound.phase with
  | loading hcurr h0 h1 hcomputed hstore hout =>
    obtain ⟨hs, hquiet, hunit, hhistory, hphase⟩ := loadStep_phase hids h0 hload
    rw [hunit]
    refine ⟨?_, .loading hcurr hphase ?_ hcomputed hstore hout⟩
    · show Ordered s₁.history
      rw [hhistory]
      exact hquiet.2 _ hsound.ordered
    · show LoadPhase method s₁.history 1 s.unit.load1
      rw [hhistory]
      exact h1.append hquiet.1
  | idle hidle hcurr h0 h1 hcomputed hstore hout =>
    obtain ⟨rfl, hempty⟩ := loadStep_of_empty h0 hload
    exact ⟨hsound.ordered, .idle hidle hcurr hempty h1 hcomputed hstore hout⟩
  | computed hcurr h0 h1 hloaded hout =>
    obtain ⟨rfl, hempty⟩ := loadStep_of_empty h0 hload
    exact ⟨hsound.ordered, .computed hcurr hempty h1 hloaded hout⟩
  | stored hcurr h0 h1 hcomputed hstore hout hstored =>
    obtain ⟨rfl, hempty⟩ := loadStep_of_empty h0 hload
    exact ⟨hsound.ordered, .stored hcurr hempty h1 hcomputed hstore hout hstored⟩

theorem sound_stepLoad1 (hids : s.unit.load1.id = 1) (hsound : Sound method s)
    (hstep : s.stepLoad1 cfg info method = .ok s') : Sound method s' := by
  obtain ⟨⟨s₁, st'⟩, hload, heq⟩ := Outcome.bind_eq_ok.mp hstep
  cases heq
  cases hsound.phase with
  | loading hcurr h0 h1 hcomputed hstore hout =>
    obtain ⟨hs, hquiet, hunit, hhistory, hphase⟩ := loadStep_phase hids h1 hload
    rw [hunit]
    refine ⟨?_, .loading hcurr ?_ hphase hcomputed hstore hout⟩
    · show Ordered s₁.history
      rw [hhistory]
      exact hquiet.2 _ hsound.ordered
    · show LoadPhase method s₁.history 0 s.unit.load0
      rw [hhistory]
      exact h0.append hquiet.1
  | idle hidle hcurr h0 h1 hcomputed hstore hout =>
    obtain ⟨rfl, hempty⟩ := loadStep_of_empty h1 hload
    exact ⟨hsound.ordered, .idle hidle hcurr h0 hempty hcomputed hstore hout⟩
  | computed hcurr h0 h1 hloaded hout =>
    obtain ⟨rfl, hempty⟩ := loadStep_of_empty h1 hload
    exact ⟨hsound.ordered, .computed hcurr h0 hempty hloaded hout⟩
  | stored hcurr h0 h1 hcomputed hstore hout hstored =>
    obtain ⟨rfl, hempty⟩ := loadStep_of_empty h1 hload
    exact ⟨hsound.ordered, .stored hcurr h0 hempty hcomputed hstore hout hstored⟩

/-- The operands are handed on when both are there, and then the loads are complete. -/
theorem LoadPhase.done_of_output (hphase : LoadPhase method h i st) (hout : st.outputReady = true) :
    Empty st.getOutput ∧ (method = .conventional → Loaded h i) := by
  cases hphase with
  | pending _ _ hnot => exact absurd (hnot.symm.trans hout) (by decide)
  | waiting _ _ hnot => exact absurd (hnot.symm.trans hout) (by decide)
  | complete _ _ hnot => exact absurd (hnot.symm.trans hout) (by decide)
  | done hstatus hin hloaded =>
    refine ⟨?_, hloaded⟩
    unfold PIMStage.getOutput
    rw [if_pos hout]
    exact ⟨hstatus, hin, rfl⟩

theorem sound_stepComputation (hsound : Sound method s) (hstep : s.stepComputation = .ok s') :
    Sound method s' := by
  obtain ⟨computation, latency, rfl, hkeeps⟩ := stepComputation_eq_ok hstep
  refine ⟨hsound.ordered, ?_⟩
  show Phase method s.history { feedComputation s.unit with
    computation := computation, latency := latency }
  by_cases hboth : (s.unit.load0.outputReady && s.unit.load1.outputReady) = true
  · -- Both outputs are there, so that both operands were loaded.
    obtain ⟨hout0, hout1⟩ := Bool.and_eq_true_iff.mp hboth
    unfold feedComputation
    rw [if_pos hboth]
    cases hsound.phase with
    | loading hcurr h0 h1 hcomputed hstore hout =>
      obtain ⟨hempty0, hloaded0⟩ := h0.done_of_output hout0
      obtain ⟨hempty1, hloaded1⟩ := h1.done_of_output hout1
      exact .computed hcurr hempty0 hempty1 (fun hm => ⟨hloaded0 hm, hloaded1 hm⟩) hout
    | idle _ _ h0 => exact absurd (h0.outputReady.symm.trans hout0) (by decide)
    | computed _ h0 => exact absurd (h0.outputReady.symm.trans hout0) (by decide)
    | stored _ h0 => exact absurd (h0.outputReady.symm.trans hout0) (by decide)
  · have hfeed : feedComputation s.unit = { s.unit with
        computation := { s.unit.computation with stall := false, inputReady := false } } := by
      unfold feedComputation
      rw [if_neg hboth]
    rw [hfeed] at hkeeps ⊢
    rw [hkeeps rfl]
    cases hsound.phase with
    | idle hidle hcurr h0 h1 hcomputed hstore hout =>
      exact .idle hidle hcurr h0 h1 hcomputed hstore hout
    | loading hcurr h0 h1 hcomputed hstore hout => exact .loading hcurr h0 h1 hcomputed hstore hout
    | computed hcurr h0 h1 hloaded hout => exact .computed hcurr h0 h1 hloaded hout
    | stored hcurr h0 h1 hcomputed hstore hout hstored =>
      exact .stored hcurr h0 h1 hcomputed hstore hout hstored

theorem released_concat (addr : UInt64) {pre : List PipelineHappening} (hordered : Ordered pre)
    (hstored : .stored ∈ episode pre) :
    Ordered (pre ++ [.released addr]) ∧ .stored ∈ episode (pre ++ [.released addr]) :=
  ⟨admitted_concat hordered hstored, stored_append hstored (by simp [PipelineHappening.starts])⟩

theorem sound_finish (hsound : Sound method s) (hfinish : s.finish info = .ok s') :
    Sound method s' := by
  rcases finish_cases hfinish with ⟨rfl, -⟩ | ⟨f, s₁, hready, hcurr, hrelease, rfl⟩
  · exact hsound
  · cases hsound.phase with
    | idle _ hnone => exact absurd (hnone.symm.trans hcurr) (Option.some_ne_none f).symm
    | loading _ _ _ _ _ hout => exact absurd (hout.symm.trans hready) (by decide)
    | computed _ _ _ _ hout => exact absurd (hout.symm.trans hready) (by decide)
    | stored _ h0 h1 hcomputed hstore hout hstored =>
      obtain ⟨hs, hsecured, hordered⟩ : ∃ hs, Secured s s₁ hs ∧ Ordered (s.history ++ hs) := by
        rcases releaseLocks_secured hrelease with hsecured | ⟨first, second, target, hsecured⟩
        · exact ⟨[], hsecured, by rw [List.append_nil]; exact hsound.ordered⟩
        · obtain ⟨hordered₁, hstored₁⟩ := released_concat first hsound.ordered hstored
          obtain ⟨hordered₂, hstored₂⟩ := released_concat second hordered₁ hstored₁
          obtain ⟨hordered₃, -⟩ := released_concat target hordered₂ hstored₂
          rw [List.append_assoc, List.append_assoc] at hordered₃
          exact ⟨_, hsecured, hordered₃⟩
      refine ⟨?_, ?_⟩
      · show Ordered (s₁.history ++ [.finished])
        rw [hsecured.history]
        exact admitted_concat hordered trivial
      · show Phase method (s₁.history ++ [.finished]) { s₁.unit with
          store := s₁.unit.store.getOutput, curr := none }
        rw [hsecured.unit]
        refine .idle (.inr ?_) rfl h0 h1 hcomputed ?_ ?_
        · rw [episode_append (by simp [PipelineHappening.starts])]
          exact List.mem_append_right _ (List.mem_singleton_self _)
        · unfold PIMStage.getOutput
          rw [if_pos hready]
          exact hstore
        · unfold PIMStage.getOutput
          rw [if_pos hready]

theorem feedStore_of_not {u : AdderConventional} (hcomputed : u.computation.outputReady = false) :
    feedStore u = { u with store := { u.store with stall := false, inputReady := false } } := by
  unfold feedStore
  rw [if_neg (by rw [hcomputed]; exact Bool.false_ne_true)]

/-- The store takes the output of the computation. -/
theorem feedStore_computation (u : AdderConventional) :
    (feedStore u).computation.outputReady = false := by
  by_cases hout : u.computation.outputReady = true
  · unfold feedStore PIMStage.getOutput
    rw [if_pos hout, if_pos hout]
  · rw [feedStore_of_not (Bool.eq_false_iff.mpr hout)]
    exact Bool.eq_false_iff.mpr hout

theorem feedStore_store (u : AdderConventional) :
    (feedStore u).store.outputReady = u.store.outputReady ∧ (feedStore u).curr = u.curr := by
  unfold feedStore
  split <;> exact ⟨rfl, rfl⟩

/-- The operands were loaded, and the computation has handed its output on. -/
structure Stores (method : PIMLoadMethod) (s : Pipeline) : Prop where
  ordered : Ordered s.history
  curr : s.unit.curr ≠ none
  load0 : Empty s.unit.load0
  load1 : Empty s.unit.load1
  loaded : method = .conventional → Loaded s.history 0 ∧ Loaded s.history 1
  computed : s.unit.computation.outputReady = false
  out : s.unit.store.outputReady = false

theorem Stores.append (hs' : Stores method s) (hunit : s'.unit = s.unit)
    (hhistory : s'.history = s.history ++ hs) (hhs : ∀ e ∈ hs, e.starts = false)
    (hordered : Ordered (s.history ++ hs)) : Stores method s' := by
  obtain ⟨-, hcurr, h0, h1, hloaded, hcomputed, hout⟩ := hs'
  rw [← hunit] at hcurr h0 h1 hcomputed hout
  refine ⟨?_, hcurr, h0, h1, ?_, hcomputed, hout⟩
  · rwa [hhistory]
  · rw [hhistory]
    exact fun hm => (hloaded hm).imp (·.append hhs) (·.append hhs)

/-- The store has no output yet. -/
theorem Stores.sound (hs' : Stores method s) (hout : st.outputReady = false) :
    Sound method { s with unit := { s.unit with store := st } } :=
  ⟨hs'.ordered, .computed hs'.curr hs'.load0 hs'.load1 hs'.loaded hout⟩

/-- The store writes its output. -/
theorem Stores.sound_stored (hs' : Stores method s) (hstatus : st.status = .noOp) :
    Sound method { s with
      unit := { s.unit with store := st }
      history := s.history ++ [.stored] } := by
  have hstarts : ∀ e ∈ [PipelineHappening.stored], e.starts = false := by
    simp [PipelineHappening.starts]
  refine ⟨admitted_concat hs'.ordered trivial, ?_⟩
  cases hout : st.outputReady with
  | true =>
    refine .stored hs'.curr hs'.load0 hs'.load1 hs'.computed hstatus hout ?_
    rw [episode_append hstarts]
    exact List.mem_append_right _ (List.mem_singleton_self _)
  | false =>
    exact .computed hs'.curr hs'.load0 hs'.load1
      (fun hm => (hs'.loaded hm).imp (·.append hstarts) (·.append hstarts)) hout

/-- **A step of the store** after the operands were loaded. -/
theorem Stores.step {ready : Bool} (hs' : Stores method s)
    (hreads : ReadsInput cfg method .store s s.unit.store ready s' st) :
    Sound method { s' with
      unit := { s'.unit with store := if ready then st.writeOutput else st }
      history := s'.history ++ if ready then [.stored] else [] } := by
  cases hreads with
  | complete hstatus => exact hs'.sound_stored (by simp)
  | waits hstatus =>
    rw [if_neg Bool.false_ne_true, if_neg Bool.false_ne_true, List.append_nil]
    exact hs'.sound hs'.out
  | empty hstatus hinput =>
    rw [if_neg Bool.false_ne_true, if_neg Bool.false_ne_true, List.append_nil]
    exact hs'.sound hs'.out
  | @backedOff addr _ hstatus hready hinput hs =>
    have hquiet := quiet_backedOff addr
    have hafter := hs'.append hs.unit hs.history hquiet.1 (hquiet.2 _ hs'.ordered)
    rw [if_neg Bool.false_ne_true, if_neg Bool.false_ne_true, List.append_nil]
    exact hafter.sound hs'.out
  | passed hmethod hstatus hready hinput hhs hsecured =>
    have hquiet := quiet_secured hhs
    have hafter := hs'.append hsecured.unit hsecured.history hquiet.1 (hquiet.2 _ hs'.ordered)
    exact hafter.sound_stored (by simpa using hstatus)
  | passes hmethod hstatus hready hinput hhs hsecured =>
    have hquiet := quiet_secured hhs
    have hafter := hs'.append hsecured.unit hsecured.history hquiet.1 (hquiet.2 _ hs'.ordered)
    rw [if_neg Bool.false_ne_true, if_neg Bool.false_ne_true, List.append_nil]
    exact hafter.sound hs'.out
  | @sends addr s₁ hs hmethod hstatus hready hinput hhs hsecured =>
    have hquiet := quiet_secured hhs
    have hafter := hs'.append hsecured.unit hsecured.history hquiet.1 (hquiet.2 _ hs'.ordered)
    obtain ⟨accepted, hhistory, hunit⟩ := send_history cfg s₁
      (s₁.request s.unit.store .store addr)
    -- Both loads are complete when the store request is sent.
    have hsent := hafter.append hunit hhistory (by simp [PipelineHappening.starts])
      (admitted_concat hafter.ordered fun _ => hafter.loaded hmethod)
    rw [if_neg Bool.false_ne_true, if_neg Bool.false_ne_true, List.append_nil]
    exact hsent.sound hs'.out

/-- A store without an input does nothing. -/
theorem stepStore_of_not (hcomputed : s.unit.computation.outputReady = false)
    (hstore : s.unit.store.status = .noOp) (hstep : s.stepStore cfg info method = .ok s') :
    s' = { s with unit := { s.unit with
      store := { s.unit.store with stall := false, inputReady := false } } } := by
  obtain ⟨ready, s₁, st, hreads, rfl⟩ := stepStore_eq_ok hstep
  rw [feedStore_of_not hcomputed] at hreads
  have hnoOp : ({ s.unit.store with stall := false, inputReady := false } : PIMStage).status =
    .noOp := hstore
  obtain ⟨rfl, rfl, rfl⟩ := ReadsInput.of_empty hnoOp rfl hreads
  simp

theorem sound_stepStore (hsound : Sound method s) (hstep : s.stepStore cfg info method = .ok s') :
    Sound method s' := by
  cases hsound.phase with
  | idle hidle hcurr h0 h1 hcomputed hstore hout =>
    rw [stepStore_of_not hcomputed hstore hstep]
    exact ⟨hsound.ordered, .idle hidle hcurr h0 h1 hcomputed hstore hout⟩
  | loading hcurr h0 h1 hcomputed hstore hout =>
    rw [stepStore_of_not hcomputed hstore hstep]
    exact ⟨hsound.ordered, .loading hcurr h0 h1 hcomputed hstore hout⟩
  | computed hcurr h0 h1 hloaded hout =>
    obtain ⟨ready, s₁, st, hreads, rfl⟩ := stepStore_eq_ok hstep
    obtain ⟨h0', h1', -, -, -⟩ := feedStore_keeps s.unit
    obtain ⟨hout', hcurr'⟩ := feedStore_store s.unit
    have hstores : Stores method { s with unit := feedStore s.unit } := by
      refine ⟨hsound.ordered, ?_, ?_, ?_, hloaded, feedStore_computation _, ?_⟩
      · rwa [hcurr']
      · rwa [h0']
      · rwa [h1']
      · rwa [hout']
    exact hstores.step hreads
  | stored hcurr h0 h1 hcomputed hstore hout hstored =>
    rw [stepStore_of_not hcomputed hstore hstep]
    exact ⟨hsound.ordered, .stored hcurr h0 h1 hcomputed hstore hout hstored⟩

/-! ### Transitions and runs -/

/-- **A cycle of the unit.** -/
theorem sound_unitStep {answer : Option TraceInput} (ht : Tracked False s)
    (hsound : Sound method s) (hstep : s.unitStep cfg info method answer = .ok s') :
    Sound method s' := by
  obtain ⟨s₁, hstart, hstep⟩ := Outcome.bind_eq_ok.mp hstep
  obtain ⟨s₂, hstore, hstep⟩ := Outcome.bind_eq_ok.mp hstep
  obtain ⟨s₃, hfinish, hstep⟩ := Outcome.bind_eq_ok.mp hstep
  obtain ⟨s₄, hcomputation, hstep⟩ := Outcome.bind_eq_ok.mp hstep
  obtain ⟨s₅, hload1, hload0⟩ := Outcome.bind_eq_ok.mp hstep
  obtain ⟨ht₂, -⟩ := tracked_stepStore (n := 0) (tracked_start ht hstart) False.elim hstore
  obtain ⟨ht₃, -⟩ := tracked_finish ht₂ hfinish
  obtain ⟨ht₄, -⟩ := tracked_stepComputation method ht₃ hcomputation
  obtain ⟨ht₅, -⟩ := tracked_stepLoad1 (n := 0) ht₄ False.elim hload1
  have hsound₄ := sound_stepComputation
    (sound_finish (sound_stepStore (sound_start hsound hstart) hstore) hfinish) hcomputation
  exact sound_stepLoad0 ht₅.ids.1 (sound_stepLoad1 ht₄.ids.2.1 hsound₄ hload1) hload0

theorem carried_pos {m : MemRequest} {id : Int} (hm : m ∈ s.memory) (hid : id ∈ m.stageId) :
    0 < s.carried id := by
  unfold carried carriedIds
  apply List.countP_pos_iff.mpr
  refine ⟨m.stageId, ?_, decide_eq_true hid⟩
  exact List.mem_append_right _ (List.mem_append_right _ (List.mem_map_of_mem hm))

/-- Only a stage that waits is completed. -/
theorem Matches.outstanding {n : ℕ} (hst : Matches False n st) (hn : 0 < n) :
    st.status = .outstanding := by
  obtain ⟨hmost, -⟩ := hst
  unfold PIMStage.expects at hmost
  by_contra hnot
  rw [if_neg hnot] at hmost
  omega

theorem LoadPhase.completed (hphase : LoadPhase method h i st) (hstatus : st.status = .outstanding)
    (hhs : ∀ e ∈ hs, e.starts = false) (hcompleted : .completed i ∈ hs) :
    LoadPhase method (h ++ hs) i { st with status := .complete } := by
  cases hphase with
  | waiting _ hin hout hasked => exact .complete rfl hin hout (hasked.loaded hhs hcompleted)
  | pending hnoOp => exact absurd (hnoOp.symm.trans hstatus) (by decide)
  | complete hcomplete => exact absurd (hcomplete.symm.trans hstatus) (by decide)
  | done hnoOp => exact absurd (hnoOp.symm.trans hstatus) (by decide)

theorem Empty.not_outstanding (hempty : Empty st) (hstatus : st.status = .outstanding) : False :=
  absurd (hempty.status.symm.trans hstatus) (by decide)

theorem Phase.complete_load0 {u : AdderConventional} (hphase : Phase method h u)
    (hstatus : u.load0.status = .outstanding) (hhs : ∀ e ∈ hs, e.starts = false)
    (hcompleted : .completed 0 ∈ hs) : Phase method (h ++ hs) (completeStage u 0) := by
  cases hphase with
  | loading hcurr h0 h1 hcomputed hstore hout =>
    exact .loading hcurr (h0.completed hstatus hhs hcompleted) (h1.append hhs) hcomputed hstore hout
  | idle _ _ h0 => exact (h0.not_outstanding hstatus).elim
  | computed _ h0 => exact (h0.not_outstanding hstatus).elim
  | stored _ h0 => exact (h0.not_outstanding hstatus).elim

theorem Phase.complete_load1 {u : AdderConventional} (hphase : Phase method h u)
    (hstatus : u.load1.status = .outstanding) (hhs : ∀ e ∈ hs, e.starts = false)
    (hcompleted : .completed 1 ∈ hs) : Phase method (h ++ hs) (completeStage u 1) := by
  cases hphase with
  | loading hcurr h0 h1 hcomputed hstore hout =>
    exact .loading hcurr (h0.append hhs) (h1.completed hstatus hhs hcompleted) hcomputed hstore hout
  | idle _ _ _ h1 => exact (h1.not_outstanding hstatus).elim
  | computed _ _ h1 => exact (h1.not_outstanding hstatus).elim
  | stored _ _ h1 => exact (h1.not_outstanding hstatus).elim

theorem Phase.complete_store {u : AdderConventional} (hphase : Phase method h u)
    (hstatus : u.store.status = .outstanding) (hhs : ∀ e ∈ hs, e.starts = false) :
    Phase method (h ++ hs) (completeStage u 3) := by
  cases hphase.append hhs with
  | computed hcurr h0 h1 hloaded hout => exact .computed hcurr h0 h1 hloaded hout
  | idle _ _ _ _ _ hnoOp => exact absurd (hnoOp.symm.trans hstatus) (by decide)
  | loading _ _ _ _ hnoOp => exact absurd (hnoOp.symm.trans hstatus) (by decide)
  | stored _ _ _ _ hnoOp => exact absurd (hnoOp.symm.trans hstatus) (by decide)

/-- **A memory object completes a request**, in any order. -/
theorem sound_complete {k : ℕ} (ht : Tracked False s) (hsound : Sound method s)
    (hcomplete : s.complete k = .ok s') : Sound method s' := by
  cases hm : s.memory[k]? with
  | none =>
    unfold complete at hcomplete
    rw [hm] at hcomplete
    cases hcomplete
    exact hsound
  | some m =>
    have hmem : m ∈ s.memory := List.mem_of_getElem? hm
    have hcallable := ht.placed m (List.mem_append_right _ hmem)
    have hpos (id : Int) (hstage : m.stageId = [id]) : 0 < s.carried id :=
      carried_pos hmem (by rw [hstage]; exact List.mem_singleton_self id)
    have hsingle := ht.single m.stageId
      (List.mem_append_right _ (List.mem_append_right _ (List.mem_map_of_mem hmem)))
    rcases hsingle with hstage | hstage | hstage
    · obtain ⟨hs, hone, hall, heq⟩ := complete_eq hm hcallable (.inl rfl) hstage
      have hquiet := quiet_completed hall
      rw [heq] at hcomplete
      cases hcomplete
      exact ⟨hquiet.2 _ hsound.ordered,
        hsound.phase.complete_load0 (ht.load0.outstanding (hpos 0 hstage)) hquiet.1 hone⟩
    · obtain ⟨hs, hone, hall, heq⟩ := complete_eq hm hcallable (.inr (.inl rfl)) hstage
      have hquiet := quiet_completed hall
      rw [heq] at hcomplete
      cases hcomplete
      exact ⟨hquiet.2 _ hsound.ordered,
        hsound.phase.complete_load1 (ht.load1.outstanding (hpos 1 hstage)) hquiet.1 hone⟩
    · obtain ⟨hs, hone, hall, heq⟩ := complete_eq hm hcallable (.inr (.inr rfl)) hstage
      have hquiet := quiet_completed hall
      rw [heq] at hcomplete
      cases hcomplete
      exact ⟨hquiet.2 _ hsound.ordered,
        hsound.phase.complete_store (ht.store.outstanding (hpos 3 hstage)) hquiet.1⟩

/-- **A transition** keeps the order and the phase. -/
theorem sound_step {e : PipelineEvent} (ht : Tracked False s) (hsound : Sound method s)
    (hstep : Pipeline.step cfg info method s e = .ok s') : Sound method s' := by
  cases e with
  | unitStep answer => exact sound_unitStep ht hsound hstep
  | pimMctrlStep =>
    obtain ⟨⟨env, verdicts⟩, -, hstep⟩ := Outcome.bind_eq_ok.mp hstep
    obtain ⟨⟨coherence, c⟩, -, heq⟩ := Outcome.bind_eq_ok.mp hstep
    cases heq
    exact hsound.quiet (quiet_flatMap verdicts) rfl rfl
  | takePim pid =>
    obtain ⟨⟨req, c⟩, -, heq⟩ := Outcome.bind_eq_ok.mp hstep
    cases heq
    exact hsound.quiet Quiet.nil rfl (List.append_nil _).symm
  | merge i j =>
    cases hstep
    rcases merge_cases s i j with ⟨heq, -⟩ | ⟨req, other, -, -, -, heq⟩
    · rw [heq]
      exact hsound
    · rw [heq]
      exact hsound.quiet Quiet.nil rfl (List.append_nil _).symm
  | complete k => exact sound_complete ht hsound hstep
  | host host =>
    cases hstep
    exact hsound.quiet Quiet.nil rfl (List.append_nil _).symm

theorem sound_init (n : ℕ) (coherence : Coherence) : Sound method (init n coherence) := by
  refine ⟨admitted_nil, .idle (.inl ?_) rfl ⟨rfl, rfl, rfl⟩ ⟨rfl, rfl, rfl⟩ rfl rfl rfl⟩
  intro e he
  cases he

end Pipeline

/-- **The unit works in order**: whatever functions it is given and in whatever order memory objects
complete requests, it takes a function when none is in progress, sends a store request when both
loads of the function are complete, and hands the page locks back when the store has produced
output. Before that, a stage or the controller hands back only a lock that it has just taken. -/
theorem adder_ordered (cfg : Config) (info : List (Region Obj)) (method : PIMLoadMethod) (n : ℕ)
    (coherence : Coherence) {es : List PipelineEvent} {s : Pipeline}
    (hrun : exec (Pipeline.step cfg info method) (Pipeline.init n coherence) es = .ok s) :
    ∀ pre e post, s.history = pre ++ e :: post → Pipeline.Admissible pre e := by
  have hboth : Pipeline.Tracked False s ∧ Pipeline.Sound method s := by
    refine exec_invariant (I := fun s => Pipeline.Tracked False s ∧ Pipeline.Sound method s) ?_
      ⟨Pipeline.tracked_init False n coherence, Pipeline.sound_init n coherence⟩ hrun
    intro s e s' ⟨ht, hsound⟩ hstep
    exact ⟨Pipeline.tracked_step ht False.elim hstep, Pipeline.sound_step ht hsound hstep⟩
  exact hboth.2.ordered

/-- Two additions, one after the other. The loads of the first one complete in the other order. -/
def twoAdditions : List PipelineEvent :=
  [addition 0 64, .pimMctrlStep, .takePim 0, .takePim 0, .complete 1, .complete 0, .unitStep none,
    .unitStep none, .unitStep none, .pimMctrlStep, .takePim 0, .complete 0, .unitStep none,
    addition 192 256]

/-- The first addition is finished, and the second one is in progress. -/
theorem adder_ordered_two_additions : ∃ s : Pipeline,
    exec (Pipeline.step {} oneObject .conventional) (Pipeline.init 1 noHost) twoAdditions = .ok s ∧
      .finished ∈ s.history ∧ (∀ pre e post, s.history = pre ++ e :: post →
        Pipeline.Admissible pre e) := by
  obtain ⟨s, hrun, hs⟩ := Outcome.exists_of_map_eq_ok
    (f := fun s : Pipeline => decide (.finished ∈ s.history)) (b := true)
    (x := exec (Pipeline.step {} oneObject .conventional) (Pipeline.init 1 noHost) twoAdditions)
    (by decide +kernel)
  exact ⟨s, hrun, of_decide_eq_true hs, adder_ordered {} oneObject .conventional 1 noHost hrun⟩

/-- The lock of an operand is taken and handed back while its block is dirty in a host, before the
store has produced output. -/
theorem not_locks_kept : ∃ (t : System) (s : Pipeline) (pre post : List PipelineHappening),
    exec (System.step {} oneObject) (smallSystem {} oneWrite) writeBlock = .ok t ∧
    exec (Pipeline.step {} oneObject .conventional) (Pipeline.init 1 t.coherence)
      [addition 0 64] = .ok s ∧
    s.history = pre ++ .backedOff 64 :: post ∧ .locked 64 ∈ Pipeline.episode pre ∧
      .stored ∉ Pipeline.episode pre := by
  obtain ⟨t, ht, hpipeline⟩ := Outcome.exists_of_map_eq_ok
    (f := fun t : System => (exec (Pipeline.step {} oneObject .conventional)
      (Pipeline.init 1 t.coherence) [addition 0 64]).map fun s : Pipeline => s.history.take 3)
    (x := exec (System.step {} oneObject) (smallSystem {} oneWrite) writeBlock)
    (b := .ok [.started { input := [0, 64], output := [128] }, .locked 64, .backedOff 64])
    (by decide +kernel)
  obtain ⟨s, hs, hhistory⟩ := Outcome.exists_of_map_eq_ok hpipeline
  refine ⟨t, s, [.started { input := [0, 64], output := [128] }, .locked 64], s.history.drop 3,
    ht, hs, ?_, by decide, by decide⟩
  have hsplit := List.take_append_drop 3 s.history
  rw [hhistory] at hsplit
  exact hsplit.symm

end PIMSim
