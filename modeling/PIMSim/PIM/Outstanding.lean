import PIMSim.Library.Queues
import PIMSim.PIM.Pipeline
import PIMSim.PIM.Traffic

/-!
# The outstanding requests of a pipeline

A load or a store that has sent its request is outstanding until a callback completes it. The stage
does not look at the answer of the controller, and a memory object that merges two requests keeps the
stages of one of them. In either case a stage is outstanding without a request on its way.

## Main definitions

* `Pipeline.carried`: the stages of the requests on their way
* `Pipeline.KeepsRequests`: a step refuses no request, and merges none of another stage
* `Pipeline.Tracked`: the requests on their way, and the stages that wait for them

## Main results

* `Pipeline.readInput_cases`: what a load and a store do with their input
* `Pipeline.tracked_step`: a transition keeps at most one request for each outstanding stage, and
  exactly one if it keeps the requests
* `outstanding_iff_carried`: so does every run
-/

namespace PIMSim

open CSharp Transition Queues Sweep

variable {Obj : Type} {cfg : Config} {info : List (Region Obj)} {method : PIMLoadMethod}

/-- How many requests a stage waits for. -/
def PIMStage.expects (st : PIMStage) : ℕ := if st.status = .outstanding then 1 else 0

/-- How many requests a stage is about to send, when its address is flushed. -/
def PIMStage.pends (method : PIMLoadMethod) (st : PIMStage) : ℕ :=
  if method = .conventional ∧ st.status = .noOp ∧ st.inputReady then 1 else 0

@[simp] theorem PIMStage.writeOutput_id (st : PIMStage) : st.writeOutput.id = st.id := by
  unfold writeOutput
  cases st.intermid <;> rfl

@[simp] theorem PIMStage.writeOutput_expects (st : PIMStage) :
    st.writeOutput.expects = st.expects := by
  unfold writeOutput expects
  cases st.intermid <;> rfl

theorem PIMStage.getOutput_keeps (method : PIMLoadMethod) (st : PIMStage) :
    st.getOutput.id = st.id ∧ st.getOutput.expects = st.expects ∧
      st.getOutput.pends method = st.pends method := by
  unfold getOutput
  split <;> exact ⟨rfl, rfl, rfl⟩

namespace Pipeline

variable {s s' : Pipeline} {st st' : PIMStage} {type : RequestType} {addr : UInt64}

/-! ### What the parts of a cycle do -/

/-- Only locks were taken or handed back, and hosts were flushed. -/
structure Secured (s s' : Pipeline) (hs : List PipelineHappening) : Prop where
  pimMctrl : s'.pimMctrl = s.pimMctrl
  unit : s'.unit = s.unit
  memory : s'.memory = s.memory
  consistency : s'.coherence.consistency = s.coherence.consistency
  history : s'.history = s.history ++ hs

theorem setlock_secured (h : s.setlock info addr = .ok s') : Secured s s' [.locked addr] := by
  obtain ⟨lock, -, h⟩ := Outcome.bind_eq_ok.mp h
  obtain ⟨lock', -, heq⟩ := Outcome.bind_eq_ok.mp h
  cases heq
  exact ⟨rfl, rfl, rfl, rfl, rfl⟩

theorem releseLock_secured {why : UInt64 → PipelineHappening}
    (h : s.releseLock info addr why = .ok s') : Secured s s' [why addr] := by
  obtain ⟨lock, -, h⟩ := Outcome.bind_eq_ok.mp h
  obtain ⟨lock', -, heq⟩ := Outcome.bind_eq_ok.mp h
  cases heq
  exact ⟨rfl, rfl, rfl, rfl, rfl⟩

theorem Secured.trans {s'' : Pipeline} {hs hs' : List PipelineHappening} (h : Secured s s' hs)
    (h' : Secured s' s'' hs') : Secured s s'' (hs ++ hs') where
  pimMctrl := h'.pimMctrl.trans h.pimMctrl
  unit := h'.unit.trans h.unit
  memory := h'.memory.trans h.memory
  consistency := h'.consistency.trans h.consistency
  history := by rw [h'.history, h.history, List.append_assoc]

/-- A stage that goes on took at most the lock of its address. One that does not handed it back. -/
theorem secure_cases {goesOn : Bool} (h : s.secure cfg info addr = .ok (goesOn, s')) :
    (goesOn = true ∧ (Secured s s' [] ∨ Secured s s' [.locked addr])) ∨
      goesOn = false ∧ Secured s s' [.locked addr, .backedOff addr] := by
  unfold secure at h
  by_cases hmodel : s.coherence.consistency = .spinLock
  · rw [if_pos hmodel] at h
    obtain ⟨s₁, hset, h⟩ := Outcome.bind_eq_ok.mp h
    obtain ⟨⟨flushed, host⟩, -, h⟩ := Outcome.bind_eq_ok.mp h
    have hlocked := setlock_secured hset
    have hhost : Secured s { s₁ with coherence := { s₁.coherence with host := host } }
        [.locked addr] :=
      ⟨hlocked.pimMctrl, hlocked.unit, hlocked.memory, hlocked.consistency, hlocked.history⟩
    cases flushed with
    | true =>
      cases h
      exact .inl ⟨rfl, .inr hhost⟩
    | false =>
      obtain ⟨s₂, hrelese, heq⟩ := Outcome.bind_eq_ok.mp h
      cases heq
      exact .inr ⟨rfl, hhost.trans (releseLock_secured hrelese)⟩
  · rw [if_neg hmodel] at h
    cases h
    exact .inl ⟨rfl, .inl ⟨rfl, rfl, rfl, rfl, (List.append_nil _).symm⟩⟩

/-- The controller takes or refuses a request. -/
theorem send_cases (cfg : Config) (s : Pipeline) (req : ProcRequest) :
    s.send cfg req = s.note [.sent req false] ∨
      s.send cfg req = { s with pimMctrl := { s.pimMctrl with
        waitQueue := s.pimMctrl.waitQueue ++ [req] } }.note [.sent req true] := by
  unfold send
  rcases Controller.addToMctrl_eq cfg s.pimMctrl req with hadd | hadd
  · rw [hadd]
    exact .inl rfl
  · rw [hadd]
    exact .inr rfl

/-- **What a load or a store does with its input.** A complete one hands it on, an outstanding one
stalls, and one without an input does nothing. With an input, it backs off, sends its request, or lets
the latency of the bypass method pass. -/
inductive ReadsInput (cfg : Config) (method : PIMLoadMethod) (type : RequestType) (s : Pipeline)
    (st : PIMStage) : Bool → Pipeline → PIMStage → Prop
  | complete (hstatus : st.status = .complete) : ReadsInput cfg method type s st true s
      { st with intermid := st.input, inputReady := false, input := none, status := .noOp }
  | waits (hstatus : st.status = .outstanding) :
      ReadsInput cfg method type s st false s { st with stall := true }
  | empty (hstatus : st.status = .noOp) (hinput : st.input = none ∨ st.inputReady = false) :
      ReadsInput cfg method type s st false s st
  | backedOff {addr : UInt64} {s' : Pipeline} (hstatus : st.status = .noOp)
      (hready : st.inputReady = true) (hinput : st.input = some addr)
      (hs : Secured s s' [.locked addr, .backedOff addr]) :
      ReadsInput cfg method type s st false s' { st with stall := true }
  | passed {addr : UInt64} {s' : Pipeline} {hs : List PipelineHappening} {latency : Int}
      (hmethod : method = .bypass) (hstatus : st.status = .noOp) (hready : st.inputReady = true)
      (hinput : st.input = some addr) (hhs : hs = [] ∨ hs = [.locked addr]) (hsecured : Secured s s' hs) :
      ReadsInput cfg method type s st true s' { st with
        latency := latency, intermid := some addr, inputReady := false, input := none }
  | passes {addr : UInt64} {s' : Pipeline} {hs : List PipelineHappening} {latency : Int}
      {stall : Bool} (hmethod : method = .bypass) (hstatus : st.status = .noOp)
      (hready : st.inputReady = true) (hinput : st.input = some addr) (hhs : hs = [] ∨ hs = [.locked addr])
      (hsecured : Secured s s' hs) :
      ReadsInput cfg method type s st false s' { st with latency := latency, stall := stall }
  | sends {addr : UInt64} {s' : Pipeline} {hs : List PipelineHappening}
      (hmethod : method = .conventional) (hstatus : st.status = .noOp)
      (hready : st.inputReady = true) (hinput : st.input = some addr) (hhs : hs = [] ∨ hs = [.locked addr])
      (hsecured : Secured s s' hs) :
      ReadsInput cfg method type s st false (s'.send cfg (s'.request st type addr))
        { st with status := .outstanding, stall := true }

theorem readInput_cases {ready : Bool}
    (h : readInput cfg info method type s st = .ok (ready, s', st')) :
    ReadsInput cfg method type s st ready s' st' := by
  obtain ⟨id, input, output, intermid, inputReady, outputReady, stall, status, latency⟩ := st
  cases status with
  | complete =>
    cases h
    exact .complete rfl
  | outstanding =>
    cases h
    exact .waits rfl
  | noOp =>
    cases input with
    | none =>
      cases h
      exact .empty rfl (.inl rfl)
    | some addr =>
      cases inputReady with
      | false =>
        cases h
        exact .empty rfl (.inr rfl)
      | true =>
        obtain ⟨⟨goesOn, s₁⟩, hsecure, h⟩ := Outcome.bind_eq_ok.mp h
        rcases secure_cases hsecure with ⟨rfl, hsecured⟩ | ⟨rfl, hsecured⟩
        · obtain ⟨hs, hhs, hsecured⟩ :
              ∃ hs, (hs = [] ∨ hs = [.locked addr]) ∧ Secured s s₁ hs := by
            rcases hsecured with hsecured | hsecured
            · exact ⟨[], .inl rfl, hsecured⟩
            · exact ⟨_, .inr rfl, hsecured⟩
          cases method with
          | bypass =>
            by_cases hlatency : Int.bmod (latency - 1) (2 ^ 32) = 0
            · simp only [issue, if_pos hlatency] at h
              cases h
              exact .passed rfl rfl rfl rfl hhs hsecured
            · simp only [issue, if_neg hlatency] at h
              cases h
              exact .passes rfl rfl rfl rfl hhs hsecured
          | conventional =>
            cases h
            exact .sends rfl rfl rfl rfl hhs hsecured
        · cases h
          exact .backedOff rfl rfl rfl hsecured

/-! ### The requests on their way -/

/-- The stages of the requests in the controller's queues and in the memory objects. -/
def carriedIds (s : Pipeline) : List (List Int) :=
  s.pimMctrl.waitQueue.map (·.stageId) ++
    (s.pimMctrl.sendQueue.flatten.map (·.stageId) ++ s.memory.map (·.stageId))

/-- How many requests on their way carry the stage `id`. -/
def carried (s : Pipeline) (id : Int) : ℕ := s.carriedIds.countP (id ∈ ·)

/-- The controller takes `n` more requests. -/
def Room (cfg : Config) (s : Pipeline) (n : ℕ) : Prop :=
  n = 0 ∨ (s.pimMctrl.waitQueue.length + n : Int) ≤ cfg.crtlQueueMax

/-- A stage with `n` requests on their way waits for all of them, and for no other one if `full`. -/
def Matches (full : Prop) (n : ℕ) (st : PIMStage) : Prop := n ≤ st.expects ∧ (full → st.expects ≤ n)

/-- The completion of a request comes to the unit. -/
def Callable (m : MemRequest) : Prop :=
  (m.memtype = .load ∨ m.memtype = .store) ∧ m.pid ≠ [] ∧ ∀ p ∈ m.pid, p = 0

/-- The requests on their way are those of the outstanding stages, at most one each, and exactly one
each if `full`. -/
structure Tracked (full : Prop) (s : Pipeline) : Prop where
  ids : s.unit.load0.id = 0 ∧ s.unit.load1.id = 1 ∧ s.unit.store.id = 3
  unitId : s.unit.id = 0
  load0 : Matches full (s.carried 0) s.unit.load0
  load1 : Matches full (s.carried 1) s.unit.load1
  store : Matches full (s.carried 3) s.unit.store
  single : ∀ ids ∈ s.carriedIds, ids = [0] ∨ ids = [1] ∨ ids = [3]
  waits : ∀ r ∈ s.pimMctrl.waitQueue, (r.type = .load ∨ r.type = .store) ∧ r.pid = 0
  placed : ∀ m ∈ s.pimMctrl.sendQueue.flatten ++ s.memory, Callable m

theorem Room.mono {n m : ℕ} (h : s.Room cfg n) (hle : m ≤ n) : s.Room cfg m := by
  rcases h with rfl | h
  · exact .inl (Nat.le_zero.mp hle)
  · exact .inr (by omega)

theorem Secured.carriedIds_eq {hs : List PipelineHappening} (h : Secured s s' hs) :
    s'.carriedIds = s.carriedIds := by
  unfold carriedIds
  rw [h.pimMctrl, h.memory]

theorem Secured.refl (s : Pipeline) : Secured s s [] :=
  ⟨rfl, rfl, rfl, rfl, (List.append_nil _).symm⟩

/-- What a load or a store changes of the requests on their way: it sends at most one, of its own
stage, and waits for it then. -/
structure Traces (cfg : Config) (method : PIMLoadMethod) (type : RequestType) (s s' : Pipeline)
    (st st' : PIMStage) : Prop where
  unit : s'.unit = s.unit
  memory : s'.memory = s.memory
  sendQueue : s'.pimMctrl.sendQueue = s.pimMctrl.sendQueue
  id : st'.id = st.id
  atMost : s.carried st.id ≤ st.expects → s'.carried st.id ≤ st'.expects
  atLeast : s.Room cfg (st.pends method) → st.expects ≤ s.carried st.id →
    st'.expects ≤ s'.carried st.id
  room : ∀ n, s.Room cfg (st.pends method + n) → s'.Room cfg n
  other : ∀ i ≠ st.id, s'.carried i = s.carried i
  single : ∀ ids ∈ s'.carriedIds, ids ∈ s.carriedIds ∨ ids = [st.id]
  waits : ∀ r ∈ s'.pimMctrl.waitQueue, r ∈ s.pimMctrl.waitQueue ∨ r.type = type ∧ r.pid = s.unit.id

/-- Nothing was sent, and the stage waits for as much as before. -/
theorem Secured.traces {hs : List PipelineHappening} (h : Secured s s' hs)
    (hid : st'.id = st.id) (hexpects : st'.expects = st.expects) :
    Traces cfg method type s s' st st' where
  unit := h.unit
  memory := h.memory
  sendQueue := by rw [h.pimMctrl]
  id := hid
  atMost := by
    unfold carried
    rw [h.carriedIds_eq, hexpects]
    exact id
  atLeast := by
    unfold carried
    rw [h.carriedIds_eq, hexpects]
    exact fun _ => id
  room := by
    intro n hroom
    unfold Room
    rw [h.pimMctrl]
    exact hroom.mono (Nat.le_add_left _ _)
  other := by
    intro i _
    unfold carried
    rw [h.carriedIds_eq]
  single := by
    intro ids hids
    rw [h.carriedIds_eq] at hids
    exact .inl hids
  waits := by
    intro r hr
    rw [h.pimMctrl] at hr
    exact .inl hr

theorem addToMctrl_of_room {c : Controller} {req : ProcRequest}
    (h : (c.waitQueue.length + 1 : Int) ≤ cfg.crtlQueueMax) :
    c.addToMctrl cfg req = (true, { c with waitQueue := c.waitQueue ++ [req] }) := by
  unfold Controller.addToMctrl
  rw [if_neg (by omega)]

/-- The stage sends its request. -/
theorem Secured.traces_send {hs : List PipelineHappening} (h : Secured s s' hs)
    (hstatus : st.status = .noOp) (hpends : st.pends method = 1) :
    Traces cfg method type s (s'.send cfg (s'.request st type addr)) st
      { st with status := .outstanding, stall := true } := by
  have hbefore : st.expects = 0 := by
    unfold PIMStage.expects
    rw [hstatus]
    rfl
  have hafter : ({ st with status := .outstanding, stall := true } : PIMStage).expects = 1 := rfl
  rcases Controller.addToMctrl_eq cfg s'.pimMctrl (s'.request st type addr) with hadd | hadd
  · -- The request is refused, so that there was no room.
    have hsend : s'.send cfg (s'.request st type addr) =
        s'.note [.sent (s'.request st type addr) false] := by
      unfold send
      rw [hadd]
    have hnoRoom : ∀ n, ¬ s.Room cfg (st.pends method + n) := by
      rintro n (hzero | hroom)
      · omega
      · rw [← h.pimMctrl] at hroom
        rw [addToMctrl_of_room (by omega)] at hadd
        cases hadd
    have hids : (s'.note [.sent (s'.request st type addr) false]).carriedIds = s.carriedIds :=
      h.carriedIds_eq
    rw [hsend]
    refine ⟨h.unit, h.memory, by rw [← h.pimMctrl]; rfl, rfl, ?_, ?_, ?_, ?_, ?_, ?_⟩
    · intro hle
      unfold carried at hle ⊢
      rw [hids, hafter]
      omega
    · exact fun hroom => absurd hroom (hnoRoom 0)
    · exact fun n hroom => absurd hroom (hnoRoom n)
    · intro i _
      unfold carried
      rw [hids]
    · intro ids hmem
      rw [hids] at hmem
      exact .inl hmem
    · intro r hr
      have hr' : r ∈ s'.pimMctrl.waitQueue := hr
      rw [h.pimMctrl] at hr'
      exact .inl hr'
  · -- The request waits in the controller.
    have hsend : s'.send cfg (s'.request st type addr) = { s' with pimMctrl := { s'.pimMctrl with
        waitQueue := s'.pimMctrl.waitQueue ++ [s'.request st type addr] } }.note
          [.sent (s'.request st type addr) true] := by
      unfold send
      rw [hadd]
    rw [hsend]
    have hids : ({ s' with pimMctrl := { s'.pimMctrl with
        waitQueue := s'.pimMctrl.waitQueue ++ [s'.request st type addr] } }.note
          [.sent (s'.request st type addr) true]).carriedIds.Perm ([st.id] :: s.carriedIds) := by
      rw [← h.carriedIds_eq]
      show ((s'.pimMctrl.waitQueue ++ [s'.request st type addr]).map
        (fun r : ProcRequest => r.stageId) ++ _).Perm _
      rw [List.map_append, List.append_assoc]
      exact List.perm_middle
    have hself : decide (st.id ∈ [st.id]) = true := by simp
    refine ⟨h.unit, h.memory, by rw [← h.pimMctrl]; rfl, rfl, ?_, ?_, ?_, ?_, ?_, ?_⟩
    · intro hle
      unfold carried at hle ⊢
      rw [hids.countP_eq, hafter, List.countP_cons, if_pos hself]
      omega
    · intro _ _
      unfold carried
      rw [hids.countP_eq, hafter, List.countP_cons, if_pos hself]
      omega
    · rintro n (hzero | hroom)
      · omega
      · refine .inr ?_
        show ((s'.pimMctrl.waitQueue ++ [s'.request st type addr]).length + n : Int) ≤ _
        rw [List.length_append, h.pimMctrl]
        push_cast at hroom ⊢
        rw [List.length_singleton]
        omega
    · intro i hi
      unfold carried
      rw [hids.countP_eq, List.countP_cons, if_neg (by simpa using hi), Nat.add_zero]
    · intro ids hmem
      rcases List.mem_cons.mp (hids.subset hmem) with rfl | hmem
      · exact .inr rfl
      · exact .inl hmem
    · intro r hr
      rcases List.mem_append.mp hr with hr | hr
      · rw [h.pimMctrl] at hr
        exact .inl hr
      · rw [List.mem_singleton.mp hr, ← h.unit]
        exact .inr ⟨rfl, rfl⟩

/-- **A load or a store** sends at most one request, and waits for it then. -/
theorem ReadsInput.traces {ready : Bool} (h : ReadsInput cfg method type s st ready s' st') :
    Traces cfg method type s s' st st' := by
  cases h with
  | complete hstatus =>
    have hexpects : st.expects = 0 := by
      unfold PIMStage.expects
      rw [hstatus]
      rfl
    exact (Secured.refl s).traces rfl hexpects.symm
  | waits hstatus => exact (Secured.refl s).traces rfl rfl
  | empty hstatus hinput => exact (Secured.refl s).traces rfl rfl
  | backedOff hstatus hready hinput hs => exact hs.traces rfl rfl
  | passed hmethod hstatus hready hinput hhs hsecured => exact hsecured.traces rfl rfl
  | passes hmethod hstatus hready hinput hhs hsecured => exact hsecured.traces rfl rfl
  | sends hmethod hstatus hready hinput hhs hsecured =>
    apply hsecured.traces_send hstatus
    unfold PIMStage.pends
    rw [if_pos ⟨hmethod, hstatus, hready⟩]

/-! ### The parts of a cycle -/

theorem Matches.congr {full : Prop} {n : ℕ} (h : Matches full n st)
    (hexpects : st'.expects = st.expects) : Matches full n st' := by
  unfold Matches
  rw [hexpects]
  exact h

theorem Traces.matches {full : Prop} (h : Traces cfg method type s s' st st')
    (hroom : full → s.Room cfg (st.pends method)) (hst : Matches full (s.carried st.id) st) :
    Matches full (s'.carried st.id) st' :=
  ⟨h.atMost hst.1, fun hfull => h.atLeast (hroom hfull) (hst.2 hfull)⟩

theorem Traces.matches_other {full : Prop} {other : PIMStage} {i : Int}
    (h : Traces cfg method type s s' st st') (hi : i ≠ st.id)
    (hother : Matches full (s.carried i) other) : Matches full (s'.carried i) other := by
  rw [h.other i hi]
  exact hother

/-- The stages of the unit still track the requests, which a load or a store added to. -/
theorem Traces.tracked {full : Prop} {u : AdderConventional}
    (h : Traces cfg method type s s' st st') (htype : type = .load ∨ type = .store)
    (ht : Tracked full s) (hst : st.id = 0 ∨ st.id = 1 ∨ st.id = 3)
    (hids : u.load0.id = 0 ∧ u.load1.id = 1 ∧ u.store.id = 3) (hid : u.id = s'.unit.id)
    (h0 : Matches full (s'.carried 0) u.load0) (h1 : Matches full (s'.carried 1) u.load1)
    (h3 : Matches full (s'.carried 3) u.store) : Tracked full { s' with unit := u } where
  ids := hids
  unitId := by rw [hid, h.unit, ht.unitId]
  load0 := h0
  load1 := h1
  store := h3
  single := by
    intro ids hmem
    rcases h.single ids hmem with hmem | rfl
    · exact ht.single ids hmem
    · simpa using hst
  waits := by
    intro r hr
    rcases h.waits r hr with hr | ⟨hrtype, hrpid⟩
    · exact ht.waits r hr
    · rw [hrtype, hrpid, ht.unitId]
      exact ⟨htype, rfl⟩
  placed := by
    show ∀ m ∈ s'.pimMctrl.sendQueue.flatten ++ s'.memory, Callable m
    rw [h.sendQueue, h.memory]
    exact ht.placed

/-- Nothing changed on the way of the requests, and the stages of the unit wait for as much. -/
theorem Tracked.of_unit {full : Prop} {u : AdderConventional} {hs : List PipelineHappening}
    {coherence : Coherence} (ht : Tracked full s)
    (hids : u.load0.id = s.unit.load0.id ∧ u.load1.id = s.unit.load1.id ∧
      u.store.id = s.unit.store.id ∧ u.id = s.unit.id)
    (hexpects : u.load0.expects = s.unit.load0.expects ∧
      u.load1.expects = s.unit.load1.expects ∧ u.store.expects = s.unit.store.expects) :
    Tracked full { s with unit := u, coherence := coherence, history := hs } where
  ids := by
    obtain ⟨h0, h1, h3, -⟩ := hids
    exact ⟨h0.trans ht.ids.1, h1.trans ht.ids.2.1, h3.trans ht.ids.2.2⟩
  unitId := hids.2.2.2.trans ht.unitId
  load0 := ht.load0.congr hexpects.1
  load1 := ht.load1.congr hexpects.2.1
  store := ht.store.congr hexpects.2.2
  single := ht.single
  waits := ht.waits
  placed := ht.placed

theorem Tracked.of_secured {full : Prop} {hs : List PipelineHappening} (ht : Tracked full s)
    (h : Secured s s' hs) : Tracked full s' where
  ids := by rw [h.unit]; exact ht.ids
  unitId := by rw [h.unit]; exact ht.unitId
  load0 := by unfold carried; rw [h.unit, h.carriedIds_eq]; exact ht.load0
  load1 := by unfold carried; rw [h.unit, h.carriedIds_eq]; exact ht.load1
  store := by unfold carried; rw [h.unit, h.carriedIds_eq]; exact ht.store
  single := by rw [h.carriedIds_eq]; exact ht.single
  waits := by rw [h.pimMctrl]; exact ht.waits
  placed := by rw [h.pimMctrl, h.memory]; exact ht.placed

theorem start_cases {answer : Option TraceInput} (h : s.start answer = .ok s') :
    s' = s ∨ ∃ f first second target, s.unit.curr = none ∧ listAt f.input 0 = .ok first ∧
      listAt f.input 1 = .ok second ∧ listAt f.output 0 = .ok target ∧
      s' = { s with unit := { s.unit with
        curr := some f
        load0 := s.unit.load0.setInput first
        load1 := s.unit.load1.setInput second
        storeAddr := target } }.note [.started f] := by
  unfold start at h
  cases hcurr : s.unit.curr with
  | some f =>
    rw [hcurr] at h
    cases h
    exact .inl rfl
  | none =>
    rw [hcurr] at h
    obtain ⟨f, -, h⟩ := Outcome.bind_eq_ok.mp h
    cases f with
    | none =>
      cases h
      exact .inl rfl
    | some f =>
      obtain ⟨first, hfirst, h⟩ := Outcome.bind_eq_ok.mp h
      obtain ⟨second, hsecond, h⟩ := Outcome.bind_eq_ok.mp h
      obtain ⟨target, htarget, heq⟩ := Outcome.bind_eq_ok.mp h
      cases heq
      exact .inr ⟨f, first, second, target, rfl, hfirst, hsecond, htarget, rfl⟩

theorem tracked_start {full : Prop} {answer : Option TraceInput} (ht : Tracked full s)
    (h : s.start answer = .ok s') : Tracked full s' := by
  rcases start_cases h with rfl | ⟨f, first, second, target, -, -, -, -, rfl⟩
  · exact ht
  · exact ht.of_unit ⟨rfl, rfl, rfl, rfl⟩ ⟨rfl, rfl, rfl⟩

/-- A step of a load reads its input, and writes its output if it is ready. -/
theorem loadStep_eq_ok (h : s.loadStep cfg info method st = .ok (s', st')) :
    ∃ ready st₁, ReadsInput cfg method .load s { st with stall := false } ready s' st₁ ∧
      st' = if ready then st₁.writeOutput else st₁ := by
  obtain ⟨⟨ready, s₁, st₁⟩, hread, heq⟩ := Outcome.bind_eq_ok.mp h
  cases heq
  exact ⟨ready, st₁, readInput_cases hread, rfl⟩

/-- What a step of a load changes of the requests on their way. -/
theorem loadStep_traces (h : s.loadStep cfg info method st = .ok (s', st')) :
    ∃ st₁, Traces cfg method .load s s' { st with stall := false } st₁ ∧ st'.id = st₁.id ∧
      st'.expects = st₁.expects := by
  obtain ⟨ready, st₁, hreads, rfl⟩ := loadStep_eq_ok h
  refine ⟨st₁, hreads.traces, ?_, ?_⟩ <;> cases ready <;> simp

theorem tracked_stepLoad0 {full : Prop} (ht : Tracked full s)
    (hroom : full → s.Room cfg (s.unit.load0.pends method))
    (h : s.stepLoad0 cfg info method = .ok s') : Tracked full s' := by
  obtain ⟨⟨s₁, st'⟩, hload, heq⟩ := Outcome.bind_eq_ok.mp h
  cases heq
  obtain ⟨st₁, htraces, hid, hexpects⟩ := loadStep_traces hload
  have hzero : (0 : Int) = ({ s.unit.load0 with stall := false } : PIMStage).id := ht.ids.1.symm
  rw [htraces.unit]
  refine htraces.tracked (.inl rfl) ht (.inl hzero.symm) ⟨?_, ht.ids.2⟩ ?_ ?_ ?_ ?_
  · rw [hid, htraces.id, ← hzero]
  · rw [htraces.unit]
  · refine Matches.congr (?_ : Matches full _ st₁) hexpects
    rw [hzero]
    refine htraces.matches hroom ?_
    rw [← hzero]
    exact ht.load0
  · exact htraces.matches_other (by rw [← hzero]; decide) ht.load1
  · exact htraces.matches_other (by rw [← hzero]; decide) ht.store

theorem tracked_stepLoad1 {full : Prop} {n : ℕ} (ht : Tracked full s)
    (hroom : full → s.Room cfg (s.unit.load1.pends method + n))
    (h : s.stepLoad1 cfg info method = .ok s') :
    Tracked full s' ∧ (full → s'.Room cfg n) ∧ s'.unit.load0 = s.unit.load0 := by
  obtain ⟨⟨s₁, st'⟩, hload, heq⟩ := Outcome.bind_eq_ok.mp h
  cases heq
  obtain ⟨st₁, htraces, hid, hexpects⟩ := loadStep_traces hload
  have hone : (1 : Int) = ({ s.unit.load1 with stall := false } : PIMStage).id := ht.ids.2.1.symm
  rw [htraces.unit]
  refine ⟨?_, fun hfull => htraces.room n (hroom hfull), rfl⟩
  refine htraces.tracked (.inl rfl) ht (.inr (.inl hone.symm)) ⟨ht.ids.1, ?_, ht.ids.2.2⟩
    ?_ ?_ ?_ ?_
  · rw [hid, htraces.id, ← hone]
  · rw [htraces.unit]
  · exact htraces.matches_other (by rw [← hone]; decide) ht.load0
  · refine Matches.congr (?_ : Matches full _ st₁) hexpects
    rw [hone]
    refine htraces.matches (fun hfull => (hroom hfull).mono (Nat.le_add_right _ _)) ?_
    rw [← hone]
    exact ht.load1
  · exact htraces.matches_other (by rw [← hone]; decide) ht.store

/-- What the computation takes of the loads leaves the requests as they are. -/
theorem feedComputation_keeps (method : PIMLoadMethod) (u : AdderConventional) :
    ((feedComputation u).load0.id = u.load0.id ∧ (feedComputation u).load1.id = u.load1.id ∧
      (feedComputation u).store = u.store ∧ (feedComputation u).id = u.id) ∧
    ((feedComputation u).load0.expects = u.load0.expects ∧
      (feedComputation u).load1.expects = u.load1.expects) ∧
    (feedComputation u).load0.pends method = u.load0.pends method ∧
      (feedComputation u).load1.pends method = u.load1.pends method := by
  unfold feedComputation
  split
  · obtain ⟨hid0, he0, hp0⟩ := u.load0.getOutput_keeps method
    obtain ⟨hid1, he1, hp1⟩ := u.load1.getOutput_keeps method
    exact ⟨⟨hid0, hid1, rfl, rfl⟩, ⟨he0, he1⟩, hp0, hp1⟩
  · exact ⟨⟨rfl, rfl, rfl, rfl⟩, ⟨rfl, rfl⟩, rfl, rfl⟩

/-- The computation changes the outputs of the loads, its own stage and its counter only. -/
theorem stepComputation_eq_ok (h : s.stepComputation = .ok s') :
    ∃ computation latency, s' = { s with unit := { feedComputation s.unit with
        computation := computation, latency := latency } } ∧
      ((feedComputation s.unit).computation.inputReady = false →
        computation = (feedComputation s.unit).computation) := by
  unfold stepComputation at h
  by_cases hready : (feedComputation s.unit).computation.inputReady = true
  · rw [if_pos hready] at h
    obtain ⟨latency, -, h⟩ := Outcome.bind_eq_ok.mp h
    by_cases hcount : latency.count = 0 ∧ latency.max ≠ 0
    · rw [if_pos hcount] at h
      cases h
      exact ⟨_, _, rfl, fun hnot => absurd (hready.symm.trans hnot) (by decide)⟩
    · rw [if_neg hcount] at h
      cases h
      exact ⟨_, _, rfl, fun hnot => absurd (hready.symm.trans hnot) (by decide)⟩
  · rw [if_neg hready] at h
    cases h
    exact ⟨_, _, rfl, fun _ => rfl⟩

theorem tracked_stepComputation (method : PIMLoadMethod) {full : Prop} (ht : Tracked full s)
    (h : s.stepComputation = .ok s') :
    Tracked full s' ∧ s'.pimMctrl = s.pimMctrl ∧
      s'.unit.load0.pends method = s.unit.load0.pends method ∧
      s'.unit.load1.pends method = s.unit.load1.pends method := by
  obtain ⟨computation, latency, rfl, -⟩ := stepComputation_eq_ok h
  obtain ⟨⟨h0, h1, h3, hid⟩, ⟨he0, he1⟩, hp0, hp1⟩ := feedComputation_keeps method s.unit
  refine ⟨?_, rfl, hp0, hp1⟩
  apply ht.of_unit
  · exact ⟨h0, h1, congrArg PIMStage.id h3, hid⟩
  · exact ⟨he0, he1, congrArg PIMStage.expects h3⟩

theorem releaseLocks_secured {f : FunctionInput} (h : s.releaseLocks info f = .ok s') :
    Secured s s' [] ∨ ∃ first second target, Secured s s'
      [.released first, .released second, .released target] := by
  unfold releaseLocks at h
  by_cases hmodel : s.coherence.consistency = .spinLock
  · rw [if_pos hmodel] at h
    obtain ⟨first, -, h⟩ := Outcome.bind_eq_ok.mp h
    obtain ⟨s₁, hfirst, h⟩ := Outcome.bind_eq_ok.mp h
    obtain ⟨second, -, h⟩ := Outcome.bind_eq_ok.mp h
    obtain ⟨s₂, hsecond, h⟩ := Outcome.bind_eq_ok.mp h
    obtain ⟨target, -, htarget⟩ := Outcome.bind_eq_ok.mp h
    exact .inr ⟨first, second, target, ((releseLock_secured hfirst).trans
      (releseLock_secured hsecond)).trans (releseLock_secured htarget)⟩
  · rw [if_neg hmodel] at h
    cases h
    exact .inl (Secured.refl s)

theorem finish_cases (h : s.finish info = .ok s') :
    (s' = s ∧ (s.unit.store.outputReady = false ∨ s.unit.curr = none)) ∨
      ∃ f s₁, s.unit.store.outputReady = true ∧ s.unit.curr = some f ∧
        s.releaseLocks info f = .ok s₁ ∧
        s' = { s₁ with unit := { s₁.unit with
          store := s₁.unit.store.getOutput, curr := none } }.note [.finished] := by
  unfold finish at h
  by_cases hready : s.unit.store.outputReady = true
  · rw [if_pos hready] at h
    cases hcurr : s.unit.curr with
    | none =>
      rw [hcurr] at h
      cases h
      exact .inl ⟨rfl, .inr rfl⟩
    | some f =>
      rw [hcurr] at h
      obtain ⟨s₁, hrelease, heq⟩ := Outcome.bind_eq_ok.mp h
      cases heq
      exact .inr ⟨f, s₁, hready, rfl, hrelease, rfl⟩
  · rw [if_neg hready] at h
    cases h
    exact .inl ⟨rfl, .inl (Bool.eq_false_iff.mpr hready)⟩

theorem tracked_finish {full : Prop} (ht : Tracked full s) (h : s.finish info = .ok s') :
    Tracked full s' ∧ s'.pimMctrl = s.pimMctrl ∧ s'.unit.load0 = s.unit.load0 ∧
      s'.unit.load1 = s.unit.load1 := by
  rcases finish_cases h with ⟨rfl, -⟩ | ⟨f, s₁, -, -, hrelease, rfl⟩
  · exact ⟨ht, rfl, rfl, rfl⟩
  · obtain ⟨hs, hsecured⟩ : ∃ hs, Secured s s₁ hs := by
      rcases releaseLocks_secured hrelease with h | ⟨_, _, _, h⟩
      · exact ⟨_, h⟩
      · exact ⟨_, h⟩
    obtain ⟨hid, hexpects, -⟩ := s₁.unit.store.getOutput_keeps .bypass
    refine ⟨?_, hsecured.pimMctrl, ?_, ?_⟩
    · exact (ht.of_secured hsecured).of_unit ⟨rfl, rfl, hid, rfl⟩ ⟨rfl, rfl, hexpects⟩
    · show s₁.unit.load0 = _
      rw [hsecured.unit]
    · show s₁.unit.load1 = _
      rw [hsecured.unit]

/-- A step of the store takes its input, reads it, and writes its output if it is ready. -/
theorem stepStore_eq_ok (h : s.stepStore cfg info method = .ok s') :
    ∃ ready s₁ st, ReadsInput cfg method .store { s with unit := feedStore s.unit }
        (feedStore s.unit).store ready s₁ st ∧
      s' = { s₁ with
        unit := { s₁.unit with store := if ready then st.writeOutput else st }
        history := s₁.history ++ if ready then [.stored] else [] } := by
  obtain ⟨⟨ready, s₁, st⟩, hread, heq⟩ := Outcome.bind_eq_ok.mp h
  refine ⟨ready, s₁, st, readInput_cases hread, ?_⟩
  cases ready with
  | true =>
    cases heq
    rfl
  | false =>
    cases heq
    simp

theorem feedStore_keeps (u : AdderConventional) :
    (feedStore u).load0 = u.load0 ∧ (feedStore u).load1 = u.load1 ∧ (feedStore u).id = u.id ∧
      (feedStore u).store.id = u.store.id ∧ (feedStore u).store.expects = u.store.expects := by
  unfold feedStore
  split <;> exact ⟨rfl, rfl, rfl, rfl, rfl⟩

theorem tracked_stepStore {full : Prop} {n : ℕ} (ht : Tracked full s)
    (hroom : full → s.Room cfg ((feedStore s.unit).store.pends method + n))
    (h : s.stepStore cfg info method = .ok s') :
    Tracked full s' ∧ (full → s'.Room cfg n) ∧ s'.unit.load0 = s.unit.load0 ∧
      s'.unit.load1 = s.unit.load1 := by
  obtain ⟨ready, s₁, st, hreads, rfl⟩ := stepStore_eq_ok h
  obtain ⟨h0, h1, hid, h3, he3⟩ := feedStore_keeps s.unit
  have hfed : Tracked full { s with unit := feedStore s.unit } := by
    apply ht.of_unit
    · exact ⟨congrArg PIMStage.id h0, congrArg PIMStage.id h1, h3, hid⟩
    · exact ⟨congrArg PIMStage.expects h0, congrArg PIMStage.expects h1, he3⟩
  have htraces := hreads.traces
  have hthree : (3 : Int) = (feedStore s.unit).store.id := (h3.trans ht.ids.2.2).symm
  have hready : (if ready then st.writeOutput else st).id = st.id ∧
      (if ready then st.writeOutput else st).expects = st.expects := by
    cases ready <;> simp
  have hunit : s₁.unit = feedStore s.unit := htraces.unit
  refine ⟨?_, fun hfull => htraces.room n (hroom hfull), ?_, ?_⟩
  · refine Tracked.of_unit (s := { s₁ with
      unit := { s₁.unit with store := if ready then st.writeOutput else st } }) ?_
      ⟨rfl, rfl, rfl, rfl⟩ ⟨rfl, rfl, rfl⟩
    rw [hunit]
    refine htraces.tracked (.inr rfl) hfed (.inr (.inr hthree.symm)) ?_ ?_ ?_ ?_ ?_
    · exact ⟨hfed.ids.1, hfed.ids.2.1, by rw [hready.1, htraces.id, ← hthree]⟩
    · rw [hunit]
    · exact htraces.matches_other (by rw [← hthree]; decide) hfed.load0
    · exact htraces.matches_other (by rw [← hthree]; decide) hfed.load1
    · refine Matches.congr (?_ : Matches full _ st) hready.2
      rw [hthree]
      refine htraces.matches (fun hfull => (hroom hfull).mono (Nat.le_add_right _ _)) ?_
      rw [← hthree]
      exact hfed.store
  · show s₁.unit.load0 = _
    rw [hunit, h0]
  · show s₁.unit.load1 = _
    rw [hunit, h1]

end Pipeline

/-- How many requests the stages of the unit are about to send. -/
def AdderConventional.pends (method : PIMLoadMethod) (u : AdderConventional) : ℕ :=
  (Pipeline.feedStore u).store.pends method + (u.load1.pends method + u.load0.pends method)

namespace Pipeline

variable {s s' : Pipeline}

/-- **A cycle of the unit** keeps the requests on their way those of the outstanding stages. -/
theorem tracked_unitStep {full : Prop} {answer : Option TraceInput} (ht : Tracked full s)
    (hroom : full → ∀ s₁, s.start answer = .ok s₁ → s₁.Room cfg (s₁.unit.pends method))
    (h : s.unitStep cfg info method answer = .ok s') : Tracked full s' := by
  obtain ⟨s₁, hstart, h⟩ := Outcome.bind_eq_ok.mp h
  obtain ⟨s₂, hstore, h⟩ := Outcome.bind_eq_ok.mp h
  obtain ⟨s₃, hfinish, h⟩ := Outcome.bind_eq_ok.mp h
  obtain ⟨s₄, hcomputation, h⟩ := Outcome.bind_eq_ok.mp h
  obtain ⟨s₅, hload1, hload0⟩ := Outcome.bind_eq_ok.mp h
  obtain ⟨ht₂, hroom₂, hst0₂, hst1₂⟩ := tracked_stepStore (tracked_start ht hstart)
    (fun hfull => hroom hfull s₁ hstart) hstore
  obtain ⟨ht₃, hc₃, hst0₃, hst1₃⟩ := tracked_finish ht₂ hfinish
  obtain ⟨ht₄, hc₄, hp0, hp1⟩ := tracked_stepComputation method ht₃ hcomputation
  have hroom₄ : full → s₄.Room cfg (s₄.unit.load1.pends method + s₄.unit.load0.pends method) := by
    intro hfull
    unfold Room
    rw [hp0, hp1, hst0₃, hst1₃, hst0₂, hst1₂, hc₄, hc₃]
    exact hroom₂ hfull
  obtain ⟨ht₅, hroom₅, hst0₅⟩ := tracked_stepLoad1 ht₄ hroom₄ hload1
  apply tracked_stepLoad0 ht₅ ?_ hload0
  rw [hst0₅]
  exact hroom₅

/-! ### The controller and the memory objects -/

/-- A visit of the controller leaves a request where it is, or places it. -/
theorem visit_queues {cycle : UInt64} {env env' : Coherence × List (List MemRequest)}
    {req : ProcRequest} {fate : Fate}
    (h : PIMMctrl.visit cfg info cycle env req = .ok (env', fate)) :
    (fate.leaves = false ∧ env'.2 = env.2) ∨ ∃ k m queue, fate = .placed k m ∧
      PIMMctrl.transfer info req = .ok m ∧ env.2[k]? = some queue ∧
        env'.2 = env.2.set k (queue ++ [m]) := by
  by_cases hmodel : cfg.consistencyModel = .spinLock
  · rcases PIMMctrl.visit_cases hmodel h with ⟨-, rfl, rfl⟩ | ⟨-, _, _, _, _, -, -, -, hvisit⟩
    · exact .inl ⟨rfl, rfl⟩
    · rcases hvisit with ⟨-, -, hplace⟩ | ⟨-, rfl, hqueues, -⟩
      · obtain ⟨k, m, queue, rfl, -, hm, hqueue, hset⟩ := Controller.place_eq_ok hplace
        exact .inr ⟨k, m, queue, rfl, hm, hqueue, hset⟩
      · exact .inl ⟨rfl, hqueues⟩
  · unfold PIMMctrl.visit at h
    by_cases hdue : Controller.due cfg cycle req = true
    · simp only [if_pos hdue, if_neg hmodel] at h
      cases h
      exact .inl ⟨rfl, rfl⟩
    · simp only [if_neg hdue] at h
      cases h
      exact .inl ⟨rfl, rfl⟩

theorem transfer_eq_ok {req : ProcRequest} {m : MemRequest}
    (h : PIMMctrl.transfer info req = .ok m) :
    m.stageId = req.stageId ∧ m.pid = [req.pid] ∧ (req.type = .load → m.memtype = .load) ∧
      (req.type = .store → m.memtype = .store) := by
  obtain ⟨address, -, heq⟩ := Outcome.bind_eq_ok.mp h
  cases heq
  refine ⟨rfl, rfl, ?_, ?_⟩
  all_goals
    intro htype
    dsimp only
    rw [htype]

/-- What the visits of a cycle have moved so far. -/
structure Moved (info : List (Region Obj)) (c : Controller) (queues : List (List MemRequest))
    (rest : List ProcRequest) (verdicts : List (ProcRequest × Fate)) : Prop where
  ids : ((kept Fate.leaves verdicts ++ rest).map (·.stageId) ++
    queues.flatten.map (·.stageId)).Perm
      (c.waitQueue.map (·.stageId) ++ c.sendQueue.flatten.map (·.stageId))
  rest : rest ⊆ c.waitQueue
  placed : ∀ m ∈ queues.flatten, m ∈ c.sendQueue.flatten ∨
    ∃ r ∈ c.waitQueue, PIMMctrl.transfer info r = .ok m

theorem Moved.visit {c : Controller} {cycle : UInt64}
    {env env' : Coherence × List (List MemRequest)} {req : ProcRequest} {rest : List ProcRequest}
    {verdicts : List (ProcRequest × Fate)} {fate : Fate}
    (h : Moved info c env.2 (req :: rest) verdicts)
    (hvisit : PIMMctrl.visit cfg info cycle env req = .ok (env', fate)) :
    Moved info c env'.2 rest (verdicts ++ [(req, fate)]) := by
  have hsplit : kept Fate.leaves (verdicts ++ [(req, fate)]) =
      kept Fate.leaves verdicts ++ kept Fate.leaves [(req, fate)] := by
    simp [kept]
  have hrest : rest ⊆ c.waitQueue := fun r hr => h.rest (List.mem_cons_of_mem _ hr)
  rcases visit_queues hvisit with ⟨hleaves, hqueues⟩ | ⟨k, m, queue, rfl, hm, hqueue, hset⟩
  · have hkept : kept Fate.leaves [(req, fate)] = [req] := by
      simp [kept, hleaves]
    refine ⟨?_, hrest, ?_⟩
    · rw [hsplit, hkept, List.append_assoc, List.singleton_append, hqueues]
      exact h.ids
    · rw [hqueues]
      exact h.placed
  · have hkept : kept Fate.leaves [(req, Fate.placed k m)] = [] := rfl
    have hflat := flatten_push_perm hqueue m
    obtain ⟨hid, -⟩ := transfer_eq_ok hm
    refine ⟨?_, hrest, ?_⟩
    · rw [hsplit, hkept, List.append_nil, hset]
      refine .trans ?_ h.ids
      refine ((hflat.map _).append_left _).trans ?_
      rw [List.map_cons, hid, List.map_append, List.map_append, List.map_cons,
        List.append_assoc, List.append_assoc]
      exact List.perm_middle.append_left _
    · intro m' hm'
      rw [hset] at hm'
      rcases List.mem_cons.mp (hflat.subset hm') with rfl | hm'
      · exact .inr ⟨req, h.rest (List.mem_cons_self ..), hm⟩
      · exact h.placed m' hm'

/-- The requests on their way are as before, and those in the queues and in the memory objects come
back to the unit. -/
theorem Tracked.of_perm {full : Prop} (ht : Tracked full s) (hunit : s'.unit = s.unit)
    (hids : s'.carriedIds.Perm s.carriedIds)
    (hwaits : s'.pimMctrl.waitQueue ⊆ s.pimMctrl.waitQueue)
    (hplaced : ∀ m ∈ s'.pimMctrl.sendQueue.flatten ++ s'.memory, Callable m) :
    Tracked full s' where
  ids := by rw [hunit]; exact ht.ids
  unitId := by rw [hunit]; exact ht.unitId
  load0 := by unfold carried; rw [hunit, hids.countP_eq]; exact ht.load0
  load1 := by unfold carried; rw [hunit, hids.countP_eq]; exact ht.load1
  store := by unfold carried; rw [hunit, hids.countP_eq]; exact ht.store
  single := fun ids hmem => ht.single ids (hids.subset hmem)
  waits := fun r hr => ht.waits r (hwaits hr)
  placed := hplaced

theorem tracked_pimMctrlStep {full : Prop} (ht : Tracked full s)
    (h : s.pimMctrlStep cfg info = .ok s') : Tracked full s' := by
  obtain ⟨⟨env, verdicts⟩, -, h⟩ := Outcome.bind_eq_ok.mp h
  obtain ⟨⟨coherence, c⟩, hstep, heq⟩ := Outcome.bind_eq_ok.mp h
  cases heq
  obtain ⟨⟨⟨coherence', queues⟩, rest⟩, hscan, heq⟩ := Outcome.bind_eq_ok.mp hstep
  cases heq
  obtain ⟨vs, hvisits, rfl⟩ := scan_eq_ok.mp hscan
  have hinit : Moved info s.pimMctrl s.pimMctrl.sendQueue s.pimMctrl.waitQueue [] :=
    ⟨List.Perm.refl _, fun r hr => hr, fun m hm => .inl hm⟩
  have hmoved : Moved info s.pimMctrl queues [] ([] ++ vs) :=
    visits_rule (P := fun (env : Coherence × List (List MemRequest)) rest verdicts =>
      Moved info s.pimMctrl env.2 rest verdicts) (fun _ _ _ _ _ _ => Moved.visit) hinit hvisits
  rw [List.nil_append] at hmoved
  refine ht.of_perm rfl ?_ ?_ ?_
  · have hids := hmoved.ids
    rw [List.append_nil] at hids
    unfold carriedIds
    rw [← List.append_assoc, ← List.append_assoc]
    exact hids.append_right _
  · intro r hr
    have hsub := (kept_sublist Fate.leaves vs).subset hr
    rw [visits_map_fst hvisits] at hsub
    exact hsub
  · intro m hm
    rcases List.mem_append.mp hm with hm | hm
    · rcases hmoved.placed m hm with hm | ⟨r, hr, htransfer⟩
      · exact ht.placed m (List.mem_append_left _ hm)
      · obtain ⟨htype, hpid⟩ := ht.waits r hr
        obtain ⟨-, hpids, hload, hstore⟩ := transfer_eq_ok htransfer
        refine ⟨htype.imp hload hstore, ?_, ?_⟩
        · rw [hpids]
          exact List.cons_ne_nil _ _
        · rw [hpids]
          intro p hp
          rw [List.mem_singleton.mp hp]
          exact hpid
    · exact ht.placed m (List.mem_append_right _ hm)

theorem getReq_cases {pid : Int} {c c' : Controller} {req : Option MemRequest}
    (h : c.getReq true pid = .ok (req, c')) :
    (req = none ∧ c' = c) ∨ ∃ k m queue, c.sendQueue[k]? = some (m :: queue) ∧
      req = some { m with pim := true } ∧ c' = { c with sendQueue := c.sendQueue.set k queue } := by
  obtain ⟨queue, hqueue, h⟩ := Outcome.bind_eq_ok.mp h
  cases queue with
  | nil =>
    cases h
    exact .inl ⟨rfl, rfl⟩
  | cons m queue =>
    cases h
    exact .inr ⟨pid.toNat, m, queue, (listAt_eq_ok.mp hqueue).2, rfl, rfl⟩

theorem tracked_takePim {full : Prop} {pid : Int} {req : Option MemRequest} {c : Controller}
    (ht : Tracked full s) (h : s.pimMctrl.getReq true pid = .ok (req, c)) :
    Tracked full { s with pimMctrl := c, memory := s.memory ++ req.toList } := by
  rcases getReq_cases h with ⟨rfl, rfl⟩ | ⟨k, m, queue, hqueue, rfl, rfl⟩
  · rw [Option.toList_none, List.append_nil]
    exact ht
  · have hflat := flatten_pop_perm hqueue
    refine ht.of_perm rfl ?_ (fun r hr => hr) ?_
    · refine List.Perm.append_left _ ?_
      show ((s.pimMctrl.sendQueue.set k queue).flatten.map (fun r : MemRequest => r.stageId) ++
        (s.memory ++ [{ m with pim := true }]).map (fun r : MemRequest => r.stageId)).Perm
          (s.pimMctrl.sendQueue.flatten.map (fun r : MemRequest => r.stageId) ++
            s.memory.map (fun r : MemRequest => r.stageId))
      rw [List.map_append, ← List.append_assoc]
      refine (List.perm_append_singleton _ _).trans ?_
      exact (hflat.symm.map fun r : MemRequest => r.stageId).append_right _
    · intro m' hm'
      rcases List.mem_append.mp hm' with hm' | hm'
      · exact ht.placed m' (List.mem_append_left _ (hflat.symm.subset (List.mem_cons_of_mem _ hm')))
      · rcases List.mem_append.mp hm' with hm' | hm'
        · exact ht.placed m' (List.mem_append_right _ hm')
        · rw [List.mem_singleton.mp hm']
          exact ht.placed m (List.mem_append_left _ (hflat.symm.subset (List.mem_cons_self ..)))

/-- A memory object merges two requests. -/
def Merges (s : Pipeline) (i j : ℕ) : Prop :=
  ∃ req other, s.memory[i]? = some req ∧ s.memory[j]? = some other ∧ i ≠ j ∧
    req.address = other.address ∧ req.pim = other.pim

theorem merge_cases (s : Pipeline) (i j : ℕ) :
    (s.merge i j = s ∧ ¬ s.Merges i j) ∨ ∃ req other, s.memory[i]? = some req ∧
      s.memory[j]? = some other ∧ s.Merges i j ∧ s.merge i j = { s with
        memory := (s.memory.set i { req with pid := req.pid ++ other.pid }).eraseIdx j } := by
  unfold merge
  cases hi : s.memory[i]? with
  | none =>
    refine .inl ⟨rfl, ?_⟩
    rintro ⟨req, other, hreq, -⟩
    rw [hi] at hreq
    cases hreq
  | some req =>
    cases hj : s.memory[j]? with
    | none =>
      refine .inl ⟨rfl, ?_⟩
      rintro ⟨req', other, -, hother, -⟩
      rw [hj] at hother
      cases hother
    | some other =>
      by_cases hsame : i ≠ j ∧ req.address = other.address ∧ req.pim = other.pim
      · refine .inr ⟨req, other, rfl, rfl, ⟨req, other, hi, hj, hsame⟩, ?_⟩
        dsimp only
        rw [if_pos hsame]
      · refine .inl ⟨?_, ?_⟩
        · dsimp only
          rw [if_neg hsame]
        · rintro ⟨req', other', hreq, hother, hsame'⟩
          rw [hi] at hreq
          rw [hj] at hother
          cases hreq
          cases hother
          exact hsame hsame'

/-- Fewer requests on their way. -/
theorem Tracked.of_sublist (ht : Tracked False s) (hunit : s'.unit = s.unit)
    (hids : s'.carriedIds.Sublist s.carriedIds) (hwaits : s'.pimMctrl.waitQueue = s.pimMctrl.waitQueue)
    (hplaced : ∀ m ∈ s'.pimMctrl.sendQueue.flatten ++ s'.memory, Callable m) :
    Tracked False s' where
  ids := by rw [hunit]; exact ht.ids
  unitId := by rw [hunit]; exact ht.unitId
  load0 := ⟨by rw [hunit]; exact hids.countP_le.trans ht.load0.1, False.elim⟩
  load1 := ⟨by rw [hunit]; exact hids.countP_le.trans ht.load1.1, False.elim⟩
  store := ⟨by rw [hunit]; exact hids.countP_le.trans ht.store.1, False.elim⟩
  single := fun ids hmem => ht.single ids (hids.subset hmem)
  waits := by rw [hwaits]; exact ht.waits
  placed := hplaced

theorem Callable.join {req other : MemRequest} (h : Callable req) (h' : Callable other) :
    Callable { req with pid := req.pid ++ other.pid } := by
  refine ⟨h.1, List.append_ne_nil_of_left_ne_nil h.2.1 _, ?_⟩
  intro p hp
  rcases List.mem_append.mp hp with hp | hp
  · exact h.2.2 p hp
  · exact h'.2.2 p hp

theorem tracked_merge {full : Prop} {i j : ℕ} (ht : Tracked full s)
    (hmerges : full → ¬ s.Merges i j) : Tracked full (s.merge i j) := by
  rcases merge_cases s i j with ⟨heq, -⟩ | ⟨req, other, hi, hj, hm, heq⟩
  · rw [heq]
    exact ht
  · have hnot : ¬ full := fun hfull => hmerges hfull hm
    obtain rfl : full = False := eq_false hnot
    rw [heq]
    refine ht.of_sublist rfl ?_ rfl ?_
    · refine List.Sublist.append_left (List.Sublist.append_left ?_ _) _
      show (((s.memory.set i { req with pid := req.pid ++ other.pid }).eraseIdx j).map
        (fun r : MemRequest => r.stageId)).Sublist (s.memory.map (fun r : MemRequest => r.stageId))
      have hstages : (s.memory.set i { req with pid := req.pid ++ other.pid }).map
          (fun r : MemRequest => r.stageId) = s.memory.map (fun r : MemRequest => r.stageId) := by
        obtain ⟨hlt, rfl⟩ := List.getElem?_eq_some_iff.mp hi
        rw [List.map_set]
        refine Eq.trans ?_ (List.set_getElem_self (by simpa using hlt))
        rw [List.getElem_map]
      rw [← List.eraseIdx_map, hstages]
      exact List.eraseIdx_sublist _ j
    · intro m hmem
      rcases List.mem_append.mp hmem with hmem | hmem
      · exact ht.placed m (List.mem_append_left _ hmem)
      · have hplaced (m : MemRequest) (hm : m ∈ s.memory) := ht.placed m (List.mem_append_right _ hm)
        rcases List.mem_or_eq_of_mem_set (List.mem_of_mem_eraseIdx hmem) with hmem | rfl
        · exact hplaced m hmem
        · exact (hplaced req (List.mem_of_getElem? hi)).join (hplaced other (List.mem_of_getElem? hj))

/-- The unit whose stage `id` is complete. -/
def completeStage (u : AdderConventional) (id : Int) : AdderConventional :=
  if id = 0 then { u with load0 := { u.load0 with status := .complete } }
  else if id = 1 then { u with load1 := { u.load1 with status := .complete } }
  else { u with store := { u.store with status := .complete } }

theorem completeStage_idem {id : Int} (u : AdderConventional) :
    completeStage (completeStage u id) id = completeStage u id := by
  unfold completeStage
  split_ifs <;> rfl

theorem setComplete_eq {id : Int} (hid : id = 0 ∨ id = 1 ∨ id = 3) (s : Pipeline) :
    s.setComplete id = .ok ({ s with unit := completeStage s.unit id }.note [.completed id]) := by
  rcases hid with rfl | rfl | rfl <;> rfl

/-- The callbacks of a request come to the unit, once for each processor. -/
theorem foldlM_callBackUnit {callback : CallBackInfo} {id : Int} (hid : id = 0 ∨ id = 1 ∨ id = 3)
    (hstage : callback.stageId = [id]) (pids : List Int) (s : Pipeline)
    (hpids : ∀ p ∈ pids, p = 0) :
    ∃ hs, .completed id ∈ hs ∧ (∀ h ∈ hs, h = .completed id) ∧ (0 :: pids).foldlM (callBackUnit callback) s =
      .ok { s with unit := completeStage s.unit id, history := s.history ++ hs } := by
  have hone (s : Pipeline) : callBackUnit callback s 0 =
      .ok ({ s with unit := completeStage s.unit id }.note [.completed id]) := by
    unfold callBackUnit callBack
    rw [if_pos rfl, hstage, List.foldlM_cons, setComplete_eq hid]
    rfl
  induction pids generalizing s with
  | nil =>
    refine ⟨[PipelineHappening.completed id], by simp, by simp, ?_⟩
    rw [List.foldlM_cons, hone]
    rfl
  | cons p pids ih =>
    obtain rfl := hpids p (List.mem_cons_self ..)
    obtain ⟨hs, -, hhs, hfold⟩ := ih ({ s with unit := completeStage s.unit id }.note [.completed id])
      (fun p hp => hpids p (List.mem_cons_of_mem _ hp))
    refine ⟨PipelineHappening.completed id :: hs, List.mem_cons_self .., by simpa using hhs, ?_⟩
    rw [List.foldlM_cons, hone]
    refine hfold.trans ?_
    show Except.ok { s with
      unit := completeStage (completeStage s.unit id) id
      history := s.history ++ [PipelineHappening.completed id] ++ hs } = _
    rw [completeStage_idem, List.append_assoc, List.singleton_append]

/-- **A request that completes** makes its stage complete. -/
theorem complete_eq {k : ℕ} {m : MemRequest} {id : Int} (hm : s.memory[k]? = some m)
    (hcallable : Callable m) (hid : id = 0 ∨ id = 1 ∨ id = 3) (hstage : m.stageId = [id]) :
    ∃ hs, .completed id ∈ hs ∧ (∀ h ∈ hs, h = .completed id) ∧ s.complete k = .ok { s with
      memory := s.memory.eraseIdx k
      unit := completeStage s.unit id
      history := s.history ++ hs } := by
  obtain ⟨htype, hne, hpids⟩ := hcallable
  obtain ⟨p, pids, hpid⟩ := List.exists_cons_of_ne_nil hne
  obtain rfl : p = 0 := hpids p (by rw [hpid]; exact List.mem_cons_self ..)
  have hcallback : (System.callBackInfo m).stageId = [id] := by
    show (if m.memtype = .load ∨ m.memtype = .store then m.stageId else []) = [id]
    rw [if_pos htype, hstage]
  obtain ⟨hs, hone, hhs, hfold⟩ := foldlM_callBackUnit hid hcallback pids
    { s with memory := s.memory.eraseIdx k }
    (fun p hp => hpids p (by rw [hpid]; exact List.mem_cons_of_mem _ hp))
  refine ⟨hs, hone, hhs, ?_⟩
  unfold complete
  rw [hm]
  dsimp only
  rw [hpid]
  rcases htype with htype | htype <;> rw [htype] <;> exact hfold

theorem completeStage_keeps {id : Int} (hid : id = 0 ∨ id = 1 ∨ id = 3) (u : AdderConventional) :
    ((completeStage u id).load0.id = u.load0.id ∧ (completeStage u id).load1.id = u.load1.id ∧
      (completeStage u id).store.id = u.store.id ∧ (completeStage u id).id = u.id) ∧
    (completeStage u id).load0.expects = (if 0 = id then 0 else u.load0.expects) ∧
    (completeStage u id).load1.expects = (if 1 = id then 0 else u.load1.expects) ∧
      (completeStage u id).store.expects = (if 3 = id then 0 else u.store.expects) := by
  rcases hid with rfl | rfl | rfl <;> exact ⟨⟨rfl, rfl, rfl, rfl⟩, rfl, rfl, rfl⟩

theorem Matches.complete {full : Prop} {n n' : ℕ} {i id : Int} (h : Matches full n st)
    (hn : n = n' + if i = id then 1 else 0)
    (hexpects : st'.expects = if i = id then 0 else st.expects) : Matches full n' st' := by
  have hone : st.expects ≤ 1 := by
    unfold PIMStage.expects
    split <;> omega
  obtain ⟨hmost, hleast⟩ := h
  by_cases hi : i = id
  · rw [if_pos hi] at hn hexpects
    exact ⟨by omega, fun _ => by omega⟩
  · rw [if_neg hi] at hn hexpects
    rw [hn] at hmost hleast
    exact ⟨hexpects ▸ hmost, fun hfull => hexpects ▸ hleast hfull⟩

/-- The requests on their way, when one of them leaves a memory object. -/
theorem carriedIds_eraseIdx {k : ℕ} {m : MemRequest} {id : Int} (hm : s.memory[k]? = some m)
    (hstage : m.stageId = [id]) (u : AdderConventional) (hs : List PipelineHappening) :
    s.carriedIds.Perm ([id] ::
      { s with memory := s.memory.eraseIdx k, unit := u, history := hs }.carriedIds) := by
  obtain ⟨hlt, hget⟩ := List.getElem?_eq_some_iff.mp hm
  have herase := (List.getElem_cons_eraseIdx_perm hlt).symm.map fun r : MemRequest => r.stageId
  rw [List.map_cons, hget, hstage] at herase
  unfold carriedIds
  rw [← List.append_assoc, ← List.append_assoc]
  exact (herase.append_left _).trans List.perm_middle

theorem tracked_complete {full : Prop} {k : ℕ} (ht : Tracked full s)
    (h : s.complete k = .ok s') : Tracked full s' := by
  cases hm : s.memory[k]? with
  | none =>
    unfold complete at h
    rw [hm] at h
    cases h
    exact ht
  | some m =>
    have hmem : m ∈ s.memory := List.mem_of_getElem? hm
    have hcallable := ht.placed m (List.mem_append_right _ hmem)
    -- Every request names one stage, a load or the store, so that the completion frees exactly that
    -- one.
    obtain ⟨id, hid, hstage⟩ : ∃ id : Int, (id = 0 ∨ id = 1 ∨ id = 3) ∧ m.stageId = [id] := by
      have hids : m.stageId ∈ s.carriedIds := List.mem_append_right _
        (List.mem_append_right _ (List.mem_map_of_mem hmem))
      rcases ht.single _ hids with hstage | hstage | hstage
      · exact ⟨0, .inl rfl, hstage⟩
      · exact ⟨1, .inr (.inl rfl), hstage⟩
      · exact ⟨3, .inr (.inr rfl), hstage⟩
    obtain ⟨hs, -, -, hcomplete⟩ := complete_eq hm hcallable hid hstage
    rw [hcomplete] at h
    cases h
    have hperm := carriedIds_eraseIdx hm hstage (completeStage s.unit id) (s.history ++ hs)
    -- The count of the completed stage goes down by one, and the others stay.
    have hcount (i : Int) : s.carried i = ({ s with
        memory := s.memory.eraseIdx k
        unit := completeStage s.unit id
        history := s.history ++ hs } : Pipeline).carried i + if i = id then 1 else 0 := by
      unfold carried
      rw [hperm.countP_eq, List.countP_cons]
      simp
    have hsub (ids : List Int) (hmem : ids ∈ ({ s with
        memory := s.memory.eraseIdx k
        unit := completeStage s.unit id
        history := s.history ++ hs } : Pipeline).carriedIds) : ids ∈ s.carriedIds :=
      hperm.symm.subset (List.mem_cons_of_mem _ hmem)
    have hplaced (m' : MemRequest)
        (hm' : m' ∈ s.pimMctrl.sendQueue.flatten ++ s.memory.eraseIdx k) : Callable m' := by
      rcases List.mem_append.mp hm' with hm' | hm'
      · exact ht.placed m' (List.mem_append_left _ hm')
      · exact ht.placed m' (List.mem_append_right _ (List.mem_of_mem_eraseIdx hm'))
    obtain ⟨⟨hid0, hid1, hid3, hunit⟩, h0, h1, h3⟩ := completeStage_keeps hid s.unit
    exact {
      ids := ⟨hid0.trans ht.ids.1, hid1.trans ht.ids.2.1, hid3.trans ht.ids.2.2⟩
      unitId := hunit.trans ht.unitId
      load0 := ht.load0.complete (hcount 0) h0
      load1 := ht.load1.complete (hcount 1) h1
      store := ht.store.complete (hcount 3) h3
      single := fun ids hmem => ht.single ids (hsub ids hmem)
      waits := ht.waits
      placed := hplaced }

/-! ### Runs -/

/-- The steps that keep the requests: the controller takes all that a cycle of the unit is about to
send, and no two requests are merged. -/
def KeepsRequests (cfg : Config) (method : PIMLoadMethod) (s : Pipeline) : PipelineEvent → Prop
  | .unitStep answer => ∀ s₁, s.start answer = .ok s₁ → s₁.Room cfg (s₁.unit.pends method)
  | .merge i j => ¬ s.Merges i j
  | _ => True

/-- **A transition** keeps at most one request for each outstanding stage, and exactly one if it keeps
the requests. -/
theorem tracked_step {full : Prop} {e : PipelineEvent} (ht : Tracked full s)
    (hgood : full → s.KeepsRequests cfg method e)
    (h : Pipeline.step cfg info method s e = .ok s') : Tracked full s' := by
  cases e with
  | unitStep answer => exact tracked_unitStep ht hgood h
  | pimMctrlStep => exact tracked_pimMctrlStep ht h
  | takePim pid =>
    obtain ⟨⟨req, c⟩, hget, heq⟩ := Outcome.bind_eq_ok.mp h
    cases heq
    exact tracked_takePim ht hget
  | merge i j =>
    cases h
    exact tracked_merge ht hgood
  | complete k => exact tracked_complete ht h
  | host host =>
    cases h
    exact ht.of_unit ⟨rfl, rfl, rfl, rfl⟩ ⟨rfl, rfl, rfl⟩

theorem tracked_init (full : Prop) (n : ℕ) (coherence : Coherence) :
    Tracked full (init n coherence) := by
  have hids : (init n coherence).carriedIds = [] := by
    unfold carriedIds init Controller.init
    simp
  have hmatches (i : Int) (st : PIMStage) (hst : st.expects = 0) :
      Matches full ((init n coherence).carried i) st := by
    unfold Matches carried
    rw [hids, hst]
    exact ⟨Nat.le_refl _, fun _ => Nat.le_refl _⟩
  refine ⟨⟨rfl, rfl, rfl⟩, rfl, hmatches 0 _ rfl, hmatches 1 _ rfl, hmatches 3 _ rfl, ?_, ?_, ?_⟩
  · rw [hids]
    intro ids hmem
    cases hmem
  · intro r hr
    cases hr
  · intro m hm
    unfold init Controller.init at hm
    simp at hm

/-- The load and store stages of the unit. -/
def loadsAndStore (s : Pipeline) : List PIMStage := [s.unit.load0, s.unit.load1, s.unit.store]

theorem Tracked.matches {full : Prop} (ht : Tracked full s) :
    ∀ st ∈ s.loadsAndStore, Matches full (s.carried st.id) st ∧
      (st.id = 0 ∨ st.id = 1 ∨ st.id = 3) := by
  obtain ⟨h0, h1, h3⟩ := ht.ids
  intro st hst
  rcases List.mem_cons.mp hst with rfl | hst
  · exact ⟨by rw [h0]; exact ht.load0, .inl h0⟩
  · rcases List.mem_cons.mp hst with rfl | hst
    · exact ⟨by rw [h1]; exact ht.load1, .inr (.inl h1)⟩
    · rw [List.mem_singleton.mp hst]
      exact ⟨by rw [h3]; exact ht.store, .inr (.inr h3)⟩

/-- A request with the stage `id` in a memory object makes this stage complete. -/
theorem Tracked.completes {full : Prop} (ht : Tracked full s) {k : ℕ} {m : MemRequest} {id : Int}
    (hm : s.memory[k]? = some m) (hid : id ∈ m.stageId) :
    ∃ s', s.complete k = .ok s' ∧ ∃ st ∈ s'.loadsAndStore, st.id = id ∧ st.status = .complete := by
  have hmem : m ∈ s.memory := List.mem_of_getElem? hm
  have hsingle := ht.single m.stageId
    (List.mem_append_right _ (List.mem_append_right _ (List.mem_map_of_mem hmem)))
  have hcallable := ht.placed m (List.mem_append_right _ hmem)
  obtain ⟨h0, h1, h3⟩ := ht.ids
  rcases hsingle with hstage | hstage | hstage <;> rw [hstage] at hid <;>
    obtain rfl := List.mem_singleton.mp hid
  · obtain ⟨hs, -, -, hcomplete⟩ := complete_eq hm hcallable (.inl rfl) hstage
    exact ⟨_, hcomplete, _, List.mem_cons_self .., h0, rfl⟩
  · obtain ⟨hs, -, -, hcomplete⟩ := complete_eq hm hcallable (.inr (.inl rfl)) hstage
    exact ⟨_, hcomplete, _, List.mem_cons_of_mem _ (List.mem_cons_self ..), h1, rfl⟩
  · obtain ⟨hs, -, -, hcomplete⟩ := complete_eq hm hcallable (.inr (.inr rfl)) hstage
    exact ⟨_, hcomplete, _, List.mem_cons_of_mem _ (List.mem_cons_of_mem _ (List.mem_cons_self ..)),
      h3, rfl⟩

end Pipeline

/-- **The outstanding stages are those with a request on its way**: along every run whose steps keep
the requests, exactly one request carries the stage of a load or a store that is outstanding, none
carries another one's, and when a memory object completes it, the stage is complete. -/
theorem outstanding_iff_carried (cfg : Config) (info : List (Region Obj)) (method : PIMLoadMethod)
    (n : ℕ) (coherence : Coherence) {es : List PipelineEvent} {s : Pipeline}
    (hgood : Along (Pipeline.step cfg info method) (Pipeline.KeepsRequests cfg method)
      (Pipeline.init n coherence) es)
    (hrun : exec (Pipeline.step cfg info method) (Pipeline.init n coherence) es = .ok s) :
    ∀ st ∈ s.loadsAndStore, s.carried st.id = (if st.status = .outstanding then 1 else 0) ∧
      ∀ k m, s.memory[k]? = some m → st.id ∈ m.stageId → ∃ s', s.complete k = .ok s' ∧
        ∃ st' ∈ s'.loadsAndStore, st'.id = st.id ∧ st'.status = .complete := by
  have htracked : Pipeline.Tracked True s := by
    refine exec_along ?_ (Pipeline.tracked_init True n coherence) hgood hrun
    intro s e s' ht hkeeps hstep
    exact Pipeline.tracked_step ht (fun _ => hkeeps) hstep
  intro st hst
  obtain ⟨⟨hmost, hleast⟩, -⟩ := htracked.matches st hst
  exact ⟨Nat.le_antisymm hmost (hleast trivial), fun k m hm hid => htracked.completes hm hid⟩

/-- An addition of two operands. -/
def addition (first second : UInt64) : PipelineEvent :=
  .unitStep (some (.function { input := [first, second], output := [128] }))

/-- Two loads on their way, one of which completes. -/
theorem outstanding_iff_carried_two_loads : ∃ s : Pipeline,
    exec (Pipeline.step {} oneObject .conventional) (Pipeline.init 1 noHost)
      [addition 0 64, .pimMctrlStep, .takePim 0, .complete 0] = .ok s ∧
    s.unit.load0.status = .outstanding ∧ s.carried 0 = 1 ∧ s.carried 1 = 0 := by
  obtain ⟨s, hrun, hs⟩ := Outcome.exists_of_map_eq_ok
    (f := fun s : Pipeline => (s.unit.load0, s.unit.load1.id, s.unit.load1.status))
    (x := exec (Pipeline.step {} oneObject .conventional) (Pipeline.init 1 noHost)
      [addition 0 64, .pimMctrlStep, .takePim 0, .complete 0])
    (b := ({ id := 0, input := some 0, inputReady := true, stall := true, status := .outstanding },
      1, .complete))
    (by decide +kernel)
  have hkeeps : Along (Pipeline.step {} oneObject .conventional)
      (Pipeline.KeepsRequests {} .conventional) (Pipeline.init 1 noHost)
        [addition 0 64, .pimMctrlStep, .takePim 0, .complete 0] := by
    refine ⟨?_, fun _ _ => ⟨trivial, fun _ _ => ⟨trivial, fun _ _ => ⟨trivial, fun _ _ => trivial⟩⟩⟩⟩
    intro s₁ hstart
    cases hstart
    exact .inr (by decide)
  have hall := outstanding_iff_carried {} oneObject .conventional 1 noHost hkeeps hrun
  obtain ⟨hload0, hid, hstatus⟩ := by simpa only [Prod.mk.injEq] using hs
  obtain ⟨h0, -⟩ := hall s.unit.load0 (List.mem_cons_self ..)
  obtain ⟨h1, -⟩ := hall s.unit.load1 (List.mem_cons_of_mem _ (List.mem_cons_self ..))
  rw [hload0] at h0
  rw [hid, hstatus] at h1
  exact ⟨s, hrun, by rw [hload0], h0, h1⟩

/-- A load whose request the full controller refused is outstanding, and so is one whose request was
merged into that of another load and completed with it. -/
theorem not_outstanding_iff_carried :
    (∃ s : Pipeline, exec (Pipeline.step { crtlQueueMax := 0 } oneObject .conventional)
        (Pipeline.init 1 noHost) [addition 0 64] = .ok s ∧
      s.unit.load0.status = .outstanding ∧ s.carried 0 = 0) ∧
    ∃ s : Pipeline, exec (Pipeline.step {} oneObject .conventional) (Pipeline.init 1 noHost)
        [addition 0 0, .pimMctrlStep, .takePim 0, .takePim 0, .merge 0 1, .complete 0] = .ok s ∧
      s.unit.load0.status = .outstanding ∧ s.carried 0 = 0 := by
  obtain ⟨s, hrun, hs⟩ := Outcome.exists_of_map_eq_ok
    (f := fun s : Pipeline => (s.unit.load0.status, s.carried 0))
    (x := exec (Pipeline.step { crtlQueueMax := 0 } oneObject .conventional)
      (Pipeline.init 1 noHost) [addition 0 64])
    (b := (.outstanding, 0)) (by decide +kernel)
  obtain ⟨t, hrun', ht⟩ := Outcome.exists_of_map_eq_ok
    (f := fun s : Pipeline => (s.unit.load0.status, s.carried 0))
    (x := exec (Pipeline.step {} oneObject .conventional) (Pipeline.init 1 noHost)
      [addition 0 0, .pimMctrlStep, .takePim 0, .takePim 0, .merge 0 1, .complete 0])
    (b := (.outstanding, 0)) (by decide +kernel)
  exact ⟨⟨s, hrun, Prod.mk.inj hs⟩, t, hrun', Prod.mk.inj ht⟩

end PIMSim
