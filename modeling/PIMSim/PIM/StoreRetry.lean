import PIMSim.PIM.Outstanding

/-!
# The retries of the store

A store that has taken an operation has its address flushed out of the hosts and sends a request to
the controller of the memory side. Either may fail, and the store is to try again.

The store is followed from the step in which it takes one operation. Before each step its surroundings
change as they like: the hosts, the locks and the controller, the callback of its request when that
was accepted, and the unit that fetches its output. No other operation is offered meanwhile.

## Main definitions

* `StoreTurn`: the surroundings of the store in one step
* `StoreTurn.answer`: whether an attempt to store would be accepted
* `Pipeline.retry`: the unit after a number of steps of its store
* `Pipeline.Retries`: the operation is stored once, in the first step that can store it

## Main results

* `Pipeline.stepStore_offered`: the step that takes the operation makes an attempt
* `Pipeline.stepStore_quiet`: the other steps send nothing
* `Pipeline.retries_iff`: the operation is stored exactly when its first attempt is accepted, or none
  would be
-/

namespace PIMSim

open CSharp

variable {Obj : Type}

/-- The surroundings of a store in one step: the coherence component with the hosts and the locks, the
controller, whether a callback completes the store's request, and whether the unit fetches its
output. -/
structure StoreTurn where
  coherence : Coherence
  pimMctrl : Controller
  completed : Bool := false
  fetched : Bool := false

namespace StoreTurn

/-- An attempt to store at an address is accepted: the hosts flush it, and the controller has room. -/
def answer (cfg : Config) (info : List (Region Obj)) (turn : StoreTurn) (addr : UInt64) :
    Outcome Bool := do
  let (goesOn, _) ← Pipeline.secure cfg info
    { coherence := turn.coherence, pimMctrl := turn.pimMctrl } addr
  return goesOn && !decide (cfg.crtlQueueMax - 1 < turn.pimMctrl.waitQueue.length)

end StoreTurn

namespace Pipeline

/-- An accepted request of the store. -/
def isStored : PipelineHappening → Bool
  | .sent req accepted => accepted && decide (req.type = .store)
  | _ => false

/-- The accepted requests of the store. -/
def storesSent (s : Pipeline) : ℕ := s.history.countP isStored

/-- The unit in new surroundings. Only an accepted request is completed. -/
def enter (s : Pipeline) (turn : StoreTurn) : Pipeline :=
  let store := if turn.completed && s.unit.store.status = .outstanding && 0 < s.storesSent then
    { s.unit.store with status := .complete } else s.unit.store
  { s with
    coherence := turn.coherence
    pimMctrl := turn.pimMctrl
    unit := { s.unit with store := if turn.fetched then store.getOutput else store } }

/-- The unit after `n` steps of its store. The history starts with them. -/
def retry (cfg : Config) (info : List (Region Obj)) (s₀ : Pipeline) (turns : ℕ → StoreTurn) :
    ℕ → Outcome Pipeline
  | 0 => .ok { s₀ with history := [] }
  | n + 1 => do
    let s ← retry cfg info s₀ turns n
    (s.enter (turns n)).stepStore cfg info .conventional

/-- The store is idle, and an operation is offered to it. -/
def Offered (s : Pipeline) : Prop :=
  s.unit.store.status = .noOp ∧ s.unit.computation.outputReady = true

/-- **The operation is kept and retried**: every step returns, and after `n` steps one request of the
store was accepted if one of the `n` attempts could be, and none otherwise. -/
def Retries (cfg : Config) (info : List (Region Obj)) (s₀ : Pipeline) (turns : ℕ → StoreTurn) :
    Prop :=
  ∀ n, ∃ s, retry cfg info s₀ turns n = .ok s ∧
    s.storesSent = if ∃ j < n, (turns j).answer cfg info s₀.unit.storeAddr = .ok true then 1 else 0

instance : DecidablePred Offered := fun s =>
  inferInstanceAs (Decidable (s.unit.store.status = .noOp ∧ s.unit.computation.outputReady = true))

variable {cfg : Config} {info : List (Region Obj)} {s s' s₀ : Pipeline} {turn : StoreTurn}
  {turns : ℕ → StoreTurn} {addr : UInt64}

/-! ### The attempt -/

/-- Whether an address is secured does not depend on the unit. -/
theorem secure_fst (cfg : Config) (info : List (Region Obj)) (addr : UInt64) (s s' : Pipeline)
    (h : s.coherence = s'.coherence) :
    (s.secure cfg info addr).map Prod.fst = (s'.secure cfg info addr).map Prod.fst := by
  unfold secure setlock
  rw [h]
  split_ifs
  · cases spinLockOf s'.coherence.spinLock with
    | error e => rfl
    | ok lock =>
      simp only [Outcome.ok_bind]
      cases SpinLock.setlock info lock addr with
      | error e => rfl
      | ok lock =>
        simp only [Outcome.ok_bind, note, pure_bind]
        cases Coherence.flush cfg s'.coherence.host addr true with
        | error e => rfl
        | ok answer =>
          obtain ⟨flushed, host⟩ := answer
          cases flushed with
          | true => rfl
          | false =>
            simp only [releseLock, spinLockOf, Outcome.ok_bind]
            cases SpinLock.releseLock info lock addr <;> rfl
  · rfl

/-- What an attempt that returns does with the address. -/
theorem secure_of_answer {b : Bool} (hcoherence : s.coherence = turn.coherence)
    (h : turn.answer cfg info addr = .ok b) :
    ∃ goesOn s', s.secure cfg info addr = .ok (goesOn, s') ∧
      b = (goesOn && !decide (cfg.crtlQueueMax - 1 < turn.pimMctrl.waitQueue.length)) := by
  obtain ⟨⟨goesOn, t⟩, ht, heq⟩ := Outcome.bind_eq_ok.mp h
  cases heq
  have hfst := secure_fst cfg info addr s { coherence := turn.coherence, pimMctrl := turn.pimMctrl }
    hcoherence
  rw [ht] at hfst
  obtain ⟨⟨goesOn', s'⟩, hs', hgoes⟩ := Outcome.exists_of_map_eq_ok hfst
  cases hgoes
  exact ⟨goesOn, s', hs', rfl⟩

theorem storesSent_of_secured {hs : List PipelineHappening} (h : Secured s s' hs)
    (hhs : ∀ e ∈ hs, isStored e = false) : s'.storesSent = s.storesSent := by
  have hzero : hs.countP isStored = 0 := List.countP_eq_zero.mpr fun e he => by simp [hhs e he]
  unfold storesSent
  rw [h.history, List.countP_append, hzero, Nat.add_zero]

/-- A request of the store is counted when the controller has room for it. -/
theorem storesSent_send (cfg : Config) (s : Pipeline) (req : ProcRequest)
    (htype : req.type = .store) :
    (s.send cfg req).storesSent =
      s.storesSent + if cfg.crtlQueueMax - 1 < s.pimMctrl.waitQueue.length then 0 else 1 := by
  unfold send Controller.addToMctrl
  split_ifs
  · simp [storesSent, note, isStored]
  · simp [storesSent, note, isStored, htype]

theorem readInput_of_secure {method : PIMLoadMethod} {type : RequestType} {st : PIMStage}
    {goesOn : Bool} (hstatus : st.status = .noOp) (hinput : st.input = some addr)
    (hready : st.inputReady = true) (hsecure : s.secure cfg info addr = .ok (goesOn, s')) :
    readInput cfg info method type s st =
      if goesOn then .ok (s'.issue cfg method type st addr)
      else .ok (false, s', { st with stall := true }) := by
  unfold readInput
  rw [hstatus]
  dsimp only
  rw [hinput]
  dsimp only
  rw [if_pos hready, hsecure]
  cases goesOn <;> rfl

/-- **The attempt**: the step that takes the operation sends a request when the hosts have flushed the
address, and the request is accepted when the controller has room. -/
theorem stepStore_offered (turn : StoreTurn) {b : Bool} (hoffered : s.Offered)
    (hcoherence : s.coherence = turn.coherence) (hpimMctrl : s.pimMctrl = turn.pimMctrl)
    (h : turn.answer cfg info s.unit.storeAddr = .ok b) :
    ∃ s', s.stepStore cfg info .conventional = .ok s' ∧
      s'.unit.computation.outputReady = false ∧
      s'.storesSent = s.storesSent + if b then 1 else 0 := by
  have hfeed : feedStore s.unit = { s.unit with
      computation := s.unit.computation.getOutput
      store := { s.unit.store with
        stall := false, input := some s.unit.storeAddr, inputReady := true } } :=
    if_pos hoffered.2
  have hout : (feedStore s.unit).computation.outputReady = false := by
    rw [hfeed]
    unfold PIMStage.getOutput
    rw [if_pos hoffered.2]
  -- The lock and the flush answer as the turn says.
  obtain ⟨goesOn, s₁, hsecure, rfl⟩ :=
    secure_of_answer (s := { s with unit := feedStore s.unit }) hcoherence h
  have hread : readInput cfg info .conventional .store { s with unit := feedStore s.unit }
      (feedStore s.unit).store =
      if goesOn then .ok (s₁.issue cfg .conventional .store (feedStore s.unit).store s.unit.storeAddr)
      else .ok (false, s₁, { (feedStore s.unit).store with stall := true }) := by
    apply readInput_of_secure
    · rw [hfeed]
      exact hoffered.1
    · rw [hfeed]
    · rw [hfeed]
    · exact hsecure
  unfold stepStore
  dsimp only
  rw [hread]
  -- Secured: the request is sent, and counts when the controller has room. Backed off: nothing is
  -- sent.
  rcases secure_cases hsecure with ⟨rfl, hsecured⟩ | ⟨rfl, hsecured⟩
  · obtain ⟨hs, hsecured, hquiet⟩ : ∃ hs, Secured { s with unit := feedStore s.unit } s₁ hs ∧
        ∀ e ∈ hs, isStored e = false := by
      rcases hsecured with h | h
      · exact ⟨_, h, by simp⟩
      · exact ⟨_, h, by simp [isStored]⟩
    have hsent := storesSent_send cfg s₁
      (s₁.request (feedStore s.unit).store .store s.unit.storeAddr) rfl
    rw [storesSent_of_secured hsecured hquiet, hsecured.pimMctrl] at hsent
    have hunit : (s₁.send cfg (s₁.request (feedStore s.unit).store .store s.unit.storeAddr)).unit =
        feedStore s.unit := by
      rcases send_cases cfg s₁ (s₁.request (feedStore s.unit).store .store s.unit.storeAddr) with h | h
      · rw [h]
        exact hsecured.unit
      · rw [h]
        exact hsecured.unit
    refine ⟨_, rfl, ?_, ?_⟩
    · exact (congrArg (fun u : AdderConventional => u.computation.outputReady) hunit).trans hout
    · refine Eq.trans hsent ?_
      rw [← hpimMctrl]
      by_cases hfull : cfg.crtlQueueMax - 1 < s.pimMctrl.waitQueue.length
      · simp only [hfull, if_true, decide_true, Bool.not_true, Bool.and_false, Bool.false_eq_true,
          if_false]
        rfl
      · simp only [hfull, if_false, decide_false, Bool.not_false, Bool.and_true, if_true]
        rfl
  · refine ⟨_, rfl, ?_, ?_⟩
    · exact (congrArg (fun u : AdderConventional => u.computation.outputReady)
        hsecured.unit).trans hout
    · have hnone := storesSent_of_secured hsecured (by simp [isStored])
      exact hnone

theorem readInput_of_not_ready (cfg : Config) (info : List (Region Obj)) (method : PIMLoadMethod)
    (type : RequestType) (s : Pipeline) (st : PIMStage) (hready : st.inputReady = false) :
    ∃ ready st', readInput cfg info method type s st = .ok (ready, s, st') := by
  unfold readInput
  cases st.status with
  | complete => exact ⟨_, _, rfl⟩
  | outstanding => exact ⟨_, _, rfl⟩
  | noOp =>
    cases st.input with
    | none => exact ⟨_, _, rfl⟩
    | some addr => exact ⟨_, _, if_neg (by simp [hready])⟩

/-- **The other steps** send nothing. -/
theorem stepStore_quiet (cfg : Config) (info : List (Region Obj)) (s : Pipeline)
    (hnone : s.unit.computation.outputReady = false) :
    ∃ s', s.stepStore cfg info .conventional = .ok s' ∧
      s'.unit.computation.outputReady = false ∧ s'.storesSent = s.storesSent := by
  have hfeed : feedStore s.unit = { s.unit with
      store := { s.unit.store with stall := false, inputReady := false } } :=
    if_neg (by simp [hnone])
  obtain ⟨ready, st', hread⟩ := readInput_of_not_ready cfg info .conventional .store
    { s with unit := feedStore s.unit } (feedStore s.unit).store (by rw [hfeed])
  have hkeep : (feedStore s.unit).computation.outputReady = false := by
    rw [hfeed]
    exact hnone
  unfold stepStore
  dsimp only
  rw [hread]
  cases ready with
  | true =>
    refine ⟨_, rfl, hkeep, ?_⟩
    simp [storesSent, note, isStored]
  | false => exact ⟨_, rfl, hkeep, rfl⟩

/-! ### The run -/

/-- From its second step on, the store sends nothing. -/
theorem retry_succ {b : Bool} (hoffered : s₀.Offered)
    (h : (turns 0).answer cfg info s₀.unit.storeAddr = .ok b) (n : ℕ) :
    ∃ s, retry cfg info s₀ turns (n + 1) = .ok s ∧ s.unit.computation.outputReady = false ∧
      s.storesSent = if b then 1 else 0 := by
  induction n with
  | zero =>
    have hfirst : Offered (enter { s₀ with history := [] } (turns 0)) := by
      refine ⟨?_, hoffered.2⟩
      simp only [enter, hoffered.1, reduceCtorEq, decide_false, Bool.and_false, Bool.false_and,
        Bool.false_eq_true, if_false]
      split_ifs
      · unfold PIMStage.getOutput
        split_ifs
        · exact hoffered.1
        · exact hoffered.1
      · exact hoffered.1
    obtain ⟨s, hs, hnone, hsent⟩ := stepStore_offered (turns 0) hfirst rfl rfl h
    refine ⟨s, ?_, hnone, ?_⟩
    · simp only [retry, Outcome.ok_bind, hs]
    · rw [hsent]
      exact Nat.zero_add _
  | succ n ih =>
    obtain ⟨s, hs, hnone, hsent⟩ := ih
    obtain ⟨s', hs', hnone', hsent'⟩ := stepStore_quiet cfg info (s.enter (turns (n + 1))) hnone
    refine ⟨s', ?_, hnone', hsent'.trans hsent⟩
    rw [retry, hs]
    exact hs'

/-- **The retries of the store**: the operation is stored exactly once, and as soon as it can be,
exactly when its first attempt is accepted or none would be. -/
theorem retries_iff (cfg : Config) (info : List (Region Obj)) (s₀ : Pipeline)
    (turns : ℕ → StoreTurn) (hoffered : s₀.Offered)
    (hanswers : ∀ j, ∃ b, (turns j).answer cfg info s₀.unit.storeAddr = .ok b) :
    Retries cfg info s₀ turns ↔ (turns 0).answer cfg info s₀.unit.storeAddr = .ok true ∨
      ∀ j, (turns j).answer cfg info s₀.unit.storeAddr = .ok false := by
  obtain ⟨b, hb⟩ := hanswers 0
  have hone : ∀ n, ∃ s, retry cfg info s₀ turns (n + 1) = .ok s ∧
      s.storesSent = if b then 1 else 0 := fun n => by
    obtain ⟨s, hs, -, hsent⟩ := retry_succ hoffered hb n
    exact ⟨s, hs, hsent⟩
  constructor
  · intro h
    cases b with
    | true => exact .inl hb
    | false =>
      refine .inr fun j => ?_
      obtain ⟨c, hc⟩ := hanswers j
      cases c with
      | false => exact hc
      | true =>
        -- the attempt in step `j` would be accepted, and nothing is sent
        obtain ⟨s, hs, hsent⟩ := h (j + 1)
        obtain ⟨t, ht, hnone⟩ := hone j
        cases hs.symm.trans ht
        rw [if_pos ⟨j, Nat.lt_succ_self j, hc⟩, hnone] at hsent
        cases hsent
  · intro h n
    cases n with
    | zero => exact ⟨_, rfl, by simp [storesSent]⟩
    | succ n =>
      obtain ⟨s, hs, hsent⟩ := hone n
      refine ⟨s, hs, ?_⟩
      rw [hsent]
      rcases h with h | h
      · cases hb.symm.trans h
        exact (if_pos ⟨0, Nat.succ_pos n, h⟩).symm
      · cases hb.symm.trans (h 0)
        refine (if_neg ?_).symm
        rintro ⟨j, -, hj⟩
        cases (h j).symm.trans hj

/-- A unit whose computation is done. -/
def computed : Pipeline where
  coherence := noHost
  pimMctrl := Controller.init 1
  unit := { computation := { id := 2, output := some 0, outputReady := true }, storeAddr := 64 }

/-- The controller has room, or is full. -/
def emptyTurn : StoreTurn := { coherence := noHost, pimMctrl := Controller.init 1 }

def fullTurn : StoreTurn where
  coherence := noHost
  pimMctrl := { Controller.init 1 with waitQueue := [computed.request { id := 0 } .load 0] }

/-- An attempt that is accepted at once. -/
theorem retries_iff_empty : Retries { crtlQueueMax := 1 } oneObject computed fun _ => emptyTurn :=
  (retries_iff { crtlQueueMax := 1 } oneObject computed (fun _ => emptyTurn) (by decide)
    fun _ => ⟨true, by decide +kernel⟩).mpr (.inl (by decide +kernel))

/-- The full controller refuses the first attempt, and there is no second one. -/
theorem not_retries_full : ¬ Retries { crtlQueueMax := 1 } oneObject computed
    fun j => if j = 0 then fullTurn else emptyTurn := by
  intro h
  obtain ⟨s, hs, hsent⟩ := h 2
  obtain ⟨t, ht, hnone⟩ := Outcome.exists_of_map_eq_ok (f := storesSent) (b := 0)
    (x := retry { crtlQueueMax := 1 } oneObject computed
      (fun j => if j = 0 then fullTurn else emptyTurn) 2) (by decide +kernel)
  cases hs.symm.trans ht
  rw [if_pos ⟨1, by decide, by decide +kernel⟩, hnone] at hsent
  cases hsent

end Pipeline

end PIMSim
