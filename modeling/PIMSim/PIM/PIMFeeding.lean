import PIMSim.PIM.PIMCapacity
import PIMSim.Procs.ProcFeeding

/-!
# The instructions of a processor at the memory side

The cycle of a memory-side processor with its arithmetic unit, which is a copy of that of a host
processor. Until it has started, such a processor passes over every `NOP`.

## Main definitions

* `PIMCore.stepFed`: one cycle, with the record of what the arithmetic unit is given
* `PIMCore.feedsOnce`: what a cycle needs to give the current instruction once
* `PIMCore.handleFed`: what can happen to a processor

## Main results

* `PIMCore.stepFed_map`: the cycle is the one without the record
* `instructions_fed_once`: the instructions of both kinds of processors in every run
-/

namespace PIMSim

open CSharp Transition

variable {Obj : Type}

namespace PIMCore

variable {cfg : Config} {c c' : PIMCore} {log : List Feeding}

def cursor (c : PIMCore) : Cursor where
  ins := c.currIns
  req := c.currReq
  mshrRetry := c.mshrRetry
  mctrlRetry := c.mctrlRetry
  fetched := c.fetched

/-! ### The cycle -/

/-- A cycle up to the write-back queue, with its record. -/
def arriveFed (cfg : Config) (c : PIMCore) : Outcome ((Bool × PIMCore) × List Feeding) := do
  let c := { c with cycle := c.cycle + 1 }
  if cfg.ipc < 0 then
    .error .argument
  let (goesOn, first) ← c.start
  let log := c.cursor.obtained first.cursor
  if !goesOn then
    return ((false, first), log)
  let c := if cfg.traceType = .pc then { first with pc := first.pc + 1 } else first
  if simOver cfg c.cycle then
    return ((false, c), log)
  let log := log ++ aluTurn cfg (← c.theIns)
  let c ← if cfg.pimUseL1Cache then c.handleCacheReq else pure c
  return (← (c.updateInsW cfg).writeBack cfg, log)

/-- The cycle behind the write-back queue, with its record. -/
def retryAndServeFed (cfg : Config) (c : PIMCore) : Outcome (PIMCore × List Feeding) := do
  if c.mshrRetry || c.mctrlRetry then
    if c.insW.full then
      return (c, [])
    let (processed, c₁) ← c.handleLast cfg
    if !processed then
      return (c₁, [])
    let c₂ ← c₁.nextRequest
    let c₃ ← c₂.serve cfg
    return (c₃, c₁.cursor.obtained c₂.cursor ++ c₂.cursor.obtained c₃.cursor)
  else
    let c' ← c.serve cfg
    return (c', c.cursor.obtained c'.cursor)

/-- One cycle with the arithmetic unit, and its record. -/
def stepFed (cfg : Config) (c : PIMCore) : Outcome (PIMCore × List Feeding) := do
  let ((goesOn, c), log) ← c.arriveFed cfg
  if goesOn then
    let (c, log') ← c.retryAndServeFed cfg
    return (c, log ++ log')
  else return (c, log)

/-- The object behind a retried one is none to calculate. -/
def sparesNext (cfg : Config) (c : PIMCore) : Bool :=
  match c.handleLast cfg with
  | .ok (true, c₁) =>
    match c₁.nextRequest with
    | .ok c₂ => c₂.currIns.all (!·.calculates)
    | .error _ => true
  | _ => true

/-- **A cycle gives an instruction to calculate once** when it is given one at a time and the cycle goes
on to the next object. No such instruction comes behind a retried one. -/
def feedsOnce (cfg : Config) (c : PIMCore) : Bool :=
  match c.arrive cfg with
  | .ok (goesOn, c₁) =>
    (simOver cfg (c.cycle + 1) || c₁.currIns.all (givenOnce cfg goesOn)) &&
    (!(goesOn && c₁.cursor.retrying && !c₁.insW.full) || c₁.sparesNext cfg)
  | .error _ => true

/-! ### The record is added to the cycle -/

theorem theReq_eq_ok {req : ProcRequest} : c.theReq = .ok req ↔ c.currReq = some req := by
  unfold theReq
  cases c.currReq <;> simp

theorem theIns_eq_ok {ins : Instruction} : c.theIns = .ok ins ↔ c.currIns = some ins := by
  unfold theIns
  cases c.currIns <;> simp

theorem start_currIns {goesOn : Bool} (h : c.start = .ok (goesOn, c')) :
    ∃ ins, c'.currIns = some ins := by
  unfold start at h
  split_ifs at h with hnone
  · obtain ⟨⟨ins, c₁⟩, -, h⟩ := Outcome.bind_eq_ok.mp h
    dsimp only at h
    split_ifs at h <;> cases h <;> exact ⟨ins, rfl⟩
  · cases h
    rw [Bool.or_eq_true, not_or] at hnone
    exact Option.ne_none_iff_exists'.mp (by simpa using hnone.1)

theorem nextPc_cursor (c : PIMCore) :
    (if cfg.traceType = .pc then { c with pc := c.pc + 1 } else c).cursor = c.cursor := by
  split_ifs <;> rfl

/-- The cycle up to the write-back queue is the one without the record. -/
theorem arriveFed_map (cfg : Config) (c : PIMCore) : (c.arriveFed cfg).map Prod.fst = c.arrive cfg := by
  unfold arriveFed arrive
  dsimp only
  by_cases hipc : cfg.ipc < 0
  · rw [if_pos hipc, if_pos hipc]
    rfl
  rw [if_neg hipc, if_neg hipc]
  cases hstart : { c with cycle := c.cycle + 1 }.start with
  | error f => rfl
  | ok r =>
    obtain ⟨goesOn, first⟩ := r
    obtain ⟨ins, hins⟩ := start_currIns hstart
    cases goesOn with
    | false => rfl
    | true =>
      simp only [pure_bind, Outcome.ok_bind, Bool.not_true, Bool.false_eq_true, if_false]
      generalize hpc : (if cfg.traceType = .pc then { first with pc := first.pc + 1 } else first) = c₁
      have htheIns : c₁.theIns = .ok ins := by
        rw [theIns_eq_ok, ← hpc]
        exact (congrArg Cursor.ins (nextPc_cursor first)).trans hins
      change Except.map _ (if simOver cfg c₁.cycle then _ else _) = if simOver cfg c₁.cycle then _ else _
      split_ifs
      · rfl
      · rw [htheIns, Outcome.ok_bind]
        cases c₁.handleCacheReq with
        | error f => rfl
        | ok c₂ =>
          rw [Outcome.ok_bind, Outcome.ok_bind]
          cases (c₂.updateInsW cfg).writeBack cfg <;> rfl
      · rw [htheIns, Outcome.ok_bind]
        cases (c₁.updateInsW cfg).writeBack cfg <;> rfl

theorem retryAndServeFed_map (cfg : Config) (c : PIMCore) :
    (c.retryAndServeFed cfg).map Prod.fst = c.retryAndServe cfg := by
  unfold retryAndServeFed retryAndServe
  split_ifs with hretry hfull
  · rfl
  · cases c.handleLast cfg with
    | error f => rfl
    | ok r =>
      obtain ⟨processed, c₁⟩ := r
      cases processed with
      | false => rfl
      | true =>
        simp only [Outcome.ok_bind, Bool.not_true, if_neg Bool.false_ne_true]
        cases c₁.nextRequest with
        | error f => rfl
        | ok c₂ =>
          simp only [Outcome.ok_bind]
          cases c₂.serve cfg <;> rfl
  · cases c.serve cfg <;> rfl

/-- **The cycle with its record** is the cycle. -/
theorem stepFed_map (cfg : Config) (c : PIMCore) : (c.stepFed cfg).map Prod.fst = c.step cfg := by
  unfold stepFed step
  rw [← arriveFed_map]
  cases c.arriveFed cfg with
  | error f => rfl
  | ok r =>
    obtain ⟨⟨goesOn, c₁⟩, log⟩ := r
    cases goesOn with
    | false => rfl
    | true =>
      change Except.map _ ((c₁.retryAndServeFed cfg) >>= _) = c₁.retryAndServe cfg
      rw [← retryAndServeFed_map]
      cases c₁.retryAndServeFed cfg <;> rfl

/-! ### Methods that leave the current request -/

theorem scanPage_cursor (addr : UInt64) : Yields (c.scanPage addr) fun x =>
    x.2.cursor = c.cursor ∧ x.2.cycle = c.cycle := by
  refine yields_iff.mpr fun x hx => ?_
  obtain ⟨⟨res, tlb⟩, -, heq⟩ := Outcome.bind_eq_ok.mp hx
  cases heq
  exact ⟨rfl, rfl⟩

theorem fillL1_cursor (b : UInt64) (t : RequestType) :
    Yields (c.fillL1 b t) fun c' => c'.cursor = c.cursor := by
  refine yields_iff.mpr fun c' hfill => ?_
  obtain ⟨⟨hit, l1⟩, -, hfill⟩ := Outcome.bind_eq_ok.mp hfill
  cases hit with
  | true =>
    cases hfill
    rfl
  | false =>
    obtain ⟨⟨v, l1'⟩, -, heq⟩ := Outcome.bind_eq_ok.mp hfill
    cases heq
    rfl

theorem addToMshr_cursor (cfg : Config) (c : PIMCore) (req : ProcRequest) :
    (c.addToMshr cfg req).2.cursor = c.cursor := by
  unfold addToMshr
  split_ifs <;> rfl

theorem handleCacheReq_cursor : Yields c.handleCacheReq fun c' => c'.cursor = c.cursor := by
  have hloop : ∀ (queue : List ProcRequest) (c : PIMCore),
      Yields (cacheReqLoop queue c) fun c' => c'.cursor = c.cursor := by
    intro queue
    induction queue with
    | nil =>
      intro c
      exact ensures_ok rfl
    | cons req queue ih =>
      intro c
      unfold cacheReqLoop
      split_ifs
      · apply (fillL1_cursor _ _).bind
        intro c₁ h₁
        exact (ih _).mono fun c₂ h₂ => h₂.trans h₁
      · exact ensures_error not_false
  exact hloop _ c

theorem updateInsW_cursor (c : PIMCore) : (c.updateInsW cfg).cursor = c.cursor := by
  unfold updateInsW
  split_ifs <;> rfl

theorem writeBack_cursor : Yields (c.writeBack cfg) fun x => x.2.cursor = c.cursor := by
  unfold writeBack
  split_ifs
  · split
    · exact ensures_error not_false
    · exact ensures_ok rfl
    · exact ensures_ok rfl
  · exact ensures_ok rfl

/-! ### The next object -/

/-- What a call of the partitioner leaves and counts. -/
def Counts (c : PIMCore) (x : Instruction × PIMCore) : Prop :=
  x.1.ref = c.fetched ∧ x.2.cursor = { c.cursor with fetched := c.fetched + 1 } ∧ x.2.cycle = c.cycle

theorem getIns_counts (b : NamedBlock) :
    Yields (c.getIns b) fun r => ∀ x, r = some x → c.Counts x := by
  unfold getIns
  split
  · refine ensures_ok fun x hx => ?_
    cases hx
  · exact ensures_error not_false
  · dsimp only
    split
    · refine ensures_ok fun x hx => ?_
      cases hx
      exact ⟨rfl, rfl, rfl⟩
    · refine ensures_ok fun x hx => ?_
      cases hx
      exact ⟨rfl, rfl, rfl⟩

theorem getInput_counts : Yields c.getInput c.Counts := by
  unfold getInput
  dsimp only
  split
  · split_ifs
    · exact (scanPage_cursor _).bind fun x hx => ensures_ok ⟨rfl, hx⟩
    · exact ensures_ok ⟨rfl, rfl, rfl⟩
  · refine (getIns_counts _).bind fun r hr => ?_
    cases r with
    | none => exact ensures_error not_false
    | some x => exact ensures_ok (hr x rfl)
  · refine yields_iff.mpr fun x hx => ?_
    obtain ⟨ins, -, hx⟩ := Outcome.bind_eq_ok.mp hx
    obtain ⟨⟨block, c₁⟩, hscan, heq⟩ := Outcome.bind_eq_ok.mp hx
    cases heq
    exact ⟨rfl, (scanPage_cursor _).1 _ hscan⟩
  · exact ensures_error not_false

theorem getInsFromInsp_counts : Yields c.getInsFromInsp c.Counts := by
  unfold getInsFromInsp
  split
  · refine (getIns_counts _).bind fun r hr => ?_
    cases r with
    | some x => exact ensures_ok (hr x rfl)
    | none =>
      dsimp only
      split_ifs
      · exact ensures_error not_false
      · exact getInput_counts
  · exact getInput_counts

/-- The object that is made the current one, with a request of its own. -/
theorem Counts.gets {x : Instruction × PIMCore} (h : c.Counts x) {req : ProcRequest}
    (hreq : req.ifMem = x.1.isMem) (started : Bool) :
    c.cursor.Gets { x.2 with started, currIns := some x.1, currReq := some req }.cursor x.1 where
  ins := rfl
  req := ⟨req, rfl, hreq⟩
  ref := h.1
  fetched := by
    have hfetched := congrArg Cursor.fetched h.2.1
    exact hfetched
  mshrRetry := by
    have hmshr := congrArg Cursor.mshrRetry h.2.1
    exact hmshr
  mctrlRetry := by
    have hmctrl := congrArg Cursor.mctrlRetry h.2.1
    exact hmctrl

theorem nextRequest_gets : Yields c.nextRequest fun c' => ∃ i, c.cursor.Gets c'.cursor i := by
  unfold nextRequest
  apply getInsFromInsp_counts.bind
  intro x hx
  exact ensures_ok ⟨x.1, hx.gets rfl x.2.started⟩

/-- What is fetched behind a request that stayed. -/
theorem nextRequest_moves {k : Cursor} (h : k.Stays c.cursor) :
    Yields c.nextRequest fun c' => k.Moves c'.cursor :=
  nextRequest_gets.mono fun _ ⟨i, hget⟩ => Or.inr ⟨i, h.gets hget⟩

/-! ### The issue and the retry of a request for the memory -/

theorem loadIns_stays (ready : Bool) (h : c.cursor.AtMemory) :
    Yields (c.loadIns ready) fun c' => c.cursor.Stays c'.cursor := by
  refine yields_iff.mpr fun c' hload => ?_
  obtain ⟨-, req, -, -, hreq, hif⟩ := h
  obtain ⟨ins, -, heq⟩ := Outcome.bind_eq_ok.mp hload
  cases heq
  exact ⟨⟨_, req, rfl, rfl, hreq, hif⟩, rfl, rfl, rfl⟩

theorem issueMiss_moves (req : ProcRequest) (h : c.cursor.AtMemory) :
    Yields (c.issueMiss cfg req) fun x => c.cursor.Moves x.2.cursor := by
  unfold issueMiss
  apply (loadIns_stays false h).bind
  intro c₁ h₁
  have hsent : c.cursor.Stays (c₁.addToMctrl cfg req).2.cursor := h₁
  cases hadd : c₁.addToMctrl cfg req with
  | mk ok c₂ =>
    rw [hadd] at hsent
    cases ok with
    | false => exact ensures_ok (Or.inl ⟨hsent.memory, hsent.fetched⟩)
    | true => exact (nextRequest_moves hsent).bind fun c₃ h₃ => ensures_ok h₃

/-- **The issue of a request for the memory.** -/
theorem issue_moves (h : c.cursor.AtMemory) :
    Yields (c.issue cfg) fun x => c.cursor.Moves x.2.cursor := by
  unfold issue
  by_cases hfull : c.insW.full = true
  · rw [if_pos hfull]
    exact ensures_ok (Or.inl ⟨h, rfl⟩)
  rw [if_neg hfull]
  refine yields_iff.mpr fun x hx => ?_
  obtain ⟨req, -, hx⟩ := Outcome.bind_eq_ok.mp hx
  obtain ⟨ins, -, hx⟩ := Outcome.bind_eq_ok.mp hx
  split_ifs at hx
  · obtain ⟨insW, -, hx⟩ := Outcome.bind_eq_ok.mp hx
    obtain ⟨c₁, hnew, heq⟩ := Outcome.bind_eq_ok.mp hx
    cases heq
    exact (nextRequest_moves (k := c.cursor) (c := { c with insW := insW }) h.stays).1 _ hnew
  · obtain ⟨⟨hit, l1⟩, -, hx⟩ := Outcome.bind_eq_ok.mp hx
    have h₁ : { c with l1Cache := l1 }.cursor.AtMemory := h
    cases hit with
    | true =>
      obtain ⟨c₂, hload, hx⟩ := Outcome.bind_eq_ok.mp hx
      obtain ⟨c₃, hnew, heq⟩ := Outcome.bind_eq_ok.mp hx
      cases heq
      exact (nextRequest_moves ((loadIns_stays true h₁).1 _ hload)).1 _ hnew
    | false =>
      have hadd := addToMshr_cursor cfg { c with l1Cache := l1 } req
      cases hmshr : { c with l1Cache := l1 }.addToMshr cfg req with
      | mk ok c₁ =>
        rw [hmshr] at hadd
        change c₁.cursor = c.cursor at hadd
        simp only [hmshr] at hx
        rw [← hadd] at h ⊢
        cases ok with
        | false =>
          cases hx
          exact Or.inl ⟨h, rfl⟩
        | true => exact (issueMiss_moves req h).1 _ hx
  · exact (issueMiss_moves req h).1 _ hx

theorem retry_retries (req : ProcRequest) (h : c.cursor.AtMemory) (hmshr : c.mshrRetry = false) :
    Yields (c.retry cfg req) fun x => c.cursor.Retries x.2.cursor x.1 := by
  unfold retry
  apply (loadIns_stays false h).bind
  intro c₁ hstays
  have hadd := addToMshr_cursor cfg c₁ req
  cases hmshr₁ : c₁.addToMshr cfg req with
  | mk ok c₂ =>
    rw [hmshr₁] at hadd
    change c₂.cursor = c₁.cursor at hadd
    rw [← hadd] at hstays
    cases ok with
    | false => exact ensures_ok ⟨hstays.memory, hstays.fetched, fun hfalse => absurd hfalse (by simp)⟩
    | true =>
      refine ensures_ok ⟨hstays.memory, hstays.fetched, fun _ => ?_⟩
      have hretry : c₂.mshrRetry = false := hstays.mshrRetry.trans hmshr
      change (c₂.mshrRetry || false) = false
      rw [hretry]
      rfl

/-- **The retry of a request for the memory.** -/
theorem handleLast_retries (h : c.cursor.AtMemory) :
    Yields (c.handleLast cfg) fun x => c.cursor.Retries x.2.cursor x.1 := by
  refine yields_iff.mpr fun x hx => ?_
  obtain ⟨req, -, hx⟩ := Outcome.bind_eq_ok.mp hx
  split_ifs at hx with hmem hretry
  · cases hx
    exact ⟨h, rfl, fun hfalse => absurd hfalse (by simp)⟩
  · have hadd := addToMshr_cursor cfg c req
    cases hmshr : c.addToMshr cfg req with
    | mk ok c₁ =>
      rw [hmshr] at hadd hx
      change c₁.cursor = c.cursor at hadd
      rw [← hadd] at h ⊢
      cases ok with
      | false =>
        cases hx
        exact ⟨h, rfl, fun hfalse => absurd hfalse (by simp)⟩
      | true =>
        have hretries := (retry_retries (c := { c₁ with mshrRetry := false }) req h rfl).1 _ hx
        exact ⟨hretries.memory, hretries.fetched, hretries.done⟩
  · exact (retry_retries req h (by simpa using hretry)).1 _ hx

/-! ### A cycle -/

/-- The first object. A processor that has not started passes over a `NOP`. -/
theorem start_tracked (h : Tracked c.cursor log) : Yields c.start fun x =>
    Tracked x.2.cursor (log ++ c.cursor.obtained x.2.cursor) ∧ x.2.cycle = c.cycle ∧
      (x.1 = false → ∀ ins, x.2.currIns = some ins → ins.calculates = false) := by
  unfold start
  split_ifs with hnone
  · -- nothing is current yet, or nothing to calculate
    have hreq : c.currReq = none := by
      cases hreq : c.currReq with
      | none => rfl
      | some req =>
        obtain ⟨ins, hins, -⟩ := h.steady.paired req hreq
        rw [show c.currIns = some ins from hins, hreq] at hnone
        exact absurd hnone (by simp)
    have hretry : c.cursor.retrying = false := by
      by_contra htrue
      obtain ⟨-, req, -, -, hsome, -⟩ := h.steady.retry (by simpa using htrue)
      rw [show c.currReq = some req from hsome] at hreq
      cases hreq
    have hsettled : Settled c.cursor.fetched log := h.unfed.pass (h.steady.fresh hreq)
    refine yields_iff.mpr fun x hx => ?_
    obtain ⟨⟨ins, c₁⟩, hget, hx⟩ := Outcome.bind_eq_ok.mp hx
    have hcounts : c.Counts (ins, c₁) := getInsFromInsp_counts.1 _ hget
    dsimp only at hx
    split_ifs at hx with hnop
    · -- the request stays null
      cases hx
      have hcalc : ins.calculates = false := by
        have htype : ins.type = .nop := by
          rw [Bool.and_eq_true] at hnop
          simpa using hnop.2
        simp [Instruction.calculates, htype]
      have hfetched : c₁.fetched = c.fetched + 1 := congrArg Cursor.fetched hcounts.2.1
      have hnoReq : c₁.currReq = none := (congrArg Cursor.req hcounts.2.1).trans hreq
      have hnoRetry : ({ c₁ with currIns := some ins } : PIMCore).cursor.retrying = false := by
        have hmshr := congrArg Cursor.mshrRetry hcounts.2.1
        have hmctrl := congrArg Cursor.mctrlRetry hcounts.2.1
        unfold Cursor.retrying at hretry ⊢
        change (c₁.mshrRetry || c₁.mctrlRetry) = false
        rw [show c₁.mshrRetry = c.cursor.mshrRetry from hmshr,
          show c₁.mctrlRetry = c.cursor.mctrlRetry from hmctrl]
        exact hretry
      have hobtained : c.cursor.obtained { c₁ with currIns := some ins }.cursor = [.got ins] := by
        unfold Cursor.obtained
        rw [if_neg]
        · rfl
        · change c₁.fetched ≠ c.fetched
          rw [hfetched]
          exact Nat.succ_ne_self _
      refine ⟨⟨?_, ?_, ?_, ?_⟩, hcounts.2.2, ?_⟩
      · rw [hobtained]
        exact hsettled.got rfl hcounts.1 hfetched
      · intro req hsome
        rw [show c₁.currReq = some req from hsome] at hnoReq
        cases hnoReq
      · intro _ i hi
        cases hi
        exact hcalc
      · intro htrue
        rw [hnoRetry] at htrue
        cases htrue
      · intro _ i hi
        cases hi
        exact hcalc
    · cases hx
      have hget := @Counts.gets _ _ hcounts ((c₁.currReq.getD {}).parse ins) rfl true
      exact ⟨hsettled.gets hget hretry, hcounts.2.2, fun hfalse => absurd hfalse (by simp)⟩
  · refine ensures_ok ⟨?_, rfl, fun hfalse => absurd hfalse (by simp)⟩
    rw [Cursor.obtained_of_eq rfl, List.append_nil]
    exact h

/-- **The last part of a cycle**, behind the arithmetic unit's part. -/
theorem serve_tracked (hsettled : Settled c.cursor.fetched log) (hsteady : c.cursor.Steady)
    (hretry : c.cursor.retrying = false) :
    Yields (c.serve cfg) fun c' => Tracked c'.cursor (log ++ c.cursor.obtained c'.cursor) := by
  refine yields_iff.mpr fun c' h => ?_
  obtain ⟨req, hreq, h⟩ := Outcome.bind_eq_ok.mp h
  obtain ⟨ins, hins, hif⟩ := hsteady.paired req (theReq_eq_ok.mp hreq)
  split_ifs at h with hmem
  · have hmemory : c.cursor.AtMemory := ⟨ins, req, hins, hif ▸ hmem, theReq_eq_ok.mp hreq, hmem⟩
    obtain ⟨⟨goesOn, c₁⟩, hissue, h⟩ := Outcome.bind_eq_ok.mp h
    have hend : c₁ = c' := by
      cases goesOn <;> cases h <;> rfl
    subst hend
    exact hsettled.moves ((issue_moves hmemory).1 _ hissue) hretry
  · exact hsettled.moves (Or.inr (nextRequest_gets.1 _ h)) hretry

/-- What a cycle records up to the write-back queue. -/
theorem arriveFed_tracked (htracked : Tracked c.cursor log) {goesOn : Bool} {new : List Feeding}
    (h : c.arriveFed cfg = .ok ((goesOn, c'), new)) :
    ∃ log₁, Tracked c'.cursor log₁ ∧
      (goesOn = false ∧ log ++ new = log₁ ∧ (simOver cfg (c.cycle + 1) = true ∨
          ∀ ins, c'.currIns = some ins → ins.calculates = false) ∨
        simOver cfg (c.cycle + 1) = false ∧
          ∃ ins, c'.currIns = some ins ∧ log ++ new = log₁ ++ aluTurn cfg ins) := by
  unfold arriveFed at h
  dsimp only at h
  by_cases hipc : cfg.ipc < 0
  · rw [if_pos hipc] at h
    cases h
  rw [if_neg hipc] at h
  obtain ⟨⟨running, first⟩, hstart, h⟩ := Outcome.bind_eq_ok.mp h
  obtain ⟨hfirst, hcycle, hnop⟩ :=
    (start_tracked (c := { c with cycle := c.cycle + 1 }) htracked).1 _ hstart
  cases running with
  | false =>
    cases h
    exact ⟨_, hfirst, Or.inl ⟨rfl, rfl, Or.inr (hnop rfl)⟩⟩
  | true =>
    simp only [Bool.not_true, Bool.false_eq_true, if_false] at h
    generalize hpc : (if cfg.traceType = .pc then { first with pc := first.pc + 1 } else first) = c₁ at h
    have hc₁ : c₁.cursor = first.cursor := hpc ▸ nextPc_cursor first
    have hcycle₁ : c₁.cycle = c.cycle + 1 := by
      rw [← hpc]
      split_ifs <;> exact hcycle
    change Tracked first.cursor (log ++ c.cursor.obtained first.cursor) at hfirst
    -- Behind the start no part of the cycle moves the cursor, with the caches or without.
    have hend : ∀ (c₂ : PIMCore) (ins : Instruction), c₁.theIns = .ok ins → c₂.cursor = c₁.cursor →
        (do return (← (c₂.updateInsW cfg).writeBack cfg,
          c.cursor.obtained first.cursor ++ aluTurn cfg ins)) = (.ok ((goesOn, c'), new) : Outcome _) →
        c'.cursor = c₁.cursor ∧ c'.currIns = some ins ∧
          new = c.cursor.obtained first.cursor ++ aluTurn cfg ins := by
      intro c₂ ins hins hsame hback
      obtain ⟨x, hx, heq⟩ := Outcome.bind_eq_ok.mp hback
      cases heq
      have hcursor : c'.cursor = c₁.cursor :=
        (writeBack_cursor.1 _ hx).trans ((updateInsW_cursor c₂).trans hsame)
      exact ⟨hcursor, (congrArg Cursor.ins hcursor).trans (theIns_eq_ok.mp hins), rfl⟩
    rw [hcycle₁] at h
    have hdone : ∀ ins, c'.cursor = c₁.cursor ∧ c'.currIns = some ins ∧
        new = c.cursor.obtained first.cursor ++ aluTurn cfg ins → ∃ log₁, Tracked c'.cursor log₁ ∧
          ∃ ins, c'.currIns = some ins ∧ log ++ new = log₁ ++ aluTurn cfg ins := by
      rintro ins ⟨hcursor, hins, rfl⟩
      rw [hcursor, hc₁]
      exact ⟨_, hfirst, ins, hins, (List.append_assoc ..).symm⟩
    split_ifs at h with hover hcache
    · cases h
      exact ⟨_, hc₁ ▸ hfirst, Or.inl ⟨rfl, rfl, Or.inl hover⟩⟩
    · obtain ⟨ins, hins, h⟩ := Outcome.bind_eq_ok.mp h
      obtain ⟨c₂, hserved, h⟩ := Outcome.bind_eq_ok.mp h
      obtain ⟨log₁, htracked₁, hlog⟩ := hdone ins (hend c₂ ins hins (handleCacheReq_cursor.1 _ hserved) h)
      exact ⟨log₁, htracked₁, Or.inr ⟨by simpa using hover, hlog⟩⟩
    · obtain ⟨ins, hins, h⟩ := Outcome.bind_eq_ok.mp h
      obtain ⟨log₁, htracked₁, hlog⟩ := hdone ins (hend c₁ ins hins rfl h)
      exact ⟨log₁, htracked₁, Or.inr ⟨by simpa using hover, hlog⟩⟩

/-- **The cycle behind the write-back queue.** -/
theorem retryAndServeFed_tracked (hsettled : Settled c.cursor.fetched log) (hsteady : c.cursor.Steady)
    (hspares : c.cursor.retrying = true → c.insW.full = false → c.sparesNext cfg = true) :
    Yields (c.retryAndServeFed cfg) fun x => Tracked x.1.cursor (log ++ x.2) := by
  refine yields_iff.mpr fun x h => ?_
  unfold retryAndServeFed at h
  change (if c.cursor.retrying = true then _ else _) = _ at h
  split_ifs at h with hretry hfull
  · cases h
    rw [List.append_nil]
    exact hsettled.atMemory (hsteady.retry hretry)
  · obtain ⟨⟨processed, c₁⟩, hlast, h⟩ := Outcome.bind_eq_ok.mp h
    obtain ⟨hmemory, hfetched, hdone⟩ := (handleLast_retries (hsteady.retry hretry)).1 _ hlast
    change c₁.cursor.AtMemory at hmemory
    change c₁.cursor.fetched = _ at hfetched
    rw [← hfetched] at hsettled
    cases processed with
    | false =>
      cases h
      rw [List.append_nil]
      exact hsettled.atMemory hmemory
    | true =>
      obtain ⟨c₂, hnew, h⟩ := Outcome.bind_eq_ok.mp h
      obtain ⟨c₃, hserve, h⟩ := Outcome.bind_eq_ok.mp h
      cases h
      obtain ⟨i, hget⟩ := nextRequest_gets.1 _ hnew
      -- the object behind the retried one is none to calculate
      have hnext : ∀ ins, c₂.cursor.ins = some ins → ins.calculates = false := by
        intro ins hins
        have hspare := hspares hretry (by simpa using hfull)
        unfold sparesNext at hspare
        rw [hlast] at hspare
        dsimp only at hspare
        rw [hnew] at hspare
        dsimp only at hspare
        rw [show c₂.currIns = some ins from hins] at hspare
        simpa using hspare
      have htracked := hsettled.gets hget (hdone rfl)
      rw [← List.append_assoc]
      exact (serve_tracked (htracked.unfed.pass hnext) htracked.steady
        (hget.noRetry (hdone rfl))).1 _ hserve
  · obtain ⟨c₁, hserve, h⟩ := Outcome.bind_eq_ok.mp h
    cases h
    exact (serve_tracked hsettled hsteady (by simpa using hretry)).1 _ hserve

/-- **A cycle** that gives the current instruction once keeps the record right. -/
theorem stepFed_tracked (htracked : Tracked c.cursor log) (hfeeds : c.feedsOnce cfg = true) :
    Yields (c.stepFed cfg) fun x => Tracked x.1.cursor (log ++ x.2) := by
  refine yields_iff.mpr fun x h => ?_
  obtain ⟨⟨⟨goesOn, c₁⟩, new⟩, harrive, h⟩ := Outcome.bind_eq_ok.mp h
  have harrived : c.arrive cfg = .ok (goesOn, c₁) := by
    rw [← arriveFed_map, harrive]
    rfl
  unfold feedsOnce at hfeeds
  rw [harrived] at hfeeds
  dsimp only at hfeeds
  obtain ⟨hcurr, hnext⟩ := Bool.and_eq_true_iff.mp hfeeds
  obtain ⟨log₁, htracked₁, ⟨rfl, hlog, -⟩ | ⟨hover, ins, hins, hlog⟩⟩ :=
    arriveFed_tracked htracked harrive
  · cases h
    exact hlog ▸ htracked₁
  · rw [hover, hins] at hcurr
    obtain ⟨hsettled, hstalled⟩ := htracked₁.unfed.turn hins (by simpa using hcurr)
    rw [← hlog] at hsettled
    cases goesOn with
    | false =>
      cases h
      exact ⟨hsettled.unfed (hstalled rfl), htracked₁.steady⟩
    | true =>
      obtain ⟨⟨c₂, new₂⟩, hserve, h⟩ := Outcome.bind_eq_ok.mp h
      cases h
      have hspares : c₁.cursor.retrying = true → c₁.insW.full = false → c₁.sparesNext cfg = true := by
        intro hretry hfull
        simpa [hretry, hfull] using hnext
      rw [← List.append_assoc]
      exact (retryAndServeFed_tracked hsettled htracked₁.steady hspares).1 _ hserve

/-! ### Events -/

/-- One event, with its record. -/
def handleFed (cfg : Config) (info : List (Region Obj)) (s : Fed PIMCore) :
    PIMEvent → Outcome (Fed PIMCore)
  | .cycle => do
    let (core, new) ← s.core.stepFed cfg
    return { core, log := s.log ++ new }
  | e => do
    let core ← s.core.handle cfg info e
    return { s with core }

/-- What an event needs: a cycle gives an instruction to calculate once. -/
def Feeds (cfg : Config) (s : Fed PIMCore) : PIMEvent → Prop
  | .cycle => s.core.feedsOnce cfg = true
  | _ => True

instance (cfg : Config) (s : Fed PIMCore) : ∀ e, Decidable (Feeds cfg s e)
  | .cycle => inferInstanceAs (Decidable (_ = true))
  | .completed _ | .add _ | .mctrlStep _ | .take _ => .isTrue trivial

/-- **An event** keeps the record right. -/
theorem handleFed_tracked {info : List (Region Obj)} {s s' : Fed PIMCore} {e : PIMEvent}
    (h : Tracked s.core.cursor s.log) (hfeeds : Feeds cfg s e)
    (hstep : handleFed cfg info s e = .ok s') : Tracked s'.core.cursor s'.log := by
  cases e with
  | cycle =>
    obtain ⟨⟨core, new⟩, hcycle, heq⟩ := Outcome.bind_eq_ok.mp hstep
    cases heq
    exact (stepFed_tracked h hfeeds).1 _ hcycle
  | completed b =>
    obtain ⟨core, hcall, heq⟩ := Outcome.bind_eq_ok.mp hstep
    cases heq
    obtain ⟨p, -, heq⟩ := Outcome.bind_eq_ok.mp hcall
    cases heq
    exact h
  | add req =>
    cases hstep
    exact h
  | mctrlStep coherence =>
    obtain ⟨core, hcall, heq⟩ := Outcome.bind_eq_ok.mp hstep
    cases heq
    obtain ⟨⟨coherence', mctrl⟩, -, heq⟩ := Outcome.bind_eq_ok.mp hcall
    cases heq
    exact h
  | take pid =>
    obtain ⟨core, hcall, heq⟩ := Outcome.bind_eq_ok.mp hstep
    cases heq
    obtain ⟨⟨req, mctrl⟩, -, heq⟩ := Outcome.bind_eq_ok.mp hcall
    cases heq
    exact h

end PIMCore

/-! ### Runs -/

/-- A host processor before its first cycle, among what it shares with the others. -/
def Core.fresh (cfg : Config) (pid : Int) (inputs : List Input) (assoc maxSet : ℕ) (world : World) :
    Fed Core where
  core := { proc := Proc.create cfg pid inputs assoc maxSet, world }

/-- A memory-side processor before its first cycle. -/
def PIMCore.unfed (cfg : Config) (pid : Int) (inputs : List PIMInput) (assoc maxSet : ℕ)
    (tlb : PageConverter) (writeback : Bool) (objects : ℕ) : Fed PIMCore where
  core := PIMCore.create cfg pid inputs assoc maxSet tlb writeback objects

/-- **The instructions to calculate** in every run whose cycles each give the current one once: each
instruction that a processor of either side has obtained was given to its arithmetic unit once, but for
the current one, which is still to be given. -/
theorem instructions_fed_once {cfg : Config} (info : List (Region Obj)) {pid : Int}
    {inputs : List Input} {assoc maxSet : ℕ} {world : World} {es : List HostEvent} {s : Fed Core}
    (hfeeds : Along (Core.handleFed cfg) (Core.Feeds cfg) (Core.fresh cfg pid inputs assoc maxSet world) es)
    (h : exec (Core.handleFed cfg) (Core.fresh cfg pid inputs assoc maxSet world) es = .ok s)
    {unit : Int} {stream : List PIMInput} {ways sets objects : ℕ} {tlb : PageConverter}
    {writeback : Bool} {fs : List PIMEvent} {u : Fed PIMCore}
    (hunit : Along (PIMCore.handleFed cfg info) (PIMCore.Feeds cfg)
      (PIMCore.unfed cfg unit stream ways sets tlb writeback objects) fs)
    (hu : exec (PIMCore.handleFed cfg info)
      (PIMCore.unfed cfg unit stream ways sets tlb writeback objects) fs = .ok u) :
    FedOnce s.core.proc.currIns s.log ∧ FedOnce u.core.currIns u.log := by
  have hhost := exec_along (I := fun s => Tracked s.core.cursor s.log)
    (fun s e s' hI hgood hstep => Core.handleFed_tracked hI hgood hstep)
    (tracked_start rfl rfl rfl) hfeeds h
  have hpim := exec_along (I := fun u => Tracked u.core.cursor u.log)
    (fun u e u' hI hgood hstep => PIMCore.handleFed_tracked hI hgood hstep)
    (tracked_start rfl rfl rfl) hunit hu
  exact ⟨hhost.unfed.fedOnce, hpim.unfed.fedOnce⟩


/-- The first processor of the small platform. -/
def freshCore (cfg : Config) (inputs : List Input) : Fed Core :=
  Core.fresh cfg 0 inputs 4 1 ((smallPlatform []).host cfg).world

/-- A memory-side processor with the same stream. -/
def unfedPIMCore (cfg : Config) (inputs : List Input) : Fed PIMCore :=
  PIMCore.unfed cfg 0 (inputs.map .input) 4 1 (PageConverter.create 4096 1 1 8 false) true 1

/-- A calculation behind a read is given once on both sides. -/
theorem instructions_fed_once_read : ∃ s u,
    exec (Core.handleFed { traceType := .detailed }) (freshCore { traceType := .detailed }
      [.instruction { type := .read, address := 64, isMem := true }, .instruction { type := .calculation }])
        [.cycle, .cycle, .cycle] = .ok s ∧
    exec (PIMCore.handleFed { traceType := .detailed } oneObject) (unfedPIMCore { traceType := .detailed }
      [.instruction { type := .read, address := 64, isMem := true }, .instruction { type := .calculation }])
        [.cycle, .cycle, .cycle] = .ok u ∧
    FedOnce s.core.proc.currIns s.log ∧ FedOnce u.core.currIns u.log := by
  obtain ⟨s, hs, -⟩ := Outcome.exists_of_map_eq_ok (f := fun s : Fed Core => s.log.length)
    (x := exec (Core.handleFed { traceType := .detailed }) (freshCore { traceType := .detailed }
      [.instruction { type := .read, address := 64, isMem := true }, .instruction { type := .calculation }])
        [.cycle, .cycle, .cycle]) (b := 5) (by decide +kernel)
  obtain ⟨u, hu, -⟩ := Outcome.exists_of_map_eq_ok (f := fun u : Fed PIMCore => u.log.length)
    (x := exec (PIMCore.handleFed { traceType := .detailed } oneObject)
      (unfedPIMCore { traceType := .detailed }
        [.instruction { type := .read, address := 64, isMem := true }, .instruction { type := .calculation }])
        [.cycle, .cycle, .cycle]) (b := 5) (by decide +kernel)
  have hfeeds : Along (Core.handleFed { traceType := .detailed }) (Core.Feeds { traceType := .detailed })
      (freshCore { traceType := .detailed }
        [.instruction { type := .read, address := 64, isMem := true }, .instruction { type := .calculation }])
      [.cycle, .cycle, .cycle] := by decide +kernel
  have hunit : Along (PIMCore.handleFed { traceType := .detailed } oneObject)
      (PIMCore.Feeds { traceType := .detailed })
      (unfedPIMCore { traceType := .detailed }
        [.instruction { type := .read, address := 64, isMem := true }, .instruction { type := .calculation }])
      [.cycle, .cycle, .cycle] := by decide +kernel
  exact ⟨s, u, hs, hu, instructions_fed_once oneObject hfeeds hs hunit hu⟩

/-- An IPC of two gives a calculation twice in its one cycle. With no room for requests to the memory, a
read is retried, and the calculation behind it is passed over. -/
theorem not_fed_once :
    (¬ ∀ s, exec (Core.handleFed { ipc := 2, traceType := .detailed })
      (freshCore { ipc := 2, traceType := .detailed } [.instruction { type := .calculation }])
        [.cycle] = .ok s → FedOnce s.core.proc.currIns s.log) ∧
    ¬ ∀ s, exec (Core.handleFed { crtlQueueMax := 0, traceType := .detailed })
      (freshCore { crtlQueueMax := 0, traceType := .detailed }
        [.instruction { type := .read, address := 64, isMem := true }, .instruction { type := .calculation }])
        [.cycle, .cycle] = .ok s → FedOnce s.core.proc.currIns s.log := by
  constructor
  · intro h
    obtain ⟨s, hs, hlog⟩ := Outcome.exists_of_map_eq_ok (f := fun s : Fed Core => s.log)
      (x := exec (Core.handleFed { ipc := 2, traceType := .detailed })
        (freshCore { ipc := 2, traceType := .detailed } [.instruction { type := .calculation }]) [.cycle])
      (b := [.got { type := .calculation }, .fed { type := .calculation }, .fed { type := .calculation },
        .got { ref := 1 }]) (by decide +kernel)
    have honce := h s hs { type := .calculation } (by simp [hlog]) rfl
    rw [hlog] at honce
    obtain htwice | ⟨-, htwice⟩ := honce
    · exact absurd htwice (by decide)
    · exact absurd htwice (by decide)
  · intro h
    obtain ⟨s, hs, hlog⟩ := Outcome.exists_of_map_eq_ok
      (f := fun s : Fed Core => (s.core.proc.currIns.map Instruction.ref, s.log))
      (x := exec (Core.handleFed { crtlQueueMax := 0, traceType := .detailed })
        (freshCore { crtlQueueMax := 0, traceType := .detailed }
          [.instruction { type := .read, address := 64, isMem := true },
            .instruction { type := .calculation }]) [.cycle, .cycle])
      (b := (some 2, [.got { type := .read, address := 64, isMem := true, blockAddr := 64 },
        .got { ref := 1, type := .calculation }, .got { ref := 2 }])) (by decide +kernel)
    obtain ⟨hcurr, hlog⟩ := Prod.mk.inj hlog
    have honce := h s hs { ref := 1, type := .calculation } (by simp [hlog]) rfl
    rw [hlog] at honce
    obtain hskipped | ⟨hins, -⟩ := honce
    · exact absurd hskipped (by decide)
    · rw [hins] at hcurr
      exact absurd hcurr (by decide)

end PIMSim
