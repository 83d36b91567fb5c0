import PIMSim.Library.Postcondition
import PIMSim.Procs.Feeding
import PIMSim.Procs.Issue

/-!
# The instructions of a host processor

The cycle of a host processor with its arithmetic unit. An instruction to calculate is current for one
cycle, unless the write-back queue ends the cycle before the next instruction is fetched. Behind a retry
the next instruction is passed over as if it had been given.

## Main definitions

* `Core.stepFed`: one cycle, with the record of what the arithmetic unit is given
* `Core.feedsOnce`: what a cycle needs to give the current instruction once
* `HostEvent`, `Core.handleFed`: what can happen to a processor

## Main results

* `Core.stepFed_map`: the cycle is the one without the record
* `Core.handleFed_tracked`: an event keeps the record right
-/

namespace PIMSim

open CSharp

/-- A processor and its record. -/
structure Fed (σ : Type) where
  core : σ
  log : List Feeding := []

namespace Core

variable {cfg : Config} {c c' : Core} {log : List Feeding}

def cursor (c : Core) : Cursor where
  ins := c.proc.currIns
  req := c.proc.currReq
  mshrRetry := c.proc.mshrRetry
  mctrlRetry := c.proc.mctrlRetry
  fetched := c.proc.fetched

/-! ### The cycle -/

/-- A cycle up to the write-back queue, with its record. -/
def arriveFed (cfg : Config) (c : Core) : Outcome ((Bool × Core) × List Feeding) := do
  let c := c.nextCycle
  if cfg.ipc < 0 then
    .error .argument
  else
    let first ← c.start
    let log := c.cursor.obtained first.cursor
    let c := first.nextPc cfg
    if simOver cfg c.proc.cycle then
      return ((false, c), log)
    let log := log ++ aluTurn cfg (← c.theIns)
    let c ← c.updateCache cfg
    let c := c.updateInsW cfg
    if cfg.writeback && !c.proc.writebackReq.isEmpty then
      let c := c.writeBackOne cfg
      return ((!c.writeBStall cfg, c), log)
    else
      return ((true, c), log)

/-- The cycle behind the write-back queue, with its record. -/
def retryAndServeFed (cfg : Config) (c : Core) : Outcome (Core × List Feeding) := do
  if c.proc.mshrRetry || c.proc.mctrlRetry then
    if c.proc.insW.full then
      return (c, [])
    let (processed, c₁) ← c.handleLast cfg
    if !processed then
      return (c₁, [])
    let c₂ ← c₁.handleNewRequest
    let c₃ ← c₂.serve cfg 0
    return (c₃, c₁.cursor.obtained c₂.cursor ++ c₂.cursor.obtained c₃.cursor)
  else
    let c' ← c.serve cfg 1
    return (c', c.cursor.obtained c'.cursor)

/-- One cycle of a core with its arithmetic unit, and the record of the cycle. -/
def stepFed (cfg : Config) (c : Core) : Outcome (Core × List Feeding) := do
  let ((goesOn, c), log) ← c.arriveFed cfg
  if goesOn then
    let (c, log') ← c.retryAndServeFed cfg
    return (c, log ++ log')
  else return (c, log)

/-- The object behind a retried one is none to calculate. -/
def sparesNext (cfg : Config) (c : Core) : Bool :=
  match c.handleLast cfg with
  | .ok (true, c₁) =>
    match c₁.handleNewRequest with
    | .ok c₂ => c₂.proc.currIns.all (!·.calculates)
    | .error _ => true
  | _ => true

/-- **A cycle gives an instruction to calculate once** when it is given one at a time and the cycle goes
on to the next object. No such instruction comes behind a retried one. -/
def feedsOnce (cfg : Config) (c : Core) : Bool :=
  match c.arrive cfg with
  | .ok (goesOn, c₁) =>
    (simOver cfg (c.proc.cycle + 1) || c₁.proc.currIns.all (givenOnce cfg goesOn)) &&
    (!(goesOn && c₁.cursor.retrying && !c₁.proc.insW.full) || c₁.sparesNext cfg)
  | .error _ => true

/-! ### The record is added to the cycle -/

theorem start_currIns (h : c.start = .ok c') : ∃ ins, c'.proc.currIns = some ins := by
  unfold start at h
  split_ifs at h with hnone
  · obtain ⟨⟨ins, c₁⟩, -, heq⟩ := Outcome.bind_eq_ok.mp h
    cases heq
    exact ⟨ins, rfl⟩
  · cases h
    rw [Bool.or_eq_true, not_or] at hnone
    exact Option.ne_none_iff_exists'.mp (by simpa using hnone.1)

theorem nextPc_cursor (cfg : Config) (c : Core) : (c.nextPc cfg).cursor = c.cursor := by
  unfold nextPc
  split_ifs <;> rfl

/-- The cycle up to the write-back queue is the one without the record. -/
theorem arriveFed_map (cfg : Config) (c : Core) : (c.arriveFed cfg).map Prod.fst = c.arrive cfg := by
  unfold arriveFed arrive
  dsimp only
  by_cases hipc : cfg.ipc < 0
  · rw [if_pos hipc, if_pos hipc]
    rfl
  rw [if_neg hipc, if_neg hipc]
  cases hstart : c.nextCycle.start with
  | error f => rfl
  | ok first =>
    obtain ⟨ins, hins⟩ := start_currIns hstart
    have htheIns : (first.nextPc cfg).theIns = .ok ins :=
      theIns_eq_ok.mpr ((congrArg Cursor.ins (nextPc_cursor cfg first)).trans hins)
    rw [Outcome.ok_bind, Outcome.ok_bind]
    change Except.map _ (if simOver cfg (first.nextPc cfg).proc.cycle then _ else _) =
      if simOver cfg (first.nextPc cfg).proc.cycle then _ else _
    split_ifs
    · rfl
    · rw [htheIns, Outcome.ok_bind]
      cases (first.nextPc cfg).updateCache cfg with
      | error f => rfl
      | ok c₂ =>
        rw [Outcome.ok_bind, Outcome.ok_bind]
        split_ifs <;> rfl

theorem retryAndServeFed_map (cfg : Config) (c : Core) :
    (c.retryAndServeFed cfg).map Prod.fst = c.retryAndServe cfg := by
  unfold retryAndServeFed retryAndServe
  split_ifs with hretry hfull
  · rfl
  · cases c.handleLast cfg with
    | error f => rfl
    | ok r =>
      obtain ⟨processed, c₁⟩ := r
      cases processed with
      | false => rfl
      | true =>
        simp only [Outcome.ok_bind, Bool.not_true, if_neg Bool.false_ne_true]
        cases c₁.handleNewRequest with
        | error f => rfl
        | ok c₂ =>
          simp only [Outcome.ok_bind]
          cases c₂.serve cfg 0 <;> rfl
  · cases c.serve cfg 1 <;> rfl

/-- **The cycle with its record** is the cycle. -/
theorem stepFed_map (cfg : Config) (c : Core) : (c.stepFed cfg).map Prod.fst = c.step cfg := by
  unfold stepFed step
  rw [← arriveFed_map]
  cases c.arriveFed cfg with
  | error f => rfl
  | ok r =>
    obtain ⟨⟨goesOn, c₁⟩, log⟩ := r
    cases goesOn with
    | false => rfl
    | true =>
      change Except.map _ ((c₁.retryAndServeFed cfg) >>= _) = c₁.retryAndServe cfg
      rw [← retryAndServeFed_map]
      cases c₁.retryAndServeFed cfg <;> rfl

/-! ### Methods that leave the current request -/

theorem scanPage_cursor (addr : UInt64) : Yields (c.scanPage addr) fun x => x.2.cursor = c.cursor := by
  refine yields_iff.mpr fun x hx => ?_
  obtain ⟨⟨res, tlb⟩, -, heq⟩ := Outcome.bind_eq_ok.mp hx
  cases heq
  rfl

theorem searchL1_cursor (b : UInt64) (t : RequestType) :
    Yields (c.searchL1 b t) fun x => x.2.cursor = c.cursor := by
  refine yields_iff.mpr fun x hx => ?_
  obtain ⟨⟨hit, l1⟩, -, heq⟩ := Outcome.bind_eq_ok.mp hx
  cases heq
  rfl

theorem searchShared_cursor (b : UInt64) (t : RequestType) :
    Yields (c.searchShared b t) fun x => x.2.cursor = c.cursor := by
  refine yields_iff.mpr fun x hx => ?_
  obtain ⟨⟨hit, shared⟩, -, heq⟩ := Outcome.bind_eq_ok.mp hx
  cases heq
  rfl

theorem fillL1_cursor (b : UInt64) (t : RequestType) :
    Yields (c.fillL1 b t) fun c' => c'.cursor = c.cursor := by
  refine yields_iff.mpr fun c' hfill => ?_
  obtain ⟨l1, hproc, -⟩ := fillL1_frame hfill
  unfold cursor
  rw [hproc]

theorem addToMctrl_cursor (cfg : Config) (c : Core) (req : ProcRequest) :
    (c.addToMctrl cfg req).2.cursor = c.cursor := by
  rcases addToMctrl_cases cfg c req with h | h
  · rw [h]
  · rw [h]
    rfl

theorem addToMshr_cursor (cfg : Config) (c : Core) (req : ProcRequest) :
    (c.addToMshr cfg req).2.cursor = c.cursor := by
  unfold addToMshr
  split_ifs <;> rfl

theorem updateCache_cursor : Yields (c.updateCache cfg) fun c' => c'.cursor = c.cursor := by
  have hloop : ∀ (queue : List ProcRequest) (c : Core),
      Yields (cacheReqLoop queue c) fun c' => c'.cursor = c.cursor := by
    intro queue
    induction queue with
    | nil =>
      intro c
      exact ensures_ok rfl
    | cons req queue ih =>
      intro c
      unfold cacheReqLoop
      split_ifs
      · apply (fillL1_cursor _ _).bind
        intro c₁ h₁
        exact (ih _).mono fun c₂ h₂ => h₂.trans h₁
      · exact ensures_error not_false
  unfold updateCache
  split_ifs
  · exact hloop _ c
  · exact ensures_ok rfl

theorem updateInsW_cursor (c : Core) : (c.updateInsW cfg).cursor = c.cursor := by
  unfold updateInsW
  split_ifs <;> rfl

theorem writeBackOne_cursor (c : Core) : (c.writeBackOne cfg).cursor = c.cursor := by
  unfold writeBackOne handleWritebackQueue
  cases c.proc.writebackReq with
  | nil => rfl
  | cons req reqs =>
    rcases addToMctrl_cases cfg c req with h | h
    · simp only [h]
      rfl
    · simp only [h]
      rfl

/-! ### The next object -/

theorem getInsFromInsp_gets : Yields c.getInsFromInsp fun x =>
    x.1.ref = c.proc.fetched ∧ x.2.cursor = { c.cursor with fetched := c.proc.fetched + 1 } := by
  unfold getInsFromInsp
  split
  · dsimp only
    split_ifs
    · exact (scanPage_cursor _).bind fun x hx => ensures_ok ⟨rfl, hx⟩
    · exact ensures_ok ⟨rfl, rfl⟩
  · refine yields_iff.mpr fun x hx => ?_
    obtain ⟨ins, -, hx⟩ := Outcome.bind_eq_ok.mp hx
    obtain ⟨⟨block, c₁⟩, hscan, heq⟩ := Outcome.bind_eq_ok.mp hx
    cases heq
    exact ⟨rfl, (scanPage_cursor _).1 _ hscan⟩
  · exact ensures_error not_false

theorem handleNewRequest_gets : Yields c.handleNewRequest fun c' => ∃ i, c.cursor.Gets c'.cursor i := by
  unfold handleNewRequest
  dsimp only
  have hnote : ∀ c₁ : Core, c₁.cursor = c.cursor →
      Yields (c₁.getInsFromInsp >>= fun x => Except.ok
        { x.2 with proc := { x.2.proc with currIns := some x.1, currReq := some (parseIns x.1) } })
      fun c' => ∃ i, c.cursor.Gets c'.cursor i := by
    intro c₁ h₁
    apply getInsFromInsp_gets.bind
    rintro ⟨ins, c₂⟩ ⟨href, hc₂⟩
    refine ensures_ok ⟨ins, ?_⟩
    have hfetched : c₁.proc.fetched = c.proc.fetched := congrArg Cursor.fetched h₁
    rw [h₁] at hc₂
    have hmshr : c₂.proc.mshrRetry = c.proc.mshrRetry := congrArg Cursor.mshrRetry hc₂
    have hmctrl : c₂.proc.mctrlRetry = c.proc.mctrlRetry := congrArg Cursor.mctrlRetry hc₂
    have hnext : c₂.proc.fetched = c₁.proc.fetched + 1 := congrArg Cursor.fetched hc₂
    exact {
      ins := rfl
      req := ⟨_, rfl, rfl⟩
      ref := href.trans hfetched
      fetched := hnext.trans (congrArg (· + 1) hfetched)
      mshrRetry := hmshr
      mctrlRetry := hmctrl }
  apply hnote
  split <;> rfl

/-! ### The issue and the retry of a request for the memory -/

theorem loadIns_stays (ready : Bool) (h : c.cursor.AtMemory) :
    Yields (c.loadIns ready) fun c' => c.cursor.Stays c'.cursor := by
  refine yields_iff.mpr fun c' hload => ?_
  obtain ⟨-, req, -, -, hreq, hif⟩ := h
  obtain ⟨ins, -, heq⟩ := Outcome.bind_eq_ok.mp hload
  cases heq
  exact ⟨⟨_, req, rfl, rfl, hreq, hif⟩, rfl, rfl, rfl⟩

theorem addToCache_stays (req : ProcRequest) (ifShared : Bool) (h : c.cursor.AtMemory) :
    Yields (c.addToCache cfg req ifShared) fun c' => c.cursor.Stays c'.cursor :=
  loadIns_stays (c := { c with proc := { c.proc with cacheReqQueue := _ } }) false h

/-- What is fetched behind a request that stayed. -/
theorem handleNewRequest_moves {k : Cursor} (h : k.Stays c.cursor) :
    Yields c.handleNewRequest fun c' => k.Moves c'.cursor :=
  handleNewRequest_gets.mono fun _ ⟨i, hget⟩ => Or.inr ⟨i, h.gets hget⟩

theorem issueMiss_moves (req : ProcRequest) (h : c.cursor.AtMemory) :
    Yields (c.issueMiss cfg req) fun x => c.cursor.Moves x.2.cursor := by
  unfold issueMiss
  apply (loadIns_stays false h).bind
  intro c₁ h₁
  rcases addToMctrl_cases cfg c₁ req with hadd | hadd
  · rw [hadd]
    exact ensures_ok (Or.inl ⟨h₁.memory, h₁.fetched⟩)
  · rw [hadd]
    dsimp only
    rw [if_neg (by simp)]
    have hsent : c.cursor.Stays ((c₁.withWaiting req).note (.sent req)).cursor := h₁
    exact (handleNewRequest_moves hsent).bind fun c₂ h₂ => ensures_ok h₂

theorem issueMerged_moves (req : ProcRequest) {ins : Instruction} (hins : c.proc.currIns = some ins)
    (h : c.cursor.AtMemory) : Yields (c.issueMerged req ins) fun x => c.cursor.Moves x.2.cursor := by
  refine yields_iff.mpr fun x hx => ?_
  obtain ⟨insW, -, hx⟩ := Outcome.bind_eq_ok.mp hx
  obtain ⟨c₁, hnew, heq⟩ := Outcome.bind_eq_ok.mp hx
  cases heq
  obtain ⟨ins', r, hins', hmem, hreq, hif⟩ := h
  obtain rfl := Option.some.inj (hins.symm.trans hins')
  refine (handleNewRequest_moves (k := c.cursor) ?_).1 _ hnew
  exact ⟨⟨_, r, rfl, hmem, hreq, hif⟩, rfl, rfl, rfl⟩

/-- What follows a search of the shared cache, when there is one. -/
theorem askShared_cursor {α : Type} {f : Bool × Core → Outcome α} {Q : α → Prop} {ask : Bool}
    {b : UInt64} {t : RequestType} (hf : ∀ hit c₁, cursor c₁ = c.cursor → Yields (f (hit, c₁)) Q) :
    Yields (if ask then c.searchShared b t >>= f else pure (false, c) >>= f) Q := by
  cases ask with
  | true => exact (searchShared_cursor b t).bind fun x hx => hf x.1 x.2 hx
  | false => exact hf false c rfl

theorem issueShared_moves (req : ProcRequest) (ins : Instruction) (h : c.cursor.AtMemory) :
    Yields (c.issueShared cfg req ins) fun x => c.cursor.Moves x.2.cursor := by
  unfold issueShared
  have hadd := addToMshr_cursor cfg c req
  cases hmshr : c.addToMshr cfg req with
  | mk ok c₁ =>
    rw [hmshr] at hadd
    change c₁.cursor = c.cursor at hadd
    cases ok with
    | false =>
      have hfetched : c₁.proc.fetched = c.proc.fetched := congrArg Cursor.fetched hadd
      rw [← hadd] at h
      exact ensures_ok (Or.inl ⟨h, hfetched⟩)
    | true =>
      dsimp only
      rw [if_neg (by simp)]
      refine askShared_cursor fun hit c₂ h₂ => ?_
      rw [← hadd] at h ⊢
      rw [← h₂] at h ⊢
      cases hit with
      | true =>
        apply (addToCache_stays (c := c₂.note (.sharedHit ins)) req false h).bind
        intro c₃ h₃
        exact (handleNewRequest_moves h₃).bind fun c₄ h₄ => ensures_ok h₄
      | false => exact issueMiss_moves req h

/-- **The issue of a request for the memory.** -/
theorem issue_moves (h : c.cursor.AtMemory) :
    Yields (c.issue cfg) fun x => c.cursor.Moves x.2.cursor := by
  unfold issue
  by_cases hfull : c.proc.insW.full = true
  · rw [if_pos hfull]
    exact ensures_ok (Or.inl ⟨h, rfl⟩)
  rw [if_neg hfull]
  refine yields_iff.mpr fun x hx => ?_
  obtain ⟨req, -, hx⟩ := Outcome.bind_eq_ok.mp hx
  obtain ⟨ins, hins, hx⟩ := Outcome.bind_eq_ok.mp hx
  split_ifs at hx
  · exact (issueMerged_moves req (theIns_eq_ok.mp hins) h).1 _ hx
  · obtain ⟨⟨hit, c₁⟩, hsearch, hx⟩ := Outcome.bind_eq_ok.mp hx
    have h₁ : c₁.cursor = c.cursor := (searchL1_cursor _ _).1 _ hsearch
    rw [← h₁] at h ⊢
    cases hit with
    | true =>
      obtain ⟨c₂, hload, hx⟩ := Outcome.bind_eq_ok.mp hx
      obtain ⟨c₃, hnew, heq⟩ := Outcome.bind_eq_ok.mp hx
      cases heq
      have hstays := (loadIns_stays (c := c₁.note (.l1Hit ins)) true h).1 _ hload
      exact (handleNewRequest_moves hstays).1 _ hnew
    | false => exact (issueShared_moves req ins h).1 _ hx
  · exact (issueMiss_moves req h).1 _ hx

theorem handleLastReq_stays (req : ProcRequest) (h : c.cursor.AtMemory) :
    Yields (c.handleLastReq cfg req) fun x => c.cursor.Stays x.2.cursor := by
  unfold handleLastReq
  refine askShared_cursor fun hit c₁ h₁ => ?_
  rw [← h₁] at h ⊢
  cases hit with
  | true =>
    refine yields_iff.mpr fun x hx => ?_
    obtain ⟨curr, -, hx⟩ := Outcome.bind_eq_ok.mp hx
    obtain ⟨ins, -, hx⟩ := Outcome.bind_eq_ok.mp hx
    obtain ⟨c₂, hadd, heq⟩ := Outcome.bind_eq_ok.mp hx
    cases heq
    exact (addToCache_stays (c := c₁.note (.sharedHit ins)) curr true h).1 _ hadd
  | false => exact (loadIns_stays false h).bind fun c₂ h₂ => ensures_ok h₂

theorem retryMctrl_retries (req : ProcRequest) (h : c.cursor.AtMemory) (hmshr : c.proc.mshrRetry = false) :
    Yields (c.retryMctrl cfg req) fun x => c.cursor.Retries x.2.cursor x.1 := by
  unfold retryMctrl
  apply (handleLastReq_stays req h).bind
  rintro ⟨miss, c₁⟩ hstays
  have hretry : c₁.proc.mshrRetry = false := hstays.mshrRetry.trans hmshr
  cases miss with
  | true =>
    dsimp only
    rw [if_pos rfl]
    generalize hnote : ({ c₁ with proc := { c₁.proc with mctrlRetry := true } } : Core).note
      (.unsent req) = c₂
    have hadd := addToMshr_cursor cfg c₂ req
    cases hmshr₂ : c₂.addToMshr cfg req with
    | mk ok c₃ =>
      rw [hmshr₂] at hadd
      change c₃.cursor = c₂.cursor at hadd
      have hfetched : c₃.proc.fetched = c.proc.fetched := by
        rw [show c₃.proc.fetched = c₂.proc.fetched from congrArg Cursor.fetched hadd, ← hnote]
        exact hstays.fetched
      have hmemory : c₃.cursor.AtMemory := by
        rw [hadd, ← hnote]
        exact hstays.memory
      have hmshr₃ : c₃.proc.mshrRetry = false := by
        rw [show c₃.proc.mshrRetry = c₂.proc.mshrRetry from congrArg Cursor.mshrRetry hadd, ← hnote]
        exact hretry
      cases ok with
      | false => exact ensures_ok ⟨hmemory, hfetched, fun hfalse => absurd hfalse (by simp)⟩
      | true =>
        refine ensures_ok ⟨hmemory, hfetched, fun _ => ?_⟩
        change (c₃.proc.mshrRetry || false) = false
        rw [hmshr₃]
        rfl
  | false =>
    refine ensures_ok ⟨hstays.memory, hstays.fetched, fun _ => ?_⟩
    change (c₁.proc.mshrRetry || false) = false
    rw [hretry]
    rfl

/-- **The retry of a request for the memory.** -/
theorem handleLast_retries (h : c.cursor.AtMemory) :
    Yields (c.handleLast cfg) fun x => c.cursor.Retries x.2.cursor x.1 := by
  refine yields_iff.mpr fun x hx => ?_
  obtain ⟨req, -, hx⟩ := Outcome.bind_eq_ok.mp hx
  split_ifs at hx with hmem hretry
  · cases hx
    exact ⟨h, rfl, fun hfalse => absurd hfalse (by simp)⟩
  · have hadd := addToMshr_cursor cfg c req
    cases hmshr : c.addToMshr cfg req with
    | mk ok c₁ =>
      rw [hmshr] at hadd hx
      change c₁.cursor = c.cursor at hadd
      rw [← hadd] at h ⊢
      cases ok with
      | false =>
        cases hx
        exact ⟨h, rfl, fun hfalse => absurd hfalse (by simp)⟩
      | true =>
        have hretries := (retryMctrl_retries
          (c := { c₁ with proc := { c₁.proc with mshrRetry := false } }) req h rfl).1 _ hx
        exact ⟨hretries.memory, hretries.fetched, hretries.done⟩
  · exact (retryMctrl_retries req h (by simpa using hretry)).1 _ hx

/-! ### A cycle -/

/-- The first object. -/
theorem start_tracked (h : Tracked c.cursor log) :
    Yields c.start fun c' => Tracked c'.cursor (log ++ c.cursor.obtained c'.cursor) := by
  unfold start
  split_ifs with hnone
  · -- nothing is current yet, or nothing to calculate
    have hcurr : ∀ ins, c.cursor.ins = some ins → ins.calculates = false := by
      intro ins hins
      have hnoReq : c.proc.currReq = none := by
        simpa [show c.proc.currIns = some ins from hins] using hnone
      exact h.steady.fresh hnoReq ins hins
    have hretry : c.cursor.retrying = false := by
      by_contra htrue
      obtain ⟨ins, req, hins, -, hreq, -⟩ := h.steady.retry (by simpa using htrue)
      rw [show c.proc.currIns = some ins from hins, show c.proc.currReq = some req from hreq] at hnone
      exact absurd hnone (by simp)
    apply getInsFromInsp_gets.bind
    rintro ⟨ins, c₁⟩ ⟨href, h₁⟩
    have hmshr : c₁.proc.mshrRetry = c.proc.mshrRetry := congrArg Cursor.mshrRetry h₁
    have hmctrl : c₁.proc.mctrlRetry = c.proc.mctrlRetry := congrArg Cursor.mctrlRetry h₁
    have hfetched : c₁.proc.fetched = c.proc.fetched + 1 := congrArg Cursor.fetched h₁
    have hget : c.cursor.Gets ({ c₁ with proc := { c₁.proc with
        currIns := some ins
        currReq := some ((c₁.proc.currReq.getD {}).parse ins) } } : Core).cursor ins := {
      ins := rfl
      req := ⟨_, rfl, rfl⟩
      ref := href
      fetched := hfetched
      mshrRetry := hmshr
      mctrlRetry := hmctrl }
    exact ensures_ok ((h.unfed.pass hcurr).gets hget hretry)
  · refine ensures_ok ?_
    rw [Cursor.obtained_of_eq rfl, List.append_nil]
    exact h

/-- **The last part of a cycle**, behind the arithmetic unit's part. -/
theorem serve_tracked {n : ℕ} (hn : n ≤ 1) (hsettled : Settled c.cursor.fetched log)
    (hsteady : c.cursor.Steady) (hretry : c.cursor.retrying = false) :
    Yields (c.serve cfg n) fun c' => Tracked c'.cursor (log ++ c.cursor.obtained c'.cursor) := by
  refine yields_iff.mpr fun c' h => ?_
  obtain ⟨req, hreq, h⟩ := Outcome.bind_eq_ok.mp h
  obtain ⟨ins, hins, hif⟩ := hsteady.paired req (theReq_eq_ok.mp hreq)
  split_ifs at h with hmem
  · have hmemory : c.cursor.AtMemory := ⟨ins, req, hins, hif ▸ hmem, theReq_eq_ok.mp hreq, hmem⟩
    obtain rfl | rfl : n = 0 ∨ n = 1 := by omega
    · cases h
      exact hsettled.moves (Or.inl ⟨hmemory, rfl⟩) hretry
    · obtain ⟨⟨goesOn, c₁⟩, hissue, h⟩ := Outcome.bind_eq_ok.mp h
      have hend : c₁ = c' := by
        cases goesOn <;> cases h <;> rfl
      subst hend
      exact hsettled.moves ((issue_moves hmemory).1 _ hissue) hretry
  · exact hsettled.moves (Or.inr (handleNewRequest_gets.1 _ h)) hretry

theorem getInsFromInsp_cycle : Yields c.getInsFromInsp fun x => x.2.proc.cycle = c.proc.cycle := by
  have hscan : ∀ (c : Core) (addr : UInt64),
      Yields (c.scanPage addr) fun x => x.2.proc.cycle = c.proc.cycle := by
    intro c addr
    refine yields_iff.mpr fun x hx => ?_
    obtain ⟨⟨res, tlb⟩, -, heq⟩ := Outcome.bind_eq_ok.mp hx
    cases heq
    rfl
  unfold getInsFromInsp
  split
  · dsimp only
    split_ifs
    · exact (hscan _ _).bind fun x hx => ensures_ok hx
    · exact ensures_ok rfl
  · refine yields_iff.mpr fun x hx => ?_
    obtain ⟨ins, -, hx⟩ := Outcome.bind_eq_ok.mp hx
    obtain ⟨⟨block, c₁⟩, h₁, heq⟩ := Outcome.bind_eq_ok.mp hx
    cases heq
    exact (hscan _ _).1 _ h₁
  · exact ensures_error not_false

theorem start_cycle (h : c.start = .ok c') : (c'.nextPc cfg).proc.cycle = c.proc.cycle := by
  have hcycle : c'.proc.cycle = c.proc.cycle := by
    unfold start at h
    split_ifs at h
    · obtain ⟨⟨ins, c₁⟩, hget, heq⟩ := Outcome.bind_eq_ok.mp h
      cases heq
      exact getInsFromInsp_cycle.1 _ hget
    · cases h
      rfl
  unfold nextPc
  split_ifs <;> exact hcycle

/-- What a cycle records up to the write-back queue. -/
theorem arriveFed_tracked (htracked : Tracked c.cursor log) {goesOn : Bool}
    {new : List Feeding} (h : c.arriveFed cfg = .ok ((goesOn, c'), new)) :
    ∃ log₁, Tracked c'.cursor log₁ ∧
      (simOver cfg (c.proc.cycle + 1) = true ∧ goesOn = false ∧ log ++ new = log₁ ∨
        simOver cfg (c.proc.cycle + 1) = false ∧
          ∃ ins, c'.proc.currIns = some ins ∧ log ++ new = log₁ ++ aluTurn cfg ins) := by
  unfold arriveFed at h
  dsimp only at h
  split_ifs at h with hipc
  obtain ⟨first, hstart, h⟩ := Outcome.bind_eq_ok.mp h
  have hfirst : Tracked first.cursor (log ++ c.cursor.obtained first.cursor) :=
    (start_tracked (c := c.nextCycle) htracked).1 _ hstart
  rw [← nextPc_cursor cfg first] at hfirst
  have hcycle : (first.nextPc cfg).proc.cycle = c.proc.cycle + 1 := start_cycle hstart
  rw [hcycle] at h
  split_ifs at h with hover
  · cases h
    refine ⟨_, hfirst, Or.inl ⟨hover, rfl, ?_⟩⟩
    rw [nextPc_cursor]
    rfl
  · obtain ⟨ins, hins, h⟩ := Outcome.bind_eq_ok.mp h
    obtain ⟨c₂, hcache, h⟩ := Outcome.bind_eq_ok.mp h
    have hc₂ : (c₂.updateInsW cfg).cursor = (first.nextPc cfg).cursor :=
      (updateInsW_cursor c₂).trans (updateCache_cursor.1 _ hcache)
    have hend : c'.cursor = (first.nextPc cfg).cursor ∧
        new = c.cursor.obtained (first.nextPc cfg).cursor ++ aluTurn cfg ins := by
      rw [nextPc_cursor]
      split_ifs at h
      · cases h
        exact ⟨(writeBackOne_cursor _).trans (hc₂.trans (nextPc_cursor cfg first)), rfl⟩
      · cases h
        exact ⟨hc₂.trans (nextPc_cursor cfg first), rfl⟩
    rw [hend.1]
    refine ⟨_, hfirst, Or.inr ⟨by simpa using hover, ins, ?_, ?_⟩⟩
    · exact (congrArg Cursor.ins hend.1).trans (theIns_eq_ok.mp hins)
    · rw [hend.2, List.append_assoc]

/-- **The cycle behind the write-back queue.** -/
theorem retryAndServeFed_tracked (hsettled : Settled c.cursor.fetched log) (hsteady : c.cursor.Steady)
    (hspares : c.cursor.retrying = true → c.proc.insW.full = false → c.sparesNext cfg = true) :
    Yields (c.retryAndServeFed cfg) fun x => Tracked x.1.cursor (log ++ x.2) := by
  refine yields_iff.mpr fun x h => ?_
  unfold retryAndServeFed at h
  change (if c.cursor.retrying = true then _ else _) = _ at h
  split_ifs at h with hretry hfull
  · cases h
    rw [List.append_nil]
    exact hsettled.atMemory (hsteady.retry hretry)
  · obtain ⟨⟨processed, c₁⟩, hlast, h⟩ := Outcome.bind_eq_ok.mp h
    obtain ⟨hmemory, hfetched, hdone⟩ := (handleLast_retries (hsteady.retry hretry)).1 _ hlast
    change c₁.cursor.AtMemory at hmemory
    change c₁.cursor.fetched = _ at hfetched
    rw [← hfetched] at hsettled
    cases processed with
    | false =>
      cases h
      rw [List.append_nil]
      exact hsettled.atMemory hmemory
    | true =>
      obtain ⟨c₂, hnew, h⟩ := Outcome.bind_eq_ok.mp h
      obtain ⟨c₃, hserve, h⟩ := Outcome.bind_eq_ok.mp h
      cases h
      obtain ⟨i, hget⟩ := handleNewRequest_gets.1 _ hnew
      -- the object behind the retried one is none to calculate
      have hnext : ∀ ins, c₂.cursor.ins = some ins → ins.calculates = false := by
        intro ins hins
        have hspare := hspares hretry (by simpa using hfull)
        unfold sparesNext at hspare
        rw [hlast] at hspare
        dsimp only at hspare
        rw [hnew] at hspare
        dsimp only at hspare
        rw [show c₂.proc.currIns = some ins from hins] at hspare
        simpa using hspare
      have htracked := hsettled.gets hget (hdone rfl)
      rw [← List.append_assoc]
      exact (serve_tracked (Nat.zero_le 1) (htracked.unfed.pass hnext) htracked.steady
        (hget.noRetry (hdone rfl))).1 _ hserve
  · obtain ⟨c₁, hserve, h⟩ := Outcome.bind_eq_ok.mp h
    cases h
    exact (serve_tracked (Nat.le_refl 1) hsettled hsteady (by simpa using hretry)).1 _ hserve

/-- **A cycle** that gives the current instruction once keeps the record right. -/
theorem stepFed_tracked (htracked : Tracked c.cursor log) (hfeeds : c.feedsOnce cfg = true) :
    Yields (c.stepFed cfg) fun x => Tracked x.1.cursor (log ++ x.2) := by
  refine yields_iff.mpr fun x h => ?_
  obtain ⟨⟨⟨goesOn, c₁⟩, new⟩, harrive, h⟩ := Outcome.bind_eq_ok.mp h
  have harrived : c.arrive cfg = .ok (goesOn, c₁) := by
    rw [← arriveFed_map, harrive]
    rfl
  unfold feedsOnce at hfeeds
  rw [harrived] at hfeeds
  dsimp only at hfeeds
  obtain ⟨hcurr, hnext⟩ := Bool.and_eq_true_iff.mp hfeeds
  obtain ⟨log₁, htracked₁, hover | ⟨hover, ins, hins, hlog⟩⟩ := arriveFed_tracked htracked harrive
  · obtain ⟨-, rfl, hlog⟩ := hover
    cases h
    exact hlog ▸ htracked₁
  · rw [hover, hins] at hcurr
    obtain ⟨hsettled, hstalled⟩ := htracked₁.unfed.turn hins (by simpa using hcurr)
    rw [← hlog] at hsettled
    cases goesOn with
    | false =>
      cases h
      exact ⟨hsettled.unfed (hstalled rfl), htracked₁.steady⟩
    | true =>
      obtain ⟨⟨c₂, new₂⟩, hserve, h⟩ := Outcome.bind_eq_ok.mp h
      cases h
      have hspares : c₁.cursor.retrying = true → c₁.proc.insW.full = false →
          c₁.sparesNext cfg = true := by
        intro hretry hfull
        simpa [hretry, hfull] using hnext
      rw [← List.append_assoc]
      exact (retryAndServeFed_tracked hsettled htracked₁.steady hspares).1 _ hserve

/-! ### Completions and flushes -/

theorem callback_cursor {fill : RequestType} {callback : CallBackInfo} :
    Yields (c.handleCallback cfg fill callback) fun c' => c'.cursor = c.cursor := by
  unfold handleCallback
  dsimp only
  split_ifs
  · apply (searchShared_cursor (c := c.settle callback.blockAddr) _ _).bind
    rintro ⟨hit, c₁⟩ h₁
    cases hit with
    | true => exact ensures_ok h₁
    | false =>
      refine yields_iff.mpr fun c' h => ?_
      simp only [Bool.not_false, if_true, Outcome.bind_eq_ok] at h
      obtain ⟨⟨v, shared⟩, -, c₂, hfill, ⟨r, l1⟩, -, hqueue⟩ := h
      have h₂ : c₂.cursor = c₁.cursor := by
        rw [(fillL1_cursor _ _).1 _ hfill]
        split_ifs <;> rfl
      have hend : c'.cursor = c₂.cursor := by
        split_ifs at hqueue
        · obtain ⟨-, rfl⟩ := queueWriteback_eq_ok.mp hqueue
          rfl
        · cases hqueue
          rfl
      exact hend.trans (h₂.trans h₁)
  · exact (fillL1_cursor (c := c.settle callback.blockAddr) _ _)
  · exact ensures_ok rfl

theorem flushBlock_cursor (addr : UInt64) :
    Yields (c.flushBlock cfg addr) fun x => x.2.cursor = c.cursor := by
  unfold flushBlock
  by_cases huse : (!cfg.useCache) = true
  · rw [if_pos huse]
    exact ensures_ok rfl
  rw [if_neg huse]
  by_cases hwait : c.world.flushQueue.contains addr = true
  · rw [if_pos hwait]
    exact ensures_ok rfl
  · rw [if_neg hwait]
    -- The caches and the queues are no part of the cursor.
    have hdirty : Yields (c.anyDirty cfg addr) fun x => x.2.cursor = c.cursor := by
      refine yields_iff.mpr fun x hx => ?_
      obtain ⟨⟨dirty, l1⟩, -, hx⟩ := Outcome.bind_eq_ok.mp hx
      dsimp only at hx
      split_ifs at hx
      · cases hx
        rfl
      · obtain ⟨⟨dirty', shared⟩, -, heq⟩ := Outcome.bind_eq_ok.mp hx
        cases heq
        rfl
      · cases hx
        rfl
    apply hdirty.bind
    rintro ⟨dirty, c₁⟩ h₁
    cases dirty with
    | false => exact ensures_ok h₁
    | true =>
      refine yields_iff.mpr fun x hx => ?_
      simp only [if_true, Outcome.bind_eq_ok] at hx
      obtain ⟨⟨actualAddr, c₂⟩, hscan, ⟨r, l1⟩, -, hx⟩ := hx
      have h₂ : c₂.cursor = c₁.cursor := (scanPage_cursor addr).1 _ hscan
      have hqueue : ∀ item, (c₂.queueFlush cfg item).cursor = c₂.cursor := by
        intro item
        unfold queueFlush
        split_ifs
        · rfl
        · exact addToMctrl_cursor cfg c₂ item
      have hend : x.2.cursor = (c₂.queueFlush cfg (c₂.flushItem addr actualAddr)).cursor := by
        split_ifs at hx
        · obtain ⟨⟨r', shared⟩, -, heq⟩ := Outcome.bind_eq_ok.mp hx
          cases heq
          rfl
        · cases hx
          rfl
      exact hend.trans ((hqueue _).trans (h₂.trans h₁))

theorem flush_cursor (addr : UInt64) (actual : Bool) :
    Yields (c.flush cfg addr actual) fun x => x.2.cursor = c.cursor := by
  unfold flush
  split_ifs
  · apply (scanPage_cursor addr).bind
    rintro ⟨res, c₁⟩ h₁
    exact (flushBlock_cursor addr).mono fun x hx => hx.trans h₁
  · exact flushBlock_cursor addr

end Core

/-! ### Events -/

/-- What can happen to a host processor: a cycle, the completion of a read or a write, a flush, and what
the other parts do to the objects that the processors share. -/
inductive HostEvent
  | cycle
  | read (callback : CallBackInfo)
  | write (callback : CallBackInfo)
  | flush (addr : UInt64) (actual : Bool)
  | others (world : World)

namespace Core

variable {cfg : Config}

def handleFed (cfg : Config) (s : Fed Core) : HostEvent → Outcome (Fed Core)
  | .cycle => do
    let (core, new) ← s.core.stepFed cfg
    return { core, log := s.log ++ new }
  | .read callback => do
    let core ← s.core.handleReadCallback cfg callback
    return { s with core }
  | .write callback => do
    let core ← s.core.handleWriteCallback cfg callback
    return { s with core }
  | .flush addr actual => do
    let (_, core) ← s.core.flush cfg addr actual
    return { s with core }
  | .others world => .ok { s with core := { s.core with world } }

/-- What an event needs: a cycle gives an instruction to calculate once. -/
def Feeds (cfg : Config) (s : Fed Core) : HostEvent → Prop
  | .cycle => s.core.feedsOnce cfg = true
  | _ => True

instance (cfg : Config) (s : Fed Core) : ∀ e, Decidable (Feeds cfg s e)
  | .cycle => inferInstanceAs (Decidable (_ = true))
  | .read _ | .write _ | .flush _ _ | .others _ => .isTrue trivial

/-- **An event** keeps the record right. -/
theorem handleFed_tracked {s s' : Fed Core} {e : HostEvent} (h : Tracked s.core.cursor s.log)
    (hfeeds : Feeds cfg s e) (hstep : handleFed cfg s e = .ok s') : Tracked s'.core.cursor s'.log := by
  cases e with
  | cycle =>
    obtain ⟨⟨core, new⟩, hcycle, heq⟩ := Outcome.bind_eq_ok.mp hstep
    cases heq
    exact (stepFed_tracked h hfeeds).1 _ hcycle
  | read callback | write callback =>
    obtain ⟨core, hcall, heq⟩ := Outcome.bind_eq_ok.mp hstep
    cases heq
    have hsame : core.cursor = s.core.cursor := callback_cursor.1 _ hcall
    exact hsame ▸ h
  | flush addr actual =>
    obtain ⟨⟨r, core⟩, hflush, heq⟩ := Outcome.bind_eq_ok.mp hstep
    cases heq
    have hsame : core.cursor = s.core.cursor := (flush_cursor addr actual).1 _ hflush
    exact hsame ▸ h
  | others world =>
    cases hstep
    exact h

end Core

end PIMSim
