import PIMSim.Library.Postcondition
import PIMSim.Procs.Buffers
import PIMSim.Procs.Residency

/-!
# The capacity of a processor

The methods that fill the buffers test their sizes differently, or not at all. What a cycle, a
callback and a flush of a processor need to keep the sizes.

## Main definitions

* `Core.Room`: what a cycle needs
* `Core.MayQueue`, `Core.MayFlush`: what a callback and a flush put into the write-back queue

## Main results

* `Core.issue_fits`, `Core.handleLast_fits`: the issue and the retry of a request
* `Core.step_fits`, `Core.callback_fits`, `Core.flush_fits`: a cycle, a callback and a flush
-/

namespace PIMSim

open CSharp CacheArray

namespace Core

open Buffers

variable {cfg : Config} {c c' : Core} {w r q : ℕ} {req : ProcRequest}

/-- What a processor queues. -/
def buffers (c : Core) : Buffers where
  mshr := c.proc.mshr
  insW := c.proc.insW
  writeback := c.proc.writebackReq
  waiting := c.world.mctrl.waitQueue

/-- The request that a cycle works on, unless it fetches one first. -/
def current (c : Core) : Option ProcRequest := if c.proc.currIns.isSome then c.proc.currReq else none

/-- **A cycle keeps the sizes** when it works on no memory request, or the window has a place once it
is evicted, and a register is free or holds the addresses of the request. -/
def Room (cfg : Config) (c : Core) : Prop :=
  (∃ req ∈ c.current, req.ifMem = false) ∨
    ((c.proc.insW.evicted cfg.ipc).ins.length : Int) < cfg.insWSize ∧
      ((c.proc.mshr.length : Int) < cfg.mshrSize ∨ ∃ req ∈ c.current, c.buffers.Registered req)

instance (cfg : Config) (c : Core) : Decidable (Room cfg c) :=
  inferInstanceAs (Decidable ((∃ req ∈ c.current, req.ifMem = false) ∨ _ ∧ (_ ∨ ∃ req ∈ c.current, _)))

/-- The buffers have room for the request that the cycle works on. -/
def Poised (cfg : Config) (c : Core) : Prop :=
  Fits cfg 0 0 0 c.buffers ∧
    ∀ req ∈ c.proc.currReq, req.ifMem = true → Admits cfg 1 0 req c.buffers

/-- The buffers have room for it once the window is evicted. -/
def Arriving (cfg : Config) (c : Core) : Prop :=
  Fits cfg 0 0 0 c.buffers ∧
    ∀ req ∈ c.proc.currReq, req.ifMem = true → Admits cfg 1 0 req (c.buffers.evict cfg.ipc)

/-! ### Methods that queue nothing -/

theorem theReq_yields : Yields c.theReq fun req => req ∈ c.proc.currReq :=
  yields_iff.mpr fun _ hreq => theReq_eq_ok.mp hreq

theorem theIns_yields : Yields c.theIns fun ins => ins ∈ c.proc.currIns :=
  yields_iff.mpr fun _ hins => theIns_eq_ok.mp hins

theorem scanPage_keeps (addr : UInt64) :
    Yields (c.scanPage addr) fun x => x.2.buffers = c.buffers := by
  refine yields_iff.mpr fun x hx => ?_
  obtain ⟨⟨res, tlb⟩, -, heq⟩ := Outcome.bind_eq_ok.mp hx
  cases heq
  rfl

theorem searchL1_keeps (b : UInt64) (t : RequestType) :
    Yields (c.searchL1 b t) fun x => x.2.buffers = c.buffers := by
  refine yields_iff.mpr fun x hx => ?_
  obtain ⟨⟨hit, l1⟩, -, heq⟩ := Outcome.bind_eq_ok.mp hx
  cases heq
  rfl

theorem searchShared_keeps (b : UInt64) (t : RequestType) :
    Yields (c.searchShared b t) fun x => x.2.buffers = c.buffers := by
  refine yields_iff.mpr fun x hx => ?_
  obtain ⟨⟨hit, shared⟩, -, heq⟩ := Outcome.bind_eq_ok.mp hx
  cases heq
  rfl

/-- What follows a search of the shared cache, when there is one. -/
theorem askShared_bind {α : Type} {f : Bool × Core → Outcome α} {Q : α → Prop} {ask : Bool}
    {b : UInt64} {t : RequestType} (hf : ∀ hit c₁, buffers c₁ = c.buffers → Yields (f (hit, c₁)) Q) :
    Yields (if ask then c.searchShared b t >>= f else pure (false, c) >>= f) Q := by
  cases ask with
  | true => exact (searchShared_keeps b t).bind fun x hx => hf x.1 x.2 hx
  | false => exact hf false c rfl

theorem fillL1_keeps (b : UInt64) (t : RequestType) :
    Yields (c.fillL1 b t) fun c' => c'.buffers = c.buffers ∧ c'.proc.currReq = c.proc.currReq := by
  refine yields_iff.mpr fun c' hfill => ?_
  obtain ⟨l1, hproc, hworld⟩ := fillL1_frame hfill
  unfold buffers
  rw [hproc, hworld]
  exact ⟨rfl, rfl⟩

theorem getInsFromInsp_keeps : Yields c.getInsFromInsp fun x => x.2.buffers = c.buffers := by
  unfold getInsFromInsp
  split
  · dsimp only
    split_ifs
    · exact (scanPage_keeps _).bind fun x hx => ensures_ok hx
    · exact ensures_ok rfl
  · refine yields_iff.mpr fun x hx => ?_
    obtain ⟨ins, -, hx⟩ := Outcome.bind_eq_ok.mp hx
    obtain ⟨⟨block, c₁⟩, hscan, heq⟩ := Outcome.bind_eq_ok.mp hx
    cases heq
    exact (scanPage_keeps _).1 _ hscan
  · exact ensures_error not_false

theorem handleNewRequest_keeps : Yields c.handleNewRequest fun c' => c'.buffers = c.buffers := by
  unfold handleNewRequest
  dsimp only
  refine getInsFromInsp_keeps.bind fun x hx => ensures_ok ?_
  refine Eq.trans hx ?_
  split <;> rfl

/-! ### The issue of a request -/

theorem loadIns_loads (ready : Bool) :
    Yields (c.loadIns ready) fun c' => ∃ ins cycle, c'.buffers = c.buffers.load ins cycle := by
  refine yields_iff.mpr fun c' hload => ?_
  obtain ⟨ins, -, heq⟩ := Outcome.bind_eq_ok.mp hload
  cases heq
  exact ⟨_, _, rfl⟩

theorem addToCache_loads (req : ProcRequest) (ifShared : Bool) :
    Yields (c.addToCache cfg req ifShared) fun c' =>
      ∃ ins cycle, c'.buffers = c.buffers.load ins cycle := loadIns_loads false

theorem addToMctrl_fits {res : Bool} (h : Fits cfg w r q c.buffers)
    (hsend : c.addToMctrl cfg req = (res, c')) : Fits cfg w r q c'.buffers := by
  obtain rfl : (c.addToMctrl cfg req).2 = c' := congrArg Prod.snd hsend
  exact h.shrink rfl rfl (Nat.le_refl _) (Controller.length_addToMctrl req h.waiting)

/-- **A request is registered** once, and the registers keep their size when they admit it. -/
theorem addToMshr_fits {res : Bool} (h : Admits cfg w q req c.buffers)
    (hmshr : c.addToMshr cfg req = (res, c')) :
    Fits cfg w 0 q c'.buffers ∧ (res = true → c'.buffers.Registered req) := by
  unfold addToMshr at hmshr
  split_ifs at hmshr with hreg hfull
  · cases hmshr
    obtain ⟨x, hx, hsame⟩ := List.any_eq_true.mp hreg
    exact ⟨h.fits, fun _ => ⟨x, hx, by simpa [ProcRequest.SameAddrs] using hsame⟩⟩
  · cases hmshr
    exact ⟨h.fits, fun hres => absurd hres (by decide)⟩
  · cases hmshr
    have hnew : ¬ c.buffers.Registered req := by
      rintro ⟨x, hx, hsame⟩
      exact hreg (List.any_eq_true.mpr ⟨x, hx, by simpa [ProcRequest.SameAddrs] using hsame⟩)
    refine ⟨?_, fun _ => ⟨req, by simp [buffers], rfl, rfl⟩⟩
    rcases h with h | ⟨-, hreg'⟩
    · exact h.register hnew
    · exact absurd hreg' hnew

theorem issueMiss_fits (h : Fits cfg (w + 1) 0 q c.buffers) :
    Yields (c.issueMiss cfg req) fun r => Fits cfg w 0 q r.2.buffers := by
  unfold issueMiss
  refine (loadIns_loads false).bind fun c₁ ⟨ins, cycle, hload⟩ => ?_
  have hfits : Fits cfg w 0 q c₁.buffers := hload ▸ h.load ins cycle
  cases hsend : c₁.addToMctrl cfg req with
  | mk ok c₂ =>
    have hsent := addToMctrl_fits hfits hsend
    cases ok with
    | false => exact ensures_ok hsent
    | true => exact handleNewRequest_keeps.bind fun c₃ h₃ => ensures_ok (h₃ ▸ hsent)

theorem issueMerged_fits {ins : Instruction} (h : Fits cfg (w + 1) 0 q c.buffers) :
    Yields (c.issueMerged req ins) fun r => Fits cfg w 0 q r.2.buffers := by
  refine yields_iff.mpr fun r hmerged => ?_
  obtain ⟨insW, hlast, hmerged⟩ := Outcome.bind_eq_ok.mp hmerged
  obtain ⟨c₁, hnext, heq⟩ := Outcome.bind_eq_ok.mp hmerged
  cases heq
  obtain ⟨hlength, hsize⟩ := length_setLast hlast
  rw [handleNewRequest_keeps.1 _ hnext]
  exact h.window_succ (hlength.trans (length_addIns c.proc.insW ins c.proc.cycle)) hsize

theorem issueShared_fits {ins : Instruction} (h : Admits cfg (w + 1) q req c.buffers) :
    Yields (c.issueShared cfg req ins) fun r => Fits cfg w 0 q r.2.buffers := by
  unfold issueShared
  cases hmshr : c.addToMshr cfg req with
  | mk ok c₁ =>
    obtain ⟨hfits, -⟩ := addToMshr_fits h hmshr
    cases ok with
    | false => exact ensures_ok (hfits.mono (Nat.le_succ w) (Nat.le_refl 0) (Nat.le_refl q))
    | true =>
      refine askShared_bind fun hit c₂ hsame => ?_
      rw [← hsame] at hfits
      cases hit with
      | true =>
        refine (addToCache_loads req false).bind fun c₃ ⟨ins', cycle, hload⟩ => ?_
        refine handleNewRequest_keeps.bind fun c₄ hnext => ensures_ok ?_
        rw [hnext, hload]
        exact hfits.load ins' cycle
      | false => exact issueMiss_fits hfits

/-- **The issue of a request** needs a place in the window and a register that admits it. -/
theorem issue_fits (hfits : Fits cfg 0 0 q c.buffers)
    (h : ∀ req ∈ c.proc.currReq, Admits cfg 1 q req c.buffers) :
    Yields (c.issue cfg) fun r => Fits cfg 0 0 q r.2.buffers := by
  unfold issue
  by_cases hfull : c.proc.insW.full = true
  · rw [if_pos hfull]
    exact ensures_ok hfits
  rw [if_neg hfull]
  refine theReq_yields.bind fun req hreq => ?_
  have hadmits := h req hreq
  refine theIns_yields.bind fun ins _ => ?_
  split_ifs
  · exact issueMerged_fits hadmits.fits
  · refine (searchL1_keeps _ _).bind fun ⟨hit, c₁⟩ hsame => ?_
    cases hit with
    | true =>
      refine (loadIns_loads true).bind fun c₂ ⟨ins', cycle, hload⟩ => ?_
      refine handleNewRequest_keeps.bind fun c₃ hnext => ensures_ok ?_
      rw [hnext, hload]
      show Fits cfg 0 0 q (c₁.buffers.load ins' cycle)
      rw [hsame]
      exact hadmits.fits.load ins' cycle
    | false =>
      rw [← hsame] at hadmits
      exact issueShared_fits hadmits
  · exact issueMiss_fits hadmits.fits

/-! ### The retry -/

/-- The retry's second look at the shared cache loads the instruction. -/
theorem handleLastReq_admits (h : Admits cfg (w + 1) q req c.buffers) :
    Yields (c.handleLastReq cfg req) fun r => Admits cfg w q req r.2.buffers := by
  unfold handleLastReq
  refine askShared_bind fun hit c₁ hsame => ?_
  rw [← hsame] at h
  cases hit with
  | true =>
    refine yields_iff.mpr fun r hr => ?_
    obtain ⟨curr, -, hr⟩ := Outcome.bind_eq_ok.mp hr
    obtain ⟨ins, -, hr⟩ := Outcome.bind_eq_ok.mp hr
    obtain ⟨c₂, hadd, heq⟩ := Outcome.bind_eq_ok.mp hr
    cases heq
    obtain ⟨ins', cycle, hload⟩ := (addToCache_loads curr true).1 _ hadd
    rw [hload]
    exact h.load ins' cycle
  | false =>
    refine (loadIns_loads false).bind fun c₂ ⟨ins', cycle, hload⟩ => ensures_ok ?_
    rw [hload]
    exact h.load ins' cycle

theorem retryMctrl_fits (h : Admits cfg (w + 1) q req c.buffers) :
    Yields (c.retryMctrl cfg req) fun r => Fits cfg w 0 q r.2.buffers := by
  unfold retryMctrl
  refine (handleLastReq_admits h).bind fun ⟨miss, c₁⟩ hadmits => ?_
  cases miss with
  | true =>
    dsimp only
    rw [if_pos rfl]
    generalize hnote : ({ c₁ with proc := { c₁.proc with mctrlRetry := true } } : Core).note
      (.unsent req) = c₂
    have hsame : c₂.buffers = c₁.buffers := by
      subst hnote
      rfl
    rw [← hsame] at hadmits
    cases hmshr : c₂.addToMshr cfg req with
    | mk ok c₃ =>
      obtain ⟨hfits, -⟩ := addToMshr_fits hadmits hmshr
      cases ok with
      | false => exact ensures_ok hfits
      | true => exact ensures_ok hfits
  | false => exact ensures_ok hadmits.fits

/-- **The retry** needs the same as the issue. -/
theorem handleLast_fits (h : Poised cfg c) :
    Yields (c.handleLast cfg) fun r => Fits cfg 0 0 0 r.2.buffers := by
  unfold handleLast
  refine theReq_yields.bind fun req hreq => ?_
  by_cases hmem : req.ifMem = true
  · have hadmits := h.2 req hreq hmem
    simp only [hmem, Bool.not_true, Bool.false_eq_true, if_false]
    by_cases hretry : c.proc.mshrRetry = true
    · rw [if_pos hretry]
      cases hmshr : c.addToMshr cfg req with
      | mk ok c₁ =>
        obtain ⟨hfits, hreg⟩ := addToMshr_fits hadmits hmshr
        cases ok with
        | false => exact ensures_ok (hfits.mono (Nat.zero_le 1) (Nat.le_refl 0) (Nat.le_refl 0))
        | true =>
          have hagain : Admits cfg 1 0 req c₁.buffers := .inr ⟨hfits, hreg rfl⟩
          exact retryMctrl_fits hagain
    · rw [if_neg hretry]
      exact retryMctrl_fits hadmits
  · rw [Bool.not_eq_true] at hmem
    simp only [hmem, Bool.not_false, if_true]
    exact ensures_ok h.1

/-! ### A cycle -/

/-- A cycle begins with its first instruction, and fetches one when there is none. -/
theorem start_yields : Yields c.start fun c' => c'.buffers = c.buffers ∧
    ∀ req ∈ c.current, c'.proc.currReq = some req := by
  unfold start
  split_ifs with hnone
  · refine yields_iff.mpr fun c' hstart => ?_
    obtain ⟨⟨ins, c₁⟩, hget, heq⟩ := Outcome.bind_eq_ok.mp hstart
    cases heq
    refine ⟨getInsFromInsp_keeps.1 _ hget, fun req hreq => ?_⟩
    unfold current at hreq
    split_ifs at hreq with hins
    · obtain hreq : c.proc.currReq = some req := hreq
      rw [Bool.or_eq_true, Option.isNone_iff_eq_none, Option.isNone_iff_eq_none] at hnone
      rcases hnone with hnone | hnone
      · rw [hnone] at hins
        cases hins
      · rw [hnone] at hreq
        cases hreq
    · cases hreq
  · refine ensures_ok ⟨rfl, fun req hreq => ?_⟩
    unfold current at hreq
    split_ifs at hreq
    · exact hreq
    · cases hreq

theorem Room.arriving (h : Room cfg c) (hfits : Fits cfg 0 0 0 c.buffers)
    (hbuffers : c'.buffers = c.buffers) (hreq : ∀ req ∈ c.current, c'.proc.currReq = some req) :
    Arriving cfg c' := by
  refine ⟨hbuffers ▸ hfits, fun req hcurr hmem => ?_⟩
  have hevicted := hfits.evict cfg.ipc
  rw [hbuffers]
  rcases h with ⟨other, hother, hidle⟩ | ⟨hwindow, hregisters⟩
  · obtain rfl := Option.some.inj ((hreq other hother).symm.trans hcurr)
    rw [hidle] at hmem
    cases hmem
  · have hplace : Fits cfg 1 0 0 (c.buffers.evict cfg.ipc) := by
      refine { hevicted with window := ?_ }
      show ((c.proc.insW.evicted cfg.ipc).ins.length + (1 : ℕ) : Int) ≤ cfg.insWSize
      omega
    rcases hregisters with hfree | ⟨other, hother, hreg⟩
    · refine .inl { hplace with registers := ?_ }
      show (c.proc.mshr.length + (1 : ℕ) : Int) ≤ cfg.mshrSize
      omega
    · obtain rfl := Option.some.inj ((hreq other hother).symm.trans hcurr)
      exact .inr ⟨hplace, hreg⟩

/-- The service of the requests that wait for the cache settles them. -/
theorem handleCacheReq_arriving (h : Arriving cfg c) :
    Yields c.handleCacheReq fun c' => Arriving cfg c' := by
  have hloop : ∀ (queue : List ProcRequest) (c : Core), Arriving cfg c →
      Yields (cacheReqLoop queue c) fun c' => Arriving cfg c' := by
    intro queue
    induction queue with
    | nil => exact fun c h => ensures_ok h
    | cons req queue ih =>
      intro c h
      rw [cacheReqLoop]
      split_ifs
      · refine (fillL1_keeps req.blockAddr req.type).bind fun c₁ ⟨hbuffers, hcurr⟩ => ih _ ?_
        refine ⟨?_, fun req' hreq hmem => ?_⟩
        · have hfits := h.1.settle req.blockAddr
          rw [← hbuffers] at hfits
          exact hfits
        · have hadmits := (h.2 req' (hcurr ▸ hreq) hmem).settle req.blockAddr
          rw [← hbuffers] at hadmits
          exact hadmits
      · exact ensures_error not_false
  exact hloop _ c h

/-- The window is evicted. -/
theorem updateInsW_poised (h : Arriving cfg c) : Poised cfg (c.updateInsW cfg) := by
  have hbuffers : (c.updateInsW cfg).buffers = c.buffers.evict cfg.ipc := by
    unfold updateInsW
    split_ifs with hempty
    · have hsame : c.proc.insW.evicted cfg.ipc = c.proc.insW := evicted_of_empty hempty cfg.ipc
      simp only [Buffers.evict, buffers, hsame]
    · rfl
  have hcurr : (c.updateInsW cfg).proc.currReq = c.proc.currReq := by
    unfold updateInsW
    split_ifs <;> rfl
  unfold Poised
  rw [hbuffers, hcurr]
  exact ⟨h.1.evict cfg.ipc, h.2⟩

/-- A write-back request that is sent leaves its queue. -/
theorem writeBackOne_poised (h : Poised cfg c) : Poised cfg (c.writeBackOne cfg) := by
  unfold writeBackOne handleWritebackQueue
  split
  next res c₁ heq =>
  split at heq
  · cases heq
    exact h
  next req reqs hreqs =>
  cases hsend : c.addToMctrl cfg req with
  | mk ok c₂ =>
    rw [hsend] at heq
    obtain rfl : (c.addToMctrl cfg req).2 = c₂ := congrArg Prod.snd hsend
    cases heq
    have hroom : ((c.world.mctrl.addToMctrl cfg req).2.waitQueue.length : Int) ≤ cfg.crtlQueueMax :=
      Controller.length_addToMctrl req h.1.waiting
    cases res with
    | false =>
      refine ⟨h.1.shrink rfl rfl (Nat.le_refl _) hroom, fun req' hreq hmem => ?_⟩
      exact (h.2 req' hreq hmem).shrink rfl rfl (Nat.le_refl _) hroom
    | true =>
      have htail : c.proc.writebackReq.tail.length ≤ c.proc.writebackReq.length := by simp
      refine ⟨h.1.shrink rfl rfl htail hroom, fun req' hreq hmem => ?_⟩
      exact (h.2 req' hreq hmem).shrink rfl rfl htail hroom

/-- **The cycle up to the write-back queue.** -/
theorem arrive_poised (h : Room cfg c) (hfits : Fits cfg 0 0 0 c.buffers) :
    Yields (c.arrive cfg) fun r => Fits cfg 0 0 0 r.2.buffers ∧ (r.1 = true → Poised cfg r.2) := by
  unfold arrive
  by_cases hipc : cfg.ipc < 0
  · simp only [if_pos hipc]
    exact ensures_error not_false
  simp only [if_neg hipc]
  refine start_yields.bind fun c₁ ⟨hbuffers, hcurr⟩ => ?_
  have harriving : Arriving cfg (c₁.nextPc cfg) := by
    have hpc : (c₁.nextPc cfg).buffers = c₁.buffers ∧
        (c₁.nextPc cfg).proc.currReq = c₁.proc.currReq := by
      unfold nextPc
      split_ifs <;> exact ⟨rfl, rfl⟩
    have hfirst : Arriving cfg c₁ := Room.arriving (c := c.nextCycle) h hfits hbuffers hcurr
    exact ⟨hpc.1 ▸ hfirst.1, by rw [hpc.1, hpc.2]; exact hfirst.2⟩
  split
  · exact ensures_ok ⟨harriving.1, fun hno => absurd hno Bool.false_ne_true⟩
  have hcache : Yields ((c₁.nextPc cfg).updateCache cfg) fun c' => Arriving cfg c' := by
    unfold updateCache
    split_ifs
    · exact handleCacheReq_arriving harriving
    · exact ensures_ok harriving
  refine hcache.bind fun c₂ h₂ => ?_
  have hpoised := updateInsW_poised h₂
  split_ifs
  · have hsent := writeBackOne_poised hpoised
    exact ensures_ok ⟨hsent.1, fun _ => hsent⟩
  · exact ensures_ok ⟨hpoised.1, fun _ => hpoised⟩

/-- The current request is issued, or passed over. -/
theorem serve_fits (h : Poised cfg c) : Yields (c.serve cfg 1) fun c' => Fits cfg 0 0 0 c'.buffers := by
  unfold serve
  refine theReq_yields.bind fun req hreq => ?_
  split_ifs with hmem
  · have hadmits : ∀ req ∈ c.proc.currReq, Admits cfg 1 0 req c.buffers := by
      intro req' hreq'
      obtain rfl := Option.some.inj (hreq.symm.trans hreq')
      exact h.2 req hreq hmem
    refine (issue_fits h.1 hadmits).bind fun ⟨goesOn, c₁⟩ hfits => ?_
    cases goesOn with
    | true => exact ensures_ok hfits
    | false => exact ensures_ok hfits
  · exact handleNewRequest_keeps.mono fun c₁ hsame => hsame ▸ h.1

/-- The cycle behind the write-back queue. -/
theorem retryAndServe_fits (h : Poised cfg c) :
    Yields (c.retryAndServe cfg) fun c' => Fits cfg 0 0 0 c'.buffers := by
  unfold retryAndServe
  split
  · by_cases hfull : c.proc.insW.full = true
    · rw [if_pos hfull]
      exact ensures_ok h.1
    rw [if_neg hfull]
    refine (handleLast_fits h).bind fun ⟨processed, c₁⟩ hfits => ?_
    cases processed with
    | false => exact ensures_ok hfits
    | true =>
      -- The retry has used the restriction: the next request is not issued.
      refine handleNewRequest_keeps.bind fun c₂ hsame => ?_
      have hnext : Fits cfg 0 0 0 c₂.buffers := hsame ▸ hfits
      refine theReq_yields.bind fun req _ => ?_
      split_ifs
      · exact ensures_ok hnext
      · exact handleNewRequest_keeps.mono fun c₃ hsame₃ => hsame₃ ▸ hnext
  · exact serve_fits h

/-- **A cycle** keeps the sizes when there is room for its request. -/
theorem step_fits (h : Room cfg c) (hfits : Fits cfg 0 0 0 c.buffers) :
    Yields (c.step cfg) fun c' => Fits cfg 0 0 0 c'.buffers := by
  unfold step
  refine (arrive_poised h hfits).bind fun ⟨goesOn, c₁⟩ ⟨hfits₁, hpoised⟩ => ?_
  cases goesOn with
  | true => exact retryAndServe_fits (hpoised rfl)
  | false => exact ensures_ok hfits₁

/-! ### A callback -/

/-- A callback may queue a write-back request: it misses the shared cache, and the line that leaves is
dirty and its block not queued yet. -/
def MayQueue (cfg : Config) (c : Core) (b : UInt64) : Prop :=
  cfg.useCache = true ∧ cfg.sharedCache = true ∧ c.hitsShared cfg b = false ∧
    ∃ e ∈ SharedCache.leaving c.world.sharedCache b, e.dirty = true ∧ e.blockAddr ≠ NULL ∧
      ∀ req ∈ c.proc.writebackReq, req.blockAddr ≠ e.blockAddr

instance (cfg : Config) (c : Core) (b : UInt64) : Decidable (MayQueue cfg c b) :=
  inferInstanceAs (Decidable (_ ∧ _ ∧ _ ∧ ∃ e ∈ SharedCache.leaving c.world.sharedCache b, _))

/-- A fill of the shared cache answers the block of the dirty line that leaves. -/
theorem add_answer {s s' : SharedCache} {b v : UInt64} {t : RequestType} {pid : Int}
    (h : SharedCache.add s b t pid = .ok (v, s')) (hv : v ≠ NULL) :
    ∃ e ∈ SharedCache.leaving s b, e.dirty = true ∧ e.blockAddr = v := by
  obtain ⟨i, hi, h⟩ := Outcome.bind_eq_ok.mp h
  obtain rfl : i = b.toNat % s.maxSet := index_eq_ok hi
  unfold SharedCache.leaving
  dsimp only at h ⊢
  split at h
  · split at h
    · cases h
    · next e rest hways =>
      cases h
      rw [hways]
      by_cases hd : e.dirty = true
      · rw [if_pos hd]
        exact ⟨e, rfl, hd, rfl⟩
      · rw [if_neg hd] at hv
        exact absurd rfl hv
  · cases h
    exact absurd rfl hv

theorem queueWriteback_fits {v : UInt64} (hfits : Fits cfg 0 0 0 c.buffers)
    (hfree : (∀ req ∈ c.proc.writebackReq, req.blockAddr ≠ v) → Fits cfg 0 0 1 c.buffers) :
    Yields (c.queueWriteback cfg v) fun c' => Fits cfg 0 0 0 c'.buffers := by
  unfold queueWriteback
  split_ifs with hwriteback hqueued
  · exact ensures_error not_false
  · exact ensures_ok hfits
  · have hone := hfree fun req hreq heq =>
      hqueued (List.any_eq_true.mpr ⟨req, hreq, decide_eq_true heq⟩)
    refine ensures_ok { hfits with writeback := ?_ }
    have hlength := hone.writeback
    show ((c.proc.writebackReq ++ [writebackItem c.proc.pid v]).length + (0 : ℕ) : Int) ≤ _
    rw [List.length_append, List.length_singleton]
    have hsame : c.buffers.writeback.length = c.proc.writebackReq.length := rfl
    omega

/-- **A callback** keeps the sizes when the write-back queue has a place for what it queues. -/
theorem callback_fits {fill : RequestType} {callback : CallBackInfo}
    (hfits : Fits cfg 0 0 0 c.buffers)
    (hfree : MayQueue cfg c callback.blockAddr → Fits cfg 0 0 1 c.buffers) :
    Yields (c.handleCallback cfg fill callback) fun c' => Fits cfg 0 0 0 c'.buffers := by
  have hsettled := hfits.settle callback.blockAddr
  unfold handleCallback
  dsimp only
  by_cases huse : cfg.useCache = true
  · rw [if_pos huse]
    by_cases hshared : cfg.sharedCache = true
    · rw [if_pos hshared]
      refine yields_iff.mpr fun c' hcall => ?_
      -- Only a miss in the shared cache can queue a write-back.
      obtain ⟨⟨hit, c₁⟩, hsearch, hcall⟩ := Outcome.bind_eq_ok.mp hcall
      have hsame := (searchShared_keeps _ _).1 _ hsearch
      cases hit with
      | true =>
        cases hcall
        exact hsame ▸ hsettled
      | false =>
        obtain ⟨shared₁, hlook, rfl⟩ := searchShared_eq_ok hsearch
        obtain ⟨hmax, -, -, -, -, hlines⟩ := search_spec hlook fun e he => by simp_all
        obtain ⟨hlines, -⟩ := hlines rfl
        obtain ⟨⟨v, shared⟩, hadd, hcall⟩ := Outcome.bind_eq_ok.mp hcall
        obtain ⟨c₂, hfill, hcall⟩ := Outcome.bind_eq_ok.mp hcall
        obtain ⟨⟨r, l1⟩, -, hcall⟩ := Outcome.bind_eq_ok.mp hcall
        have hbuffers : (c₂.withL1 l1).buffers = (c.settle callback.blockAddr).buffers := by
          refine Eq.trans ((fillL1_keeps _ _).1 _ hfill).1 ?_
          dsimp only
          split_ifs <;> rfl
        dsimp only at hcall
        split_ifs at hcall with hv
        · refine (queueWriteback_fits (hbuffers ▸ hsettled) fun hnew => ?_).1 _ hcall
          rw [hbuffers]
          obtain ⟨e, he, hdirty, heq⟩ := add_answer hadd hv
          -- The room is promised for the state before the callback, so that the line that leaves is
          -- found there.
          have hmay : MayQueue cfg c callback.blockAddr := by
            have hmiss : c.hitsShared cfg callback.blockAddr = false :=
              hitsShared_of_miss (c := c.settle callback.blockAddr) hsearch
            refine ⟨huse, hshared, hmiss, e, ?_, hdirty, heq ▸ hv, fun req hreq => ?_⟩
            · exact leaving_congr hlines hmax callback.blockAddr ▸ he
            · rw [heq]
              have hwriteback : (c₂.withL1 l1).proc.writebackReq = c.proc.writebackReq :=
                congrArg Buffers.writeback hbuffers
              exact hnew req (hwriteback ▸ hreq)
          exact (hfree hmay).settle callback.blockAddr
        · cases hcall
          exact hbuffers ▸ hsettled
    · rw [if_neg hshared]
      exact (fillL1_keeps _ _).mono fun c' h => h.1 ▸ hsettled
  · rw [if_neg huse]
    exact ensures_ok hsettled

/-! ### A flush -/

/-- A flush may queue a request: the block is dirty in a cache, and there is a write-back queue. -/
def MayFlush (cfg : Config) (c : Core) (b : UInt64) : Prop :=
  cfg.useCache = true ∧ cfg.writeback = true ∧
    (Dirty c.proc.l1Cache b ∨ cfg.sharedCache = true ∧ Dirty c.world.sharedCache b)

instance (s : CacheArray) (b : UInt64) : Decidable (Dirty s b) :=
  inferInstanceAs (Decidable (∃ e ∈ s.lines (b.toNat % s.maxSet), e.blockAddr = b ∧ e.dirty = true))

instance (cfg : Config) (c : Core) (b : UInt64) : Decidable (MayFlush cfg c b) :=
  inferInstanceAs (Decidable (_ ∧ _ ∧ (_ ∨ _ ∧ _)))

/-- How many of the blocks a processor may flush. -/
def flushCount (cfg : Config) (c : Core) (blocks : List UInt64) : ℕ :=
  blocks.countP fun b => decide (MayFlush cfg c b)

theorem flushCount_cons {b : UInt64} (h : MayFlush cfg c b) (blocks : List UInt64) :
    flushCount cfg c (b :: blocks) = flushCount cfg c blocks + 1 := by
  simp [flushCount, h]

/-- No block becomes dirty. -/
structure Sheds (c c' : Core) : Prop where
  l1 : ∀ x, Dirty c'.proc.l1Cache x → Dirty c.proc.l1Cache x
  shared : ∀ x, Dirty c'.world.sharedCache x → Dirty c.world.sharedCache x

theorem Sheds.refl : Sheds c c := ⟨fun _ => id, fun _ => id⟩

theorem Sheds.mayFlush (h : Sheds c c') {b : UInt64} (hmay : MayFlush cfg c' b) : MayFlush cfg c b := by
  obtain ⟨huse, hwriteback, hdirty⟩ := hmay
  exact ⟨huse, hwriteback, hdirty.imp (h.l1 b) fun ⟨hshared, hd⟩ => ⟨hshared, h.shared b hd⟩⟩

/-- A processor may flush no more blocks than before. -/
theorem Sheds.flushCount_le (h : Sheds c c') (blocks : List UInt64) :
    flushCount cfg c' blocks ≤ flushCount cfg c blocks :=
  List.countP_mono_left fun _ _ hmay => by simpa using h.mayFlush (of_decide_eq_true hmay)

theorem Sheds.trans {c'' : Core} (h : Sheds c c') (h' : Sheds c' c'') : Sheds c c'' where
  l1 := fun x hx => h.l1 x (h'.l1 x hx)
  shared := fun x hx => h.shared x (h'.shared x hx)

theorem dirty_congr {s s' : CacheArray} (hlines : s'.lines = s.lines) (hmax : s'.maxSet = s.maxSet)
    {x : UInt64} (h : Dirty s' x) : Dirty s x := by
  unfold Dirty at h ⊢
  rwa [hlines, hmax] at h

theorem dirty_of_remove {s s' : CacheArray} {b x : UInt64} {res : Bool}
    (h : s.remove b = .ok (res, s')) (hx : Dirty s' x) : Dirty s x := by
  obtain ⟨i, hi, h⟩ := Outcome.bind_eq_ok.mp h
  obtain rfl : i = b.toNat % s.maxSet := index_eq_ok hi
  dsimp only at h
  split_ifs at h
  · cases h
    obtain ⟨e, he, hblock, hdirty⟩ := hx
    rw [setWays_maxSet, setWays_lines] at he
    split_ifs at he with hset
    · rcases FirstMatch.mem_update he with he | ⟨f, -, -, rfl⟩
      · exact ⟨e, hset ▸ he, hblock, hdirty⟩
      · cases hdirty
    · exact ⟨e, he, hblock, hdirty⟩
  · cases h
    exact hx

theorem anyDirty_yields (b : UInt64) : Yields (c.anyDirty cfg b) fun r =>
    r.2.buffers = c.buffers ∧ Sheds c r.2 ∧ (r.1 = true →
      Dirty c.proc.l1Cache b ∨ cfg.sharedCache = true ∧ Dirty c.world.sharedCache b) := by
  refine yields_iff.mpr fun r hany => ?_
  obtain ⟨⟨dirty, l1⟩, hl1, hany⟩ := Outcome.bind_eq_ok.mp hany
  obtain ⟨hmax, hlines, hdirty, -⟩ := ifdirty_spec hl1
  have hfirst : Sheds c (c.withL1 l1) := ⟨fun x => dirty_congr hlines hmax, fun _ => id⟩
  dsimp only at hany
  split_ifs at hany with hd hshared
  · cases hany
    exact ⟨rfl, hfirst, fun _ => .inl (hdirty hd)⟩
  · obtain ⟨⟨dirty', shared⟩, hshared', heq⟩ := Outcome.bind_eq_ok.mp hany
    obtain ⟨hmax', hlines', hdirty', -⟩ := ifdirty_spec hshared'
    cases heq
    exact ⟨rfl, hfirst.trans ⟨fun _ => id, fun x => dirty_congr hlines' hmax'⟩,
      fun hres => .inr ⟨hshared, hdirty' hres⟩⟩
  · cases hany
    exact ⟨rfl, hfirst, fun hno => absurd hno Bool.false_ne_true⟩

theorem queueFlush_fits {item : ProcRequest} (hfits : Fits cfg 0 0 q c.buffers)
    (hfree : cfg.writeback = true → Fits cfg 0 0 (q + 1) c.buffers) :
    Fits cfg 0 0 q (c.queueFlush cfg item).buffers := by
  unfold queueFlush
  split_ifs with hwriteback
  · refine { hfits with writeback := ?_ }
    have hlength := (hfree hwriteback).writeback
    show ((c.proc.writebackReq ++ [item]).length + q : Int) ≤ _
    rw [List.length_append, List.length_singleton]
    have hsame : c.buffers.writeback.length = c.proc.writebackReq.length := rfl
    omega
  · cases hsend : c.addToMctrl cfg item with
    | mk ok c₁ =>
      show Fits cfg 0 0 q c₁.buffers
      exact addToMctrl_fits hfits hsend

/-- Caches that do not change. -/
theorem Sheds.of_eq (hl1 : c'.proc.l1Cache = c.proc.l1Cache)
    (hshared : c'.world.sharedCache = c.world.sharedCache) : Sheds c c' :=
  ⟨fun _ hx => hl1 ▸ hx, fun _ hx => hshared ▸ hx⟩

theorem scanPage_sheds (cfg : Config) {addr res : UInt64} (h : c.scanPage addr = .ok (res, c')) :
    c'.buffers = c.buffers ∧ Sheds c c' ∧ (∀ b, MayFlush cfg c' b → MayFlush cfg c b) := by
  obtain ⟨⟨r, tlb⟩, -, heq⟩ := Outcome.bind_eq_ok.mp h
  cases heq
  exact ⟨rfl, .of_eq rfl rfl, fun _ => id⟩

theorem queueFlush_sheds (cfg : Config) (c : Core) (item : ProcRequest) : Sheds c (c.queueFlush cfg item) := by
  unfold queueFlush
  split_ifs
  · exact .of_eq rfl rfl
  · exact .of_eq rfl rfl

theorem flushBlock_fits {b : UInt64} (hfits : Fits cfg 0 0 q c.buffers)
    (hfree : MayFlush cfg c b → Fits cfg 0 0 (q + 1) c.buffers) :
    Yields (c.flushBlock cfg b) fun r => Fits cfg 0 0 q r.2.buffers ∧ Sheds c r.2 := by
  unfold flushBlock
  by_cases huse : cfg.useCache = true
  · simp only [huse, Bool.not_true, Bool.false_eq_true, if_false]
    by_cases hqueued : c.world.flushQueue.contains b = true
    · rw [if_pos hqueued]
      exact ensures_ok ⟨hfits, .refl⟩
    rw [if_neg hqueued]
    refine (anyDirty_yields b).bind fun ⟨dirty, c₁⟩ ⟨hbuffers, hsheds, hdirty⟩ => ?_
    cases dirty with
    | false => exact ensures_ok ⟨hbuffers ▸ hfits, hsheds⟩
    | true =>
      refine yields_iff.mpr fun r hflush => ?_
      obtain ⟨⟨actualAddr, c₂⟩, hscan, hflush⟩ := Outcome.bind_eq_ok.mp hflush
      obtain ⟨hbuffers₂, hsheds₂, -⟩ := scanPage_sheds cfg hscan
      have hall : c₂.buffers = c.buffers := hbuffers₂.trans hbuffers
      have hfits₃ : Fits cfg 0 0 q (c₂.queueFlush cfg (c₂.flushItem b actualAddr)).buffers := by
        refine queueFlush_fits (hall ▸ hfits) fun hwriteback => ?_
        rw [hall]
        exact hfree ⟨huse, hwriteback, hdirty rfl⟩
      have hsheds₃ := hsheds.trans (hsheds₂.trans (queueFlush_sheds cfg c₂
        (c₂.flushItem b actualAddr)))
      obtain ⟨⟨res, l1⟩, hremove, hflush⟩ := Outcome.bind_eq_ok.mp hflush
      generalize c₂.queueFlush cfg (c₂.flushItem b actualAddr) = c₃ at *
      have hsheds₄ : Sheds c (c₃.withL1 l1) :=
        hsheds₃.trans ⟨fun _ => dirty_of_remove hremove, fun _ => id⟩
      dsimp only at hflush
      split_ifs at hflush
      · obtain ⟨⟨res', shared⟩, hremove', heq⟩ := Outcome.bind_eq_ok.mp hflush
        cases heq
        exact ⟨hfits₃, hsheds₄.trans ⟨fun _ => id, fun _ => dirty_of_remove hremove'⟩⟩
      · cases hflush
        exact ⟨hfits₃, hsheds₄⟩
  · rw [Bool.not_eq_true] at huse
    simp only [huse, Bool.not_false, if_true]
    exact ensures_ok ⟨hfits, .refl⟩

/-- **A flush** keeps the sizes when the write-back queue has a place for its request. -/
theorem flush_fits {b : UInt64} {actual : Bool} (hfits : Fits cfg 0 0 q c.buffers)
    (hfree : MayFlush cfg c b → Fits cfg 0 0 (q + 1) c.buffers) :
    Yields (c.flush cfg b actual) fun r => Fits cfg 0 0 q r.2.buffers ∧ Sheds c r.2 := by
  unfold flush
  split_ifs
  · refine yields_iff.mpr fun r hflush => ?_
    obtain ⟨⟨res, c₁⟩, hscan, hflush⟩ := Outcome.bind_eq_ok.mp hflush
    obtain ⟨hbuffers, hsheds, hmay⟩ := scanPage_sheds cfg hscan
    have hblock := flushBlock_fits (c := c₁) (b := b) (hbuffers ▸ hfits)
      fun h => hbuffers ▸ hfree (hmay b h)
    obtain ⟨hfits', hsheds'⟩ := hblock.1 r hflush
    exact ⟨hfits', hsheds.trans hsheds'⟩
  · exact flushBlock_fits hfits hfree

end Core

end PIMSim
