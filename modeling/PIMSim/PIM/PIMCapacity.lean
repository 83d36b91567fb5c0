import PIMSim.PIM.Capacity
import PIMSim.PIM.PIMCore

/-!
# The capacity of a processor at the memory side

A memory-side processor registers a request without a look at the registered ones, and its retry
registers the request again. What its cycles need to keep the sizes of its buffers.

## Main definitions

* `PIMCore.Room`: what a cycle needs
* `PIMEvent`, `PIMCore.handle`: what can happen to a processor and its controller
* `PIMCore.Bounded`: every buffer keeps its size

## Main results

* `PIMCore.handleLast_bounded`, `PIMCore.issue_bounded`: the retry and the issue of a request
* `PIMCore.handle_bounded`: an event
* `capacities_kept`: the buffers in every run of either side
-/

namespace PIMSim

open CSharp Transition

variable {Obj : Type} {cfg : Config}

namespace PIMCore

open Buffers

variable {c c' : PIMCore} {w : ℕ} {req : ProcRequest}

/-- What a memory-side processor queues. -/
def buffers (c : PIMCore) : Buffers where
  mshr := c.mshr
  insW := c.insW
  writeback := c.writebackReq.getD []
  waiting := c.mctrl.waitQueue

/-- The request that a cycle works on, unless it fetches one first. -/
def current (c : PIMCore) : Option ProcRequest := if c.currIns.isSome then c.currReq else none

/-- A cycle retries the current request. -/
def retrying (c : PIMCore) : Bool := c.mshrRetry || c.mctrlRetry

/-- The places of the window that a cycle takes. A retry for the controller loads the instruction, and
the next one may follow in the same cycle. -/
def places (c : PIMCore) : ℕ := if c.mctrlRetry && !c.mshrRetry then 2 else 1

/-- **No addresses are registered twice**: the registers are full and refuse the request, or it is new.
A retry that registers the request is followed by a second registration, unless it has taken the last
register. -/
def Single (cfg : Config) (c : PIMCore) (new : Prop) : Prop :=
  cfg.pimUseL1Cache = true ∨ c.retrying = true → cfg.mshrSize ≤ c.mshr.length ∨
    new ∧ (c.retrying = true → cfg.mshrSize ≤ c.mshr.length + 1 ∨
      c.mshrRetry = false ∧ cfg.pimUseL1Cache = false)

/-- **A cycle keeps the sizes** when it works on no memory request, or the window has the places once it
is evicted, and no addresses are registered twice. -/
def Room (cfg : Config) (c : PIMCore) : Prop :=
  (∃ req ∈ c.current, req.ifMem = false) ∨
    ((c.insW.evicted cfg.ipc).ins.length + c.places : Int) ≤ cfg.insWSize ∧
      c.Single cfg (∀ x ∈ c.mshr, ∃ req ∈ c.current, ¬ x.SameAddrs req)

/-- Every buffer keeps its size, and the window has `w` places to spare. The queue of the requests that
wait for the cache is empty: nothing is ever added to it. -/
structure Bounded (cfg : Config) (w : ℕ) (c : PIMCore) : Prop where
  fits : Fits cfg w 0 0 c.buffers
  cache : c.cacheReqQueue = []

theorem Bounded.mono {w' : ℕ} (h : c.Bounded cfg w) (hw : w' ≤ w) : c.Bounded cfg w' :=
  ⟨h.fits.mono hw (Nat.le_refl 0) (Nat.le_refl 0), h.cache⟩

/-- What the processor does not change when it fetches an instruction. -/
structure Same (c c' : PIMCore) : Prop where
  buffers : c'.buffers = c.buffers
  cache : c'.cacheReqQueue = c.cacheReqQueue
  mshrRetry : c'.mshrRetry = c.mshrRetry
  mctrlRetry : c'.mctrlRetry = c.mctrlRetry
  currReq : c'.currReq = c.currReq

theorem Same.behind {c'' : PIMCore} (h' : Same c' c'') (h : Same c c') : Same c c'' where
  buffers := h'.buffers.trans h.buffers
  cache := h'.cache.trans h.cache
  mshrRetry := h'.mshrRetry.trans h.mshrRetry
  mctrlRetry := h'.mctrlRetry.trans h.mctrlRetry
  currReq := h'.currReq.trans h.currReq

theorem Same.bounded (h : Same c c') (hbounded : c.Bounded cfg w) : c'.Bounded cfg w :=
  ⟨h.buffers ▸ hbounded.fits, h.cache.trans hbounded.cache⟩

/-! ### Methods that queue nothing -/

theorem scanPage_same (addr : UInt64) : Yields (c.scanPage addr) fun x => Same c x.2 := by
  refine yields_iff.mpr fun x hx => ?_
  obtain ⟨⟨res, tlb⟩, -, heq⟩ := Outcome.bind_eq_ok.mp hx
  cases heq
  exact ⟨rfl, rfl, rfl, rfl, rfl⟩

theorem getIns_same (b : NamedBlock) : Yields (c.getIns b) fun r => ∀ x, r = some x → Same c x.2 := by
  unfold getIns
  split
  · refine ensures_ok fun x hx => ?_
    cases hx
  · exact ensures_error not_false
  · dsimp only
    split
    · refine ensures_ok fun x hx => ?_
      cases hx
      exact ⟨rfl, rfl, rfl, rfl, rfl⟩
    · refine ensures_ok fun x hx => ?_
      cases hx
      exact ⟨rfl, rfl, rfl, rfl, rfl⟩

theorem getInput_same : Yields c.getInput fun x => Same c x.2 := by
  unfold getInput
  dsimp only
  split
  · split_ifs
    · exact (scanPage_same _).bind fun x hx => ensures_ok (Same.behind hx ⟨rfl, rfl, rfl, rfl, rfl⟩)
    · exact ensures_ok ⟨rfl, rfl, rfl, rfl, rfl⟩
  · refine (getIns_same _).bind fun r hr => ?_
    cases r with
    | none => exact ensures_error not_false
    | some x => exact ensures_ok (Same.behind (hr x rfl) ⟨rfl, rfl, rfl, rfl, rfl⟩)
  · refine yields_iff.mpr fun x hx => ?_
    obtain ⟨ins, -, hx⟩ := Outcome.bind_eq_ok.mp hx
    obtain ⟨⟨block, c₁⟩, hscan, heq⟩ := Outcome.bind_eq_ok.mp hx
    cases heq
    exact Same.behind ((scanPage_same _).1 _ hscan) ⟨rfl, rfl, rfl, rfl, rfl⟩
  · exact ensures_error not_false

theorem getInsFromInsp_same : Yields c.getInsFromInsp fun x => Same c x.2 := by
  unfold getInsFromInsp
  split
  · refine (getIns_same _).bind fun r hr => ?_
    cases r with
    | some x => exact ensures_ok (hr x rfl)
    | none =>
      dsimp only
      split_ifs
      · exact ensures_error not_false
      · exact getInput_same.mono fun x hx => hx.behind ⟨rfl, rfl, rfl, rfl, rfl⟩
  · exact getInput_same

theorem nextRequest_keeps : Yields c.nextRequest fun c' =>
    c'.buffers = c.buffers ∧ c'.cacheReqQueue = c.cacheReqQueue := by
  unfold nextRequest
  exact getInsFromInsp_same.bind fun x hx => ensures_ok ⟨hx.buffers, hx.cache⟩

theorem nextRequest_bounded (h : c.Bounded cfg w) : Yields c.nextRequest fun c' => c'.Bounded cfg w :=
  nextRequest_keeps.mono fun _ hc => ⟨hc.1 ▸ h.fits, hc.2.trans h.cache⟩

theorem theReq_yields : Yields c.theReq fun req => c.currReq = some req := by
  unfold theReq
  split
  next req hreq => exact ensures_ok hreq
  next => exact ensures_error not_false

theorem theIns_yields : Yields c.theIns fun ins => c.currIns = some ins := by
  unfold theIns
  split
  next ins hins => exact ensures_ok hins
  next => exact ensures_error not_false

/-! ### The queues -/

theorem loadIns_loads (ready : Bool) : Yields (c.loadIns ready) fun c' =>
    (∃ ins cycle, c'.buffers = c.buffers.load ins cycle) ∧ c'.cacheReqQueue = c.cacheReqQueue := by
  unfold loadIns
  exact theIns_yields.bind fun ins _ => ensures_ok ⟨⟨_, _, rfl⟩, rfl⟩

/-- **An instruction is loaded**, and the registers stay as they are. -/
theorem loadIns_bounded (h : c.Bounded cfg (w + 1)) (ready : Bool) :
    Yields (c.loadIns ready) fun c' => c'.Bounded cfg w ∧ c'.mshr = c.mshr := by
  refine (loadIns_loads ready).mono fun c' ⟨⟨ins, cycle, hload⟩, hcache⟩ => ⟨⟨?_, ?_⟩, ?_⟩
  · rw [hload]
    exact h.fits.load ins cycle
  · exact hcache.trans h.cache
  · exact congrArg Buffers.mshr hload

theorem addToMctrl_bounded {res : Bool} (h : c.Bounded cfg w)
    (hsend : c.addToMctrl cfg req = (res, c')) : c'.Bounded cfg w := by
  obtain rfl : (c.addToMctrl cfg req).2 = c' := congrArg Prod.snd hsend
  exact ⟨h.fits.shrink rfl rfl (Nat.le_refl _) (Controller.length_addToMctrl req h.fits.waiting),
    h.cache⟩

/-- Full registers refuse every request. -/
theorem addToMshr_full (h : cfg.mshrSize ≤ c.mshr.length) : c.addToMshr cfg req = (false, c) :=
  if_pos h

/-- **A new request is registered** when a register is free. -/
theorem addToMshr_bounded {res : Bool} (h : c.Bounded cfg w)
    (hsingle : cfg.mshrSize ≤ c.mshr.length ∨ ¬ c.buffers.Registered req)
    (hmshr : c.addToMshr cfg req = (res, c')) :
    c'.Bounded cfg w ∧ (res = true → c'.mshr.length = c.mshr.length + 1) := by
  unfold addToMshr at hmshr
  split_ifs at hmshr with hfull
  · cases hmshr
    exact ⟨h, fun hno => absurd hno Bool.false_ne_true⟩
  · cases hmshr
    have hfree : Fits cfg w 1 0 c.buffers := by
      refine { h.fits with registers := ?_ }
      show (c.mshr.length + (1 : ℕ) : Int) ≤ cfg.mshrSize
      omega
    exact ⟨⟨hfree.register (hsingle.resolve_left hfull), h.cache⟩, fun _ => by simp⟩

/-! ### The issue of a request -/

theorem issueMiss_bounded (h : c.Bounded cfg (w + 1)) :
    Yields (c.issueMiss cfg req) fun r => r.2.Bounded cfg w := by
  unfold issueMiss
  refine (loadIns_bounded h false).bind fun c₁ ⟨hloaded, _⟩ => ?_
  cases hsend : c₁.addToMctrl cfg req with
  | mk ok c₂ =>
    have hsent := addToMctrl_bounded hloaded hsend
    cases ok with
    | false => exact ensures_ok ⟨hsent.fits, hsent.cache⟩
    | true => exact (nextRequest_bounded hsent).bind fun c₃ h₃ => ensures_ok h₃

/-- **The issue of a request** needs a place in the window. With a first-level cache it registers the
request. -/
theorem issue_bounded (hfits : c.Bounded cfg 0) (h : ∀ req, c.currReq = some req → c.Bounded cfg 1 ∧
    (cfg.pimUseL1Cache = true → cfg.mshrSize ≤ c.mshr.length ∨ ¬ c.buffers.Registered req)) :
    Yields (c.issue cfg) fun r => r.2.Bounded cfg 0 := by
  unfold issue
  by_cases hfull : c.insW.full = true
  · rw [if_pos hfull]
    exact ensures_ok hfits
  rw [if_neg hfull]
  refine theReq_yields.bind fun req hreq => ?_
  obtain ⟨hplace, hsingle⟩ := h req hreq
  refine theIns_yields.bind fun ins _ => ?_
  split_ifs with hexist huse
  · refine yields_iff.mpr fun r hmerged => ?_
    obtain ⟨insW, hlast, hmerged⟩ := Outcome.bind_eq_ok.mp hmerged
    obtain ⟨c₁, hnext, heq⟩ := Outcome.bind_eq_ok.mp hmerged
    cases heq
    obtain ⟨hlength, hsize⟩ := length_setLast hlast
    refine (nextRequest_bounded ?_).1 _ hnext
    refine ⟨?_, hplace.cache⟩
    exact hplace.fits.window_succ (hlength.trans (length_addIns c.insW ins c.cycle)) hsize
  · refine yields_iff.mpr fun r hissue => ?_
    obtain ⟨⟨hit, l1⟩, -, hissue⟩ := Outcome.bind_eq_ok.mp hissue
    have hlooked : { c with l1Cache := l1 }.Bounded cfg 1 := ⟨hplace.fits, hplace.cache⟩
    cases hit with
    | true =>
      obtain ⟨c₁, hload, hissue⟩ := Outcome.bind_eq_ok.mp hissue
      obtain ⟨c₂, hnext, heq⟩ := Outcome.bind_eq_ok.mp hissue
      cases heq
      exact (nextRequest_bounded ((loadIns_bounded hlooked true).1 _ hload).1).1 _ hnext
    | false =>
      dsimp only at hissue
      cases hmshr : { c with l1Cache := l1 }.addToMshr cfg req with
      | mk ok c₁ =>
        obtain ⟨hregistered, -⟩ := addToMshr_bounded hlooked (hsingle huse) hmshr
        rw [hmshr] at hissue
        cases ok with
        | false =>
          cases hissue
          exact ⟨(hregistered.mono (Nat.zero_le 1)).fits, hregistered.cache⟩
        | true => exact (issueMiss_bounded hregistered).1 _ hissue
  · exact issueMiss_bounded hplace

/-- The current request is issued, or passed over. -/
theorem serve_bounded (hfits : c.Bounded cfg 0)
    (h : ∀ req, c.currReq = some req → req.ifMem = true → c.Bounded cfg 1 ∧
      (cfg.pimUseL1Cache = true → cfg.mshrSize ≤ c.mshr.length ∨ ¬ c.buffers.Registered req)) :
    Yields (c.serve cfg) fun c' => c'.Bounded cfg 0 := by
  unfold serve
  refine theReq_yields.bind fun req hreq => ?_
  split_ifs with hmem
  · have hcurr : ∀ req, c.currReq = some req → c.Bounded cfg 1 ∧
        (cfg.pimUseL1Cache = true → cfg.mshrSize ≤ c.mshr.length ∨ ¬ c.buffers.Registered req) := by
      intro req' hreq'
      obtain rfl := Option.some.inj (hreq.symm.trans hreq')
      exact h req hreq hmem
    refine (issue_bounded hfits hcurr).bind fun ⟨goesOn, c₁⟩ hissued => ?_
    cases goesOn with
    | true => exact ensures_ok hissued
    | false => exact ensures_ok hissued
  · exact nextRequest_bounded hfits

/-! ### The retry -/

/-- The buffers have room for the request that the cycle works on. -/
structure Poised (cfg : Config) (c : PIMCore) : Prop where
  bounded : c.Bounded cfg 0
  places : ∀ req, c.currReq = some req → req.ifMem = true → c.Bounded cfg c.places
  single : ∀ req, c.currReq = some req → req.ifMem = true → c.Single cfg (¬ c.buffers.Registered req)

/-- A processor that is behind its retry can issue any request. -/
def Behind (cfg : Config) (c : PIMCore) : Prop :=
  c.Bounded cfg 1 ∧ (cfg.pimUseL1Cache = true → cfg.mshrSize ≤ c.mshr.length)

/-- The retry with full registers is refused. -/
theorem retry_refused (h : c.Bounded cfg 1) (hfull : cfg.mshrSize ≤ c.mshr.length) :
    Yields (c.retry cfg req) fun r => r.2.Bounded cfg 0 ∧ r.1 = false := by
  unfold retry
  refine (loadIns_bounded h false).bind fun c₁ ⟨hloaded, hmshr⟩ => ?_
  rw [← hmshr] at hfull
  rw [addToMshr_full hfull]
  exact ensures_ok ⟨hloaded, rfl⟩

/-- **The retry for the controller** registers the request and leaves no register free, or there is no
first-level cache. -/
theorem retry_behind (h : c.Bounded cfg 2)
    (hsingle : cfg.mshrSize ≤ c.mshr.length ∨ ¬ c.buffers.Registered req ∧
      (cfg.mshrSize ≤ c.mshr.length + 1 ∨ cfg.pimUseL1Cache = false)) :
    Yields (c.retry cfg req) fun r => r.2.Bounded cfg 0 ∧ (r.1 = true → Behind cfg r.2) := by
  unfold retry
  refine (loadIns_bounded h false).bind fun c₁ ⟨hloaded, hmshr⟩ => ?_
  have hnew : cfg.mshrSize ≤ c₁.mshr.length ∨ ¬ c₁.buffers.Registered req := by
    unfold Buffers.Registered buffers
    rw [hmshr]
    exact hsingle.imp_right And.left
  cases hadd : c₁.addToMshr cfg req with
  | mk ok c₂ =>
    obtain ⟨hregistered, hlength⟩ := addToMshr_bounded hloaded hnew hadd
    have hfits := hregistered.mono (Nat.zero_le 1)
    cases ok with
    | false => exact ensures_ok ⟨hfits, fun hno => absurd hno Bool.false_ne_true⟩
    | true =>
      have hone := hlength rfl
      rw [hmshr] at hone
      refine ensures_ok ⟨⟨hfits.fits, hfits.cache⟩, fun _ => ⟨⟨hregistered.fits, hregistered.cache⟩, ?_⟩⟩
      intro huse
      show cfg.mshrSize ≤ c₂.mshr.length
      rcases hsingle with hfull | ⟨-, hlast | hno⟩
      · omega
      · omega
      · exact absurd (hno.symm.trans huse) Bool.false_ne_true

/-- **The retry** keeps the sizes, and the cycle goes on with room for the next request. -/
theorem handleLast_bounded (h : c.Poised cfg) (hretrying : c.retrying = true) :
    Yields (c.handleLast cfg) fun r => r.2.Bounded cfg 0 ∧ (r.1 = true → Behind cfg r.2) := by
  unfold handleLast
  refine theReq_yields.bind fun req hreq => ?_
  by_cases hmem : req.ifMem = true
  · have hplaces := h.places req hreq hmem
    have hsingle := h.single req hreq hmem (.inr hretrying)
    simp only [hmem, Bool.not_true, Bool.false_eq_true, if_false]
    by_cases hretry : c.mshrRetry = true
    · -- The second registration is refused: the first one has taken the last register.
      rw [if_pos hretry]
      have hplace : c.Bounded cfg 1 := by
        unfold PIMCore.places at hplaces
        simpa [hretry] using hplaces
      cases hadd : c.addToMshr cfg req with
      | mk ok c₁ =>
        obtain ⟨hregistered, hlength⟩ := addToMshr_bounded hplace (hsingle.imp_right And.left) hadd
        cases ok with
        | false =>
          exact ensures_ok ⟨hregistered.mono (Nat.zero_le 1), fun hno => absurd hno Bool.false_ne_true⟩
        | true =>
          have hone := hlength rfl
          have hfull : cfg.mshrSize ≤ c₁.mshr.length := by
            rcases hsingle with hfull | ⟨-, hlast⟩
            · omega
            · rcases hlast hretrying with hlast | ⟨hno, -⟩
              · omega
              · exact absurd (hno.symm.trans hretry) Bool.false_ne_true
          refine (retry_refused (c := { c₁ with mshrRetry := false })
            ⟨hregistered.fits, hregistered.cache⟩ hfull).mono fun r hr => ⟨hr.1, fun hyes => ?_⟩
          exact absurd (hr.2.symm.trans hyes) Bool.false_ne_true
    · rw [if_neg hretry]
      have hmctrl : c.mctrlRetry = true := by
        unfold retrying at hretrying
        simpa [hretry] using hretrying
      have hplace : c.Bounded cfg 2 := by
        unfold PIMCore.places at hplaces
        simpa [hretry, hmctrl] using hplaces
      refine retry_behind hplace (hsingle.imp_right fun ⟨hnew, hlast⟩ => ⟨hnew, ?_⟩)
      exact (hlast hretrying).imp_right And.right
  · rw [Bool.not_eq_true] at hmem
    simp only [hmem, Bool.not_false, if_true]
    exact ensures_ok ⟨h.bounded, fun hno => absurd hno Bool.false_ne_true⟩

/-- The cycle behind the write-back queue. -/
theorem retryAndServe_bounded (h : c.Poised cfg) :
    Yields (c.retryAndServe cfg) fun c' => c'.Bounded cfg 0 := by
  have hcond : (c.mshrRetry || c.mctrlRetry) = c.retrying := rfl
  rw [retryAndServe, hcond]
  by_cases hretrying : c.retrying = true
  · rw [if_pos hretrying]
    by_cases hfull : c.insW.full = true
    · rw [if_pos hfull]
      exact ensures_ok h.bounded
    rw [if_neg hfull]
    refine (handleLast_bounded h hretrying).bind fun ⟨processed, c₁⟩ ⟨hfits, hbehind⟩ => ?_
    cases processed with
    | false => exact ensures_ok hfits
    | true =>
      obtain ⟨hplace, hregisters⟩ := hbehind rfl
      refine nextRequest_keeps.bind fun c₂ ⟨hbuffers, hcache⟩ => ?_
      have hnext : c₂.Bounded cfg 1 := ⟨hbuffers ▸ hplace.fits, hcache.trans hplace.cache⟩
      refine serve_bounded (hnext.mono (Nat.zero_le 1)) fun req _ _ => ⟨hnext, fun huse => .inl ?_⟩
      have hmshr : c₂.mshr = c₁.mshr := congrArg Buffers.mshr hbuffers
      rw [hmshr]
      exact hregisters huse
  · rw [if_neg hretrying]
    refine serve_bounded h.bounded fun req hreq hmem => ⟨?_, fun huse => ?_⟩
    · refine (h.places req hreq hmem).mono ?_
      unfold PIMCore.places
      split_ifs <;> omega
    · exact (h.single req hreq hmem (.inl huse)).imp_right And.left

/-! ### A cycle -/

/-- The buffers have room for the request once the window is evicted. -/
structure Arriving (cfg : Config) (c : PIMCore) : Prop where
  bounded : c.Bounded cfg 0
  places : ∀ req, c.currReq = some req → req.ifMem = true →
    Fits cfg c.places 0 0 (c.buffers.evict cfg.ipc)
  single : ∀ req, c.currReq = some req → req.ifMem = true → c.Single cfg (¬ c.buffers.Registered req)

theorem Same.places (h : Same c c') : c'.places = c.places := by
  unfold PIMCore.places
  rw [h.mshrRetry, h.mctrlRetry]

theorem Same.single {new : Prop} (h : Same c c') : c'.Single cfg new ↔ c.Single cfg new := by
  have hmshr : c'.mshr = c.mshr := congrArg Buffers.mshr h.buffers
  unfold Single retrying
  rw [h.mshrRetry, h.mctrlRetry, hmshr]

theorem Arriving.same (h : c.Arriving cfg) (hsame : Same c c') : c'.Arriving cfg where
  bounded := hsame.bounded h.bounded
  places := by
    intro req hreq hmem
    rw [hsame.buffers, hsame.places]
    exact h.places req (hsame.currReq ▸ hreq) hmem
  single := by
    intro req hreq hmem
    rw [hsame.buffers, hsame.single]
    exact h.single req (hsame.currReq ▸ hreq) hmem

/-- A cycle begins with its first instruction, and fetches one when there is none. -/
theorem start_yields : Yields c.start fun r => Same { c with currReq := r.2.currReq } r.2 ∧
    ∀ req ∈ c.current, r.2.currReq = some req := by
  unfold start
  split_ifs with hnone
  · refine getInsFromInsp_same.bind fun x hx => ?_
    have hcurrent : c.current = none := by
      unfold current
      rw [Bool.or_eq_true, Option.isNone_iff_eq_none, Option.isNone_iff_eq_none] at hnone
      rcases hnone with hnone | hnone <;> simp [hnone]
    rw [hcurrent]
    refine yields_iff.mpr fun r hr => ⟨?_, nofun⟩
    dsimp only at hr
    split_ifs at hr <;> cases hr <;> exact ⟨hx.buffers, hx.cache, hx.mshrRetry, hx.mctrlRetry, rfl⟩
  · refine ensures_ok ⟨⟨rfl, rfl, rfl, rfl, rfl⟩, fun req hreq => ?_⟩
    unfold current at hreq
    split_ifs at hreq
    · exact hreq
    · cases hreq

theorem Room.arriving (h : c.Room cfg) (hbounded : c.Bounded cfg 0)
    (hsame : Same { c with currReq := c'.currReq } c')
    (hreq : ∀ req ∈ c.current, c'.currReq = some req) : c'.Arriving cfg := by
  refine Arriving.same ?_ hsame
  have hevicted := hbounded.fits.evict cfg.ipc
  rcases h with ⟨other, hother, hidle⟩ | ⟨hwindow, hsingle⟩
  · have hno : ∀ req, c'.currReq = some req → ¬ req.ifMem = true := by
      intro req hcurr hmem
      obtain rfl := Option.some.inj ((hreq other hother).symm.trans hcurr)
      exact absurd (hidle.symm.trans hmem) Bool.false_ne_true
    exact ⟨⟨hbounded.fits, hbounded.cache⟩, fun req hcurr hmem => absurd hmem (hno req hcurr),
      fun req hcurr hmem => absurd hmem (hno req hcurr)⟩
  · refine ⟨⟨hbounded.fits, hbounded.cache⟩, fun _ _ _ => { hevicted with window := hwindow }, ?_⟩
    intro req hcurr _ htakes
    refine (hsingle htakes).imp_right fun ⟨hnew, hlast⟩ => ⟨?_, hlast⟩
    rintro ⟨x, hx, hregistered⟩
    obtain ⟨other, hother, hdiffers⟩ := hnew x hx
    obtain rfl := Option.some.inj ((hreq other hother).symm.trans hcurr)
    exact hdiffers hregistered

/-- No request waits for the cache. -/
theorem handleCacheReq_eq (h : c.cacheReqQueue = []) : c.handleCacheReq = .ok c := by
  rw [handleCacheReq, h]
  rfl

/-- The window is evicted. -/
theorem updateInsW_poised (h : c.Arriving cfg) : (c.updateInsW cfg).Poised cfg := by
  have hbuffers : (c.updateInsW cfg).buffers = c.buffers.evict cfg.ipc := by
    unfold updateInsW
    split_ifs with hempty
    · have hsame : c.insW.evicted cfg.ipc = c.insW := evicted_of_empty hempty cfg.ipc
      simp only [Buffers.evict, buffers, hsame]
    · rfl
  have hrest : (c.updateInsW cfg).currReq = c.currReq ∧
      (c.updateInsW cfg).cacheReqQueue = c.cacheReqQueue ∧ (c.updateInsW cfg).places = c.places ∧
        ∀ new, (c.updateInsW cfg).Single cfg new ↔ c.Single cfg new := by
    unfold updateInsW
    split_ifs <;> exact ⟨rfl, rfl, rfl, fun _ => Iff.rfl⟩
  obtain ⟨hcurr, hcache, hplaces, hsingle⟩ := hrest
  have hempty := hcache.trans h.bounded.cache
  refine ⟨⟨?_, hempty⟩, fun req hreq hmem => ⟨?_, hempty⟩, fun req hreq hmem => ?_⟩
  · rw [hbuffers]
    exact h.bounded.fits.evict cfg.ipc
  · rw [hbuffers, hplaces]
    exact h.places req (hcurr ▸ hreq) hmem
  · rw [hbuffers, hsingle]
    exact h.single req (hcurr ▸ hreq) hmem

/-- A write-back request that is sent leaves its queue. -/
theorem writeBack_poised (h : c.Poised cfg) :
    Yields (c.writeBack cfg) fun r => r.2.Poised cfg := by
  have hshrink : ∀ {w : ℕ} {mctrl : Controller} {reqs : List ProcRequest}, c.Bounded cfg w →
      (mctrl.waitQueue.length : Int) ≤ cfg.crtlQueueMax →
      reqs.length ≤ (c.writebackReq.getD []).length →
      { c with mctrl := mctrl, writebackReq := some reqs }.Bounded cfg w := by
    intro w mctrl reqs hbounded hwaiting hreqs
    exact ⟨hbounded.fits.shrink rfl rfl hreqs hwaiting, hbounded.cache⟩
  unfold writeBack
  split_ifs
  · split
    next => exact ensures_error not_false
    next => exact ensures_ok h
    next req reqs hqueue =>
      cases hsend : c.addToMctrl cfg req with
      | mk res c₁ =>
        have hc₁ : c₁ = { c with mctrl := (c.mctrl.addToMctrl cfg req).2 } :=
          (congrArg Prod.snd hsend).symm
        subst hc₁
        have hwaiting : ((c.mctrl.addToMctrl cfg req).2.waitQueue.length : Int) ≤ cfg.crtlQueueMax :=
          Controller.length_addToMctrl req h.bounded.fits.waiting
        have hreqs : (if res then reqs else req :: reqs).length ≤ (c.writebackReq.getD []).length := by
          rw [hqueue]
          split_ifs <;> simp
        exact ensures_ok ⟨hshrink h.bounded hwaiting hreqs,
          fun req hreq hmem => hshrink (h.places req hreq hmem) hwaiting hreqs, h.single⟩
  · exact ensures_ok h

/-- **The cycle up to the write-back queue.** -/
theorem arrive_poised (h : c.Room cfg) (hbounded : c.Bounded cfg 0) :
    Yields (c.arrive cfg) fun r => r.2.Bounded cfg 0 ∧ (r.1 = true → r.2.Poised cfg) := by
  unfold arrive
  by_cases hipc : cfg.ipc < 0
  · simp only [if_pos hipc]
    exact ensures_error not_false
  simp only [if_neg hipc]
  refine start_yields.bind fun ⟨goesOn, c₁⟩ ⟨hsame, hcurr⟩ => ?_
  have hfirst : c₁.Arriving cfg :=
    Room.arriving (c := { c with cycle := c.cycle + 1 }) h ⟨hbounded.fits, hbounded.cache⟩ hsame hcurr
  cases goesOn with
  | false => exact ensures_ok ⟨hfirst.bounded, fun hno => absurd hno Bool.false_ne_true⟩
  | true =>
    have hpc : (if cfg.traceType = .pc then { c₁ with pc := c₁.pc + 1 } else c₁).Arriving cfg := by
      split_ifs
      · exact hfirst.same ⟨rfl, rfl, rfl, rfl, rfl⟩
      · exact hfirst
    generalize (if cfg.traceType = .pc then { c₁ with pc := c₁.pc + 1 } else c₁) = c₂ at hpc
    simp only [Bool.not_true, Bool.false_eq_true, if_false]
    split
    · exact ensures_ok ⟨hpc.bounded, fun hno => absurd hno Bool.false_ne_true⟩
    rw [handleCacheReq_eq hpc.bounded.cache]
    have hsent := (writeBack_poised (updateInsW_poised hpc)).mono fun r hr =>
      (⟨hr.bounded, fun _ => hr⟩ : r.2.Bounded cfg 0 ∧ (r.1 = true → r.2.Poised cfg))
    split_ifs <;> exact hsent

/-- **A cycle** keeps the sizes when there is room for its request. -/
theorem step_bounded (h : c.Room cfg) (hbounded : c.Bounded cfg 0) :
    Yields (c.step cfg) fun c' => c'.Bounded cfg 0 := by
  unfold step
  refine (arrive_poised h hbounded).bind fun ⟨goesOn, c₁⟩ ⟨hfits, hpoised⟩ => ?_
  cases goesOn with
  | true => exact retryAndServe_bounded (hpoised rfl)
  | false => exact ensures_ok hfits

end PIMCore

/-- What can happen to a memory-side processor and the controller that it shares with the other ones: a
cycle, the completion of a request, a request of another processor, a cycle of the controller, and a
memory object that fetches a request. -/
inductive PIMEvent
  | cycle
  | completed (blockAddr : UInt64)
  | add (req : ProcRequest)
  | mctrlStep (coherence : Coherence)
  | take (pid : ℕ)

namespace PIMCore

variable {c c' : PIMCore} {info : List (Region Obj)}

/-- The constructor of a memory-side processor, and the controller of `objects` memory objects. -/
def create (cfg : Config) (pid : Int) (insP : List PIMInput) (assoc maxSet : ℕ) (tlb : PageConverter)
    (writeback : Bool) (objects : ℕ) : PIMCore where
  pid := pid
  insP := insP
  l1Cache := CacheArray.create assoc maxSet
  insW := { ins := [], size := cfg.insWSize }
  tlb := tlb
  writebackReq := if writeback then some [] else none
  mctrl := Controller.init objects

/-- One event. -/
def handle (cfg : Config) (info : List (Region Obj)) (c : PIMCore) : PIMEvent → Outcome PIMCore
  | .cycle => c.step cfg
  | .completed blockAddr => c.completed cfg blockAddr
  | .add req => .ok (c.addToMctrl cfg req).2
  | .mctrlStep coherence => do
    let (_, mctrl) ← PIMMctrl.step cfg info coherence c.mctrl
    return { c with mctrl := mctrl }
  | .take pid => do
    let (_, mctrl) ← c.mctrl.getReq true pid
    return { c with mctrl := mctrl }

/-- What an event needs to keep the sizes: a cycle needs room for its request. -/
def Roomy (cfg : Config) (c : PIMCore) : PIMEvent → Prop
  | .cycle => c.Room cfg
  | _ => True

instance (cfg : Config) (c : PIMCore) (new : Prop) [Decidable new] : Decidable (c.Single cfg new) :=
  inferInstanceAs (Decidable (_ ∨ _ → _ ∨ new ∧ (_ → _ ∨ _ ∧ _)))

instance (cfg : Config) (c : PIMCore) : Decidable (c.Room cfg) :=
  inferInstanceAs (Decidable ((∃ req ∈ c.current, req.ifMem = false) ∨
    _ ∧ c.Single cfg (∀ x ∈ c.mshr, ∃ req ∈ c.current, ¬ x.SameAddrs req)))

instance (cfg : Config) (c : PIMCore) : ∀ e, Decidable (c.Roomy cfg e)
  | .cycle => inferInstanceAs (Decidable (c.Room cfg))
  | .completed _ | .add _ | .mctrlStep _ | .take _ => .isTrue trivial

theorem bounded_create (hsized : cfg.Sized) (pid : Int) (insP : List PIMInput) (assoc maxSet : ℕ)
    (tlb : PageConverter) (writeback : Bool) (objects : ℕ) :
    (create cfg pid insP assoc maxSet tlb writeback objects).Bounded cfg 0 := by
  refine ⟨⟨hsized.registers, List.Pairwise.nil, hsized.window, rfl, ?_, hsized.waiting⟩, rfl⟩
  cases writeback <;> exact hsized.writeback

/-- A completion settles the requests of the block. -/
theorem completed_bounded {b : UInt64} (h : c.Bounded cfg 0) (hcompleted : c.completed cfg b = .ok c') :
    c'.Bounded cfg 0 := by
  obtain ⟨p, hfill, heq⟩ := Outcome.bind_eq_ok.mp hcompleted
  cases heq
  have hsettled : p.insW = c.insW.setReady b ∧ p.mshr = c.mshr.filter (·.blockAddr ≠ b) := by
    unfold PIMProc.fill at hfill
    split_ifs at hfill
    · obtain ⟨⟨hit, l1⟩, -, hfill⟩ := Outcome.bind_eq_ok.mp hfill
      dsimp only at hfill
      split_ifs at hfill
      · obtain ⟨⟨_, l1'⟩, -, heq⟩ := Outcome.bind_eq_ok.mp hfill
        cases heq
        exact ⟨rfl, rfl⟩
      · cases hfill
        exact ⟨rfl, rfl⟩
    · cases hfill
      exact ⟨rfl, rfl⟩
  refine ⟨?_, h.cache⟩
  have hbuffers : { c with toPIMProc := p }.buffers = c.buffers.settle b := by
    unfold buffers Buffers.settle
    rw [hsettled.1, hsettled.2]
  rw [hbuffers]
  exact h.fits.settle b

/-- The controller gives out or forwards a request. -/
theorem Bounded.withMctrl (h : c.Bounded cfg 0) {mctrl : Controller}
    (hwaiting : mctrl.waitQueue.length ≤ c.mctrl.waitQueue.length) :
    { c with mctrl := mctrl }.Bounded cfg 0 := by
  have hle : (c.mctrl.waitQueue.length : Int) ≤ cfg.crtlQueueMax := h.fits.waiting
  refine ⟨h.fits.shrink rfl rfl (Nat.le_refl _) ?_, h.cache⟩
  show (mctrl.waitQueue.length : Int) ≤ cfg.crtlQueueMax
  omega

/-- **An event** keeps the sizes when it has the room. -/
theorem handle_bounded {e : PIMEvent} (h : c.Bounded cfg 0) (hroomy : c.Roomy cfg e)
    (hhandle : c.handle cfg info e = .ok c') : c'.Bounded cfg 0 := by
  cases e with
  | cycle => exact (step_bounded hroomy h).1 c' hhandle
  | completed b => exact completed_bounded h hhandle
  | add req =>
    obtain rfl : (c.addToMctrl cfg req).2 = c' := Except.ok.inj hhandle
    exact addToMctrl_bounded h (Prod.eta (c.addToMctrl cfg req)).symm
  | mctrlStep coherence =>
    obtain ⟨⟨coherence', mctrl⟩, hstep, heq⟩ := Outcome.bind_eq_ok.mp hhandle
    cases heq
    exact h.withMctrl (PIMMctrl.step_length hstep)
  | take pid =>
    obtain ⟨⟨req, mctrl⟩, hget, heq⟩ := Outcome.bind_eq_ok.mp hhandle
    cases heq
    exact h.withMctrl (le_of_eq (congrArg List.length (Controller.getReq_waitQueue hget)))

end PIMCore

/-! ### Runs -/

/-- **The buffers in every run** whose steps have the room: the registers, the window and the write-back
queue of every host processor and the wait queues of both controllers keep their sizes, and so do those
of every processor at the memory side. No addresses are registered twice. -/
theorem capacities_kept (hsized : cfg.Sized) (P : Platform Obj) {s₀ s : System} {es : List Event}
    (hinit : System.init cfg P = .ok s₀)
    (hroomy : Along (System.step cfg P.memory) (System.Roomy cfg) s₀ es)
    (h : exec (System.step cfg P.memory) s₀ es = .ok s)
    {pid : Int} {insP : List PIMInput} {assoc maxSet objects : ℕ} {tlb : PageConverter}
    {writeback : Bool} {c : PIMCore} {fs : List PIMEvent}
    (hroom : Along (PIMCore.handle cfg P.memory) (PIMCore.Roomy cfg)
      (PIMCore.create cfg pid insP assoc maxSet tlb writeback objects) fs)
    (hc : exec (PIMCore.handle cfg P.memory)
      (PIMCore.create cfg pid insP assoc maxSet tlb writeback objects) fs = .ok c) :
    s.Bounded cfg ∧ c.Bounded cfg 0 := by
  have hfirst : s₀.coherence.host.Tidy ∧ s₀.coherence.host.Paired := by
    rw [System.host_of_init hinit]
    exact ⟨Host.tidy_host P, Host.paired_host P⟩
  have hhost := exec_along (I := fun s => s.Bounded cfg ∧ s.coherence.host.Tidy ∧
      s.coherence.host.Paired)
    (fun s e s' hI hgood hstep => ⟨System.step_bounded hI.1 hI.2.1 hgood hstep,
      Host.tidy_step hI.2 hstep⟩) ⟨System.bounded_init hsized hinit, hfirst⟩ hroomy h
  have hpim := exec_along (I := fun c => c.Bounded cfg 0)
    (fun c e c' hI hgood hstep => PIMCore.handle_bounded hI hgood hstep)
    (PIMCore.bounded_create hsized pid insP assoc maxSet tlb writeback objects) hroom hc
  exact ⟨hhost.1, hpim⟩

/-- Reads of both addresses. -/
def readsOf (a b : UInt64) : List Input :=
  [a, b].map fun address => .instruction { type := .read, address := address, isMem := true }

/-- A memory-side processor that reads both addresses. The stride of its page table is 8. -/
def readingPIMCore (a b : UInt64) : PIMCore :=
  PIMCore.create {} 0 ((readsOf a b).map .input) 4 1 (PageConverter.create 4096 1 1 8 false) true 1

/-- Both processors read two blocks, and the read of the first one completes. -/
theorem capacities_kept_two : ∃ s c, exec (System.step {} oneObject) (smallSystem {} [readsOf 64 128])
      [.procStep 0, .procStep 0, .mctrlStep, .take 0, .complete 0] = .ok s ∧
    exec (PIMCore.handle {} oneObject) (readingPIMCore 64 128) [.cycle, .cycle, .completed 64] = .ok c ∧
      s.Bounded {} ∧ c.Bounded {} 0 := by
  obtain ⟨s, hs, -⟩ := Outcome.exists_of_map_eq_ok (f := fun s : System => s.memory.length)
    (x := exec (System.step {} oneObject) (smallSystem {} [readsOf 64 128])
      [.procStep 0, .procStep 0, .mctrlStep, .take 0, .complete 0]) (b := 0) (by decide +kernel)
  obtain ⟨c, hc, -⟩ := Outcome.exists_of_map_eq_ok (f := fun c : PIMCore => c.mshr.length)
    (x := exec (PIMCore.handle {} oneObject) (readingPIMCore 64 128) [.cycle, .cycle, .completed 64])
    (b := 1) (by decide +kernel)
  have hroomy : Along (System.step {} oneObject) (System.Roomy {}) (smallSystem {} [readsOf 64 128])
      [.procStep 0, .procStep 0, .mctrlStep, .take 0, .complete 0] := by decide +kernel
  have hroom : Along (PIMCore.handle {} oneObject) (PIMCore.Roomy {}) (readingPIMCore 64 128)
      [.cycle, .cycle, .completed 64] := by decide +kernel
  exact ⟨s, c, hs, hc, capacities_kept ⟨by decide, by decide, by decide, by decide⟩
    (smallPlatform [readsOf 64 128]) (init_smallPlatform rfl rfl _) hroomy hs hroom hc⟩

/-- A host processor with one register registers a second request, and its window of one place takes a
second instruction. A memory-side processor registers two requests of the same addresses. -/
theorem not_bounded_full :
    (¬ ∀ s, exec (System.step { mshrSize := 1, insWSize := 1 } oneObject)
      (smallSystem { mshrSize := 1, insWSize := 1 } [readsOf 64 128]) [.procStep 0, .procStep 0] = .ok s →
        s.Bounded { mshrSize := 1, insWSize := 1 }) ∧
    ¬ ∀ c, exec (PIMCore.handle {} oneObject) (readingPIMCore 20544 20544) [.cycle, .cycle] = .ok c →
      c.Bounded {} 0 := by
  constructor
  · intro h
    obtain ⟨s, hs, hfull⟩ := Outcome.exists_of_map_eq_ok
      (f := fun s : System => s.coherence.host.procs.map fun proc => proc.mshr.length)
      (x := exec (System.step { mshrSize := 1, insWSize := 1 } oneObject)
        (smallSystem { mshrSize := 1, insWSize := 1 } [readsOf 64 128]) [.procStep 0, .procStep 0])
      (b := [2]) (by decide +kernel)
    have hmem : 2 ∈ s.coherence.host.procs.map fun proc => proc.mshr.length := by
      rw [hfull]
      exact List.mem_singleton_self 2
    obtain ⟨proc, hproc, hlength⟩ := List.mem_map.mp hmem
    have hregisters : (proc.mshr.length + (0 : ℕ) : Int) ≤ 1 := ((h s hs).host.procs proc hproc).registers
    omega
  · intro h
    obtain ⟨c, hc, hfull⟩ := Outcome.exists_of_map_eq_ok
      (f := fun c : PIMCore => c.mshr.map fun x => (x.actualAddr, x.blockAddr))
      (x := exec (PIMCore.handle {} oneObject) (readingPIMCore 20544 20544) [.cycle, .cycle])
      (b := [(20544, 64), (20544, 64)]) (by decide +kernel)
    have hdistinct : (c.mshr.map fun x => (x.actualAddr, x.blockAddr)).Pairwise (· ≠ ·) := by
      refine List.pairwise_map.mpr ((h c hc).fits.distinct.imp fun hdiffers heq => hdiffers ?_)
      exact ⟨congrArg Prod.fst heq, congrArg Prod.snd heq⟩
    rw [hfull] at hdistinct
    exact absurd hdistinct (by decide)

end PIMSim
