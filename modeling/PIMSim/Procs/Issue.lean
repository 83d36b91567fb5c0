import PIMSim.Procs.Cycle

/-!
# The issue of requests, and their retry

## Main results

* `Core.movesOn`: the processor moves on from a served instruction
* `Core.issue_passage`, `Core.handleLast_spec`: the issue and the retry of the current request
* `Core.step_passage`: a cycle
-/

namespace PIMSim.Core

open CSharp CacheArray

variable {cfg : Config} {w : Waiver} {c c' : Core} {req : ProcRequest} {ref : ℕ}

theorem theReq_eq_ok {req : ProcRequest} : c.theReq = .ok req ↔ c.proc.currReq = some req := by
  unfold theReq
  cases c.proc.currReq <;> simp

theorem theIns_eq_ok {ins : Instruction} : c.theIns = .ok ins ↔ c.proc.currIns = some ins := by
  unfold theIns
  cases c.proc.currIns <;> simp

/-! ### The next instruction -/

/-- Fetching an instruction changes the stream and the page table only. -/
theorem getInsFromInsp_frame (cfg : Config) (w : Waiver) {ins : Instruction}
    (h : c.getInsFromInsp = .ok (ins, c')) :
    Effects cfg w c c' ∧ Aside c c' := by
  unfold getInsFromInsp at h
  split at h
  · next ins' _ =>
    dsimp only at h
    by_cases hmem : ins'.isMem = true
    · rw [if_pos hmem] at h
      obtain ⟨⟨b, c₁⟩, hscan, heq⟩ := Outcome.bind_eq_ok.mp h
      cases heq
      refine ⟨.trans ?_ (scanPage_effects hscan), .trans ?_ (scanPage_aside hscan)⟩
      · exact effects_of_eq rfl rfl rfl rfl rfl id rfl
      · exact ⟨rfl, rfl, rfl, [], by simp, by simp⟩
    · rw [if_neg hmem] at h
      cases h
      exact ⟨effects_of_eq rfl rfl rfl rfl rfl id rfl, rfl, rfl, rfl, [], by simp, by simp⟩
  · simp only [Outcome.bind_eq_ok] at h
    obtain ⟨ins', -, ⟨b, c₁⟩, hscan, heq⟩ := h
    cases heq
    refine ⟨.trans ?_ (scanPage_effects hscan), .trans ?_ (scanPage_aside hscan)⟩
    · exact effects_of_eq rfl rfl rfl rfl rfl id rfl
    · exact ⟨rfl, rfl, rfl, [], by simp, by simp⟩
  · cases h

theorem getInsFromInsp_caches {ins : Instruction} (h : c.getInsFromInsp = .ok (ins, c')) :
    c'.proc.pid = c.proc.pid ∧ c'.proc.cacheReqQueue = c.proc.cacheReqQueue ∧
      c'.proc.l1Cache = c.proc.l1Cache ∧ c'.proc.cycle = c.proc.cycle := by
  have hscan : ∀ {c₁ c₂ : Core} {addr res : UInt64}, c₁.scanPage addr = .ok (res, c₂) →
      c₂.proc = c₁.proc := by
    intro c₁ c₂ addr res hs
    obtain ⟨⟨r, tlb⟩, -, heq⟩ := Outcome.bind_eq_ok.mp hs
    cases heq
    rfl
  unfold getInsFromInsp at h
  split at h
  · next ins' _ =>
    dsimp only at h
    by_cases hmem : ins'.isMem = true
    · rw [if_pos hmem] at h
      obtain ⟨⟨b, c₁⟩, hs, heq⟩ := Outcome.bind_eq_ok.mp h
      cases heq
      rw [hscan hs]
      exact ⟨rfl, rfl, rfl, rfl⟩
    · rw [if_neg hmem] at h
      cases h
      exact ⟨rfl, rfl, rfl, rfl⟩
  · simp only [Outcome.bind_eq_ok] at h
    obtain ⟨ins', -, ⟨b, c₁⟩, hs, heq⟩ := h
    cases heq
    rw [hscan hs]
    exact ⟨rfl, rfl, rfl, rfl⟩
  · cases h

/-- What the processor does when it moves on. -/
theorem handleNewRequest_spec (cfg : Config) (w : Waiver) (h : c.handleNewRequest = .ok c') : ∃ c₁,
    c₁ = (match c.proc.currIns with
      | some ins => c.note (.movedOn ins)
      | none => c) ∧
      Effects cfg w c₁ c' ∧ c'.Paired ∧ c'.proc.mctrlRetry = c₁.proc.mctrlRetry ∧
      ∃ as, c'.acts = c₁.acts ++ as ∧ ∀ a ∈ as, a.issues = false := by
  refine ⟨_, rfl, ?_⟩
  obtain ⟨⟨ins, c₂⟩, hget, heq⟩ := Outcome.bind_eq_ok.mp h
  cases heq
  obtain ⟨heffects, haside⟩ := getInsFromInsp_frame cfg w hget
  exact ⟨heffects.trans (effects_of_eq rfl rfl rfl rfl rfl id rfl), rfl, haside.retry, haside.acts⟩

theorem type_eq_write {ins : Instruction} :
    (parseIns ins).type = .write ↔ ins.type = .write := by
  unfold parseIns ProcRequest.parse
  cases ins.type <;> simp

/-- **The processor moves on** from a request whose data is secured. It conserves the instruction
when the acts since the issue began serve it. -/
theorem movesOn {ok : Prop} {c₁ : Core} (as : List Act) (heffects : Effects cfg w c c₁)
    (hacts : c₁.acts = c.acts ++ as) (hmoved : ∀ i, .movedOn i ∉ as)
    (hserving : c₁.Serving req ref) (hsec : req.type = .write → c₁.Secured w req.blockAddr)
    (hretry : ok → c.proc.mctrlRetry = false → c₁.proc.mctrlRetry = false)
    (hserves : ok → (∃ a ∈ as, a.hit = true) ∨ loads as = [ref] ∧ sends as = [req])
    (h : c₁.handleNewRequest = .ok c') : Passage cfg w ok c c' := by
  obtain ⟨-, -, ins, hins, rfl, rfl⟩ := hserving
  obtain ⟨c₂, hc₂, hnext, hpair, hsame, bs, hbs, hidle⟩ := handleNewRequest_spec cfg w h
  rw [hins] at hc₂
  subst hc₂
  have hdelivered : c₁.Delivered w ins := fun _ ht => hsec (type_eq_write.mpr ht)
  refine ⟨heffects.trans ((Effect.movedOn hdelivered).effects.trans hnext), hpair, ?_⟩
  intro ho
  refine ⟨fun hr => hsame.trans (hretry ho hr), as ++ .movedOn ins :: bs, ?_, ?_⟩
  · rw [hbs]
    show (c₁.acts ++ [.movedOn ins]) ++ bs = _
    rw [hacts, List.append_assoc, List.append_assoc, List.singleton_append]
  · refine .movedOn hmoved ?_ (served_of_aside hidle)
    intro _ hmiss
    rcases hserves ho with ⟨a, ha, hhit⟩ | hs
    · exact absurd hhit (by simp [hmiss a ha])
    · exact hs

/-- An instruction that is no memory instruction is passed over. -/
theorem passesOver {ins : Instruction} (hins : c.proc.currIns = some ins)
    (hmem : ins.isMem = false) (h : c.handleNewRequest = .ok c') : Passage cfg w True c c' := by
  obtain ⟨c₂, hc₂, hnext, hpair', hsame, bs, hbs, hidle⟩ := handleNewRequest_spec cfg w h
  rw [hins] at hc₂
  subst hc₂
  have hno : ins.isMem = true → False := by simp [hmem]
  have hdelivered : c.Delivered w ins := fun hm => (hno hm).elim
  refine ⟨(Effect.movedOn hdelivered).effects.trans hnext, hpair', fun _ => ?_⟩
  refine ⟨fun hr => hsame.trans hr, [] ++ .movedOn ins :: bs, ?_, ?_⟩
  · rw [hbs]
    simp [note]
  · exact .movedOn (by simp) (fun hm => (hno hm).elim) (served_of_aside hidle)

/-! ### The parts of an issue -/

theorem loadIns_frame {ready : Bool} (hserving : c.Serving req ref)
    (h : c.loadIns ready = .ok c') : Frame [.loaded ref] c c' := by
  obtain ⟨hreq, hmem, ins, hins, hparse, href⟩ := hserving
  obtain ⟨ins', hins', heq⟩ := Outcome.bind_eq_ok.mp h
  rw [theIns_eq_ok, hins] at hins'
  cases hins'
  cases heq
  subst href
  refine ⟨rfl, rfl, rfl, ?_, rfl, rfl, by simp [Act.quiet]⟩
  -- A memory instruction stays the one of its request when it is marked as one.
  rintro req' ref' ⟨hreq', hmem', ins', hins', hparse', href'⟩
  rw [hins] at hins'
  cases hins'
  refine ⟨hreq', hmem', _, rfl, ?_, href'⟩
  have hismem : ins.isMem = true := by rwa [← hparse] at hmem
  rw [← hparse', parseIns, parseIns, ProcRequest.parse, ProcRequest.parse, hismem]

theorem loadIns_mshr {ready : Bool} (h : c.loadIns ready = .ok c') : c'.proc.mshr = c.proc.mshr := by
  obtain ⟨ins, -, heq⟩ := Outcome.bind_eq_ok.mp h
  cases heq
  rfl

theorem addToCache_frame {ifShared : Bool} (hserving : c.Serving req ref)
    (h : c.addToCache cfg req ifShared = .ok c') : Frame [.loaded ref] c c' := by
  let latency := if ifShared then cfg.shareCacheHitLatency else cfg.l1cacheHitLatency
  let queued : Core := { c with proc := { c.proc with cacheReqQueue := c.proc.cacheReqQueue ++
    [{ req with tsDeparture := c.proc.cycle + latency }] } }
  have hqueue : Frame [] c queued :=
    ⟨rfl, rfl, rfl, fun _ _ => id, rfl, by simp [queued], by simp⟩
  exact hqueue.trans (loadIns_frame (hqueue.serving req ref hserving) h)

/-- The core after the registers took the request. -/
def withMshr (c : Core) (mshr : List ProcRequest) : Core :=
  { c with proc := { c.proc with mshr := mshr } }

/-- The registers refuse the request, or take it. -/
theorem addToMshr_cases (cfg : Config) (c : Core) (req : ProcRequest) :
    (c.registersFull cfg req = true ∧ c.addToMshr cfg req = (false, c.note (.mshrRefused req))) ∨
      c.registersFull cfg req = false ∧ ∃ mshr, c.addToMshr cfg req = (true, c.withMshr mshr) := by
  unfold addToMshr registersFull
  split_ifs with hmerge hfull
  · exact .inr ⟨by rw [hmerge]; rfl, c.proc.mshr, rfl⟩
  · exact .inl ⟨by simp [hmerge, hfull], rfl⟩
  · exact .inr ⟨by simp [hfull], _, rfl⟩

theorem withMshr_frame (mshr : List ProcRequest) : Frame [] c (c.withMshr mshr) :=
  ⟨rfl, rfl, rfl, fun _ _ => id, rfl, by simp [withMshr], by simp⟩

/-- A write that hits the first-level cache is held. -/
theorem searchL1_holds {b : UInt64} {t : RequestType} (h : c.searchL1 b t = .ok (true, c')) :
    t = .write → c'.Holds b := by
  intro ht
  obtain ⟨l1, hsearch, rfl⟩ := searchL1_eq_ok h
  obtain ⟨-, -, -, -, hdirty, -⟩ := search_spec hsearch (by simp)
  exact .inl (hdirty rfl ht)

/-- A write that hits the shared cache is held. -/
theorem searchShared_holds {b : UInt64} {t : RequestType}
    (h : c.searchShared b t = .ok (true, c')) : t = .write → c'.Holds b := by
  intro ht
  obtain ⟨shared, hsearch, rfl⟩ := searchShared_eq_ok h
  obtain ⟨-, -, -, -, hdirty, -⟩ := search_spec hsearch fun e he => by simp_all
  exact .inr (.inl (hdirty rfl ht))

theorem hitsL1_of_miss {b : UInt64} {t : RequestType} (h : c.searchL1 b t = .ok (false, c')) :
    c.hitsL1 cfg b = false := by
  obtain ⟨l1, hsearch, -⟩ := searchL1_eq_ok h
  obtain ⟨-, -, -, -, -, hmiss⟩ := search_spec hsearch (by simp)
  unfold hitsL1
  rw [Bool.and_eq_false_iff, List.any_eq_false]
  exact .inr fun e he => by simpa using (hmiss rfl).2 e he

/-! ### The issue -/

/-- A request that goes to the controller is conserved when the controller takes it. -/
theorem issueMiss_passage {goesOn : Bool} (hserving : c.Serving req ref)
    (hw : req.type = .write → w.written req.blockAddr)
    (h : c.issueMiss cfg req = .ok (goesOn, c')) :
    Passage cfg w (c.waitQueueFull cfg = false) c c' := by
  obtain ⟨c₁, hload, h⟩ := Outcome.bind_eq_ok.mp h
  have hframe := loadIns_frame hserving hload
  have hserving₁ := hframe.serving req ref hserving
  by_cases hfull : cfg.crtlQueueMax - 1 < (c₁.world.mctrl.waitQueue.length : Int)
  · -- The controller refuses the request.
    have hadd : c₁.addToMctrl cfg req = (false, c₁) := by
      unfold addToMctrl Controller.addToMctrl
      rw [if_pos hfull]
    simp only [hadd] at h
    cases h
    refine ⟨hframe.effects.trans (.trans (note_effects (a := .refused req) rfl) ?_), ?_, ?_⟩
    · exact effects_of_eq rfl rfl rfl rfl rfl id rfl
    · exact hserving₁.paired
    · intro hroom
      rw [hframe.world] at hfull
      exact absurd hfull (by simpa [waitQueueFull] using hroom)
  · have hadd : c₁.addToMctrl cfg req = (true, c₁.withWaiting req) := by
      unfold addToMctrl Controller.addToMctrl
      rw [if_neg hfull]
      rfl
    have hsend : Effects cfg w c₁ (c₁.addToMctrl cfg req).2 := Effect.send.effects
    rw [hadd] at hsend
    simp only [hadd] at h
    obtain ⟨c₂, hnew, heq⟩ := Outcome.bind_eq_ok.mp h
    cases heq
    refine (movesOn [.loaded ref, .sent req]
      (hframe.effects.trans (hsend.trans (note_effects (a := .sent req) rfl))) ?_ (by simp)
      hserving₁ ?_ (fun _ hr => hframe.retry.trans hr) (fun _ => .inr ⟨rfl, rfl⟩) hnew).always
    · show c₁.acts ++ [Act.sent req] = _
      rw [hframe.acts, List.append_assoc]
      rfl
    · intro htype
      refine ⟨hw htype, .inl (.inr (.inr (.inr ⟨req, ?_, ?_, rfl⟩)))⟩
      · show req ∈ c₁.world.mctrl.waitQueue ++ [req]
        simp
      · simp [ProcRequest.writes, htype]

/-- A request of a block of the window. A write leaves nothing behind, and is passed over. -/
theorem issueMerged_passage {ins : Instruction} {goesOn : Bool} (hserving : c.Serving req ref)
    (hins : c.proc.currIns = some ins)
    (hw : req.type = .write → w.written req.blockAddr ∧ w.unserved req.blockAddr)
    (h : c.issueMerged req ins = .ok (goesOn, c')) :
    Passage cfg w True c c' := by
  simp only [issueMerged, Outcome.bind_eq_ok] at h
  obtain ⟨insW, -, c₁, hnew, heq⟩ := h
  cases heq
  have hreq := hserving.1
  let ready := c.proc.insW.getReadyinfo req.blockAddr
  let merged : Core := { c with proc := { c.proc with
    currIns := some { ins with servedCycle := c.proc.cycle, ready := ready }, insW := insW } }
  have hmerged : Frame [] c merged := by
    refine ⟨rfl, rfl, rfl, ?_, rfl, by simp [merged], by simp⟩
    rintro req' ref' ⟨hreq', hmem', ins', hins', hparse', href'⟩
    rw [hins] at hins'
    cases hins'
    exact ⟨hreq', hmem', _, rfl, hparse', href'⟩
  have hframe := hmerged.trans ((frame_note (a := .windowHit ins) rfl).trans
    (frame_note (c := merged.note (.windowHit ins)) (a := .loaded ins.ref) rfl))
  exact movesOn _ hframe.effects hframe.acts (by simp) (hframe.serving req ref hserving)
    (fun ht => (hw ht).imp_right .inr) (fun _ hr => hframe.retry.trans hr)
    (fun _ => .inl ⟨.windowHit ins, by simp, rfl⟩) hnew

/-- The processor moves on from a request that hits a cache. -/
theorem hit_passage {c₁ c₂ : Core} {hit : Act} (heffects : Effects cfg w c c₁) (haside : Aside c c₁)
    (hserving : c₁.Serving req ref) (hw : req.type = .write → w.written req.blockAddr)
    (hholds : req.type = .write → c₁.Holds req.blockAddr) (hact : hit.hit = true)
    (hframe : Frame [hit, .loaded ref] c₁ c₂)
    (hnew : c₂.handleNewRequest = .ok c') : Passage cfg w True c c' := by
  obtain ⟨as, has, hidle⟩ := haside.acts
  refine movesOn (as ++ [hit, .loaded ref]) (heffects.trans hframe.effects) ?_ ?_
    (hframe.serving req ref hserving) (fun ht => ⟨hw ht, .inl (hframe.holds (hholds ht))⟩)
    (fun _ hr => hframe.retry.trans (haside.retry.trans hr))
    (fun _ => .inl ⟨hit, by simp, hact⟩) hnew
  · rw [hframe.acts, has, List.append_assoc]
  · intro i hi
    rcases List.mem_append.mp hi with hi | hi
    · exact absurd (hidle _ hi) (by simp [Act.issues])
    · exact absurd (hframe.quiet _ hi) (by simp [Act.quiet])

/-- A request that misses the first-level cache. -/
theorem issueShared_passage {ins : Instruction} {goesOn : Bool} (hserving : c.Serving req ref)
    (hw : req.type = .write → w.written req.blockAddr)
    (h : c.issueShared cfg req ins = .ok (goesOn, c')) :
    Passage cfg w (c.registersFull cfg req = true ∨ c.hitsShared cfg req.blockAddr = true ∨
      c.waitQueueFull cfg = false) c c' := by
  unfold issueShared at h
  rcases addToMshr_cases cfg c req with ⟨hfull, hadd⟩ | ⟨hroom, mshr, hadd⟩
  · -- The registers refuse the request, and the processor tries again later.
    simp only [hadd] at h
    cases h
    have haside : Aside c (c.note (.mshrRefused req)) := aside_note rfl
    refine ⟨(note_effects (a := .mshrRefused req) rfl).trans ?_, hserving.paired, fun _ => ?_⟩
    · exact effects_of_eq rfl rfl rfl rfl rfl id rfl
    · exact haside.conserving
  · simp only [hadd, Bool.not_true, if_false, Bool.false_eq_true] at h
    have hframe := withMshr_frame (c := c) mshr
    have haside : Aside c (c.withMshr mshr) := ⟨rfl, rfl, rfl, [], hframe.acts, by simp⟩
    have hserving₁ := hframe.serving req ref hserving
    by_cases hshared : cfg.sharedCache = true
    · rw [if_pos hshared] at h
      obtain ⟨⟨hit, c₂⟩, hsearch, h⟩ := Outcome.bind_eq_ok.mp h
      have heffects : Effects cfg w c c₂ :=
        hframe.effects.trans (Effect.searchShared hsearch).effects
      obtain ⟨shared, -, rfl⟩ := searchShared_eq_ok hsearch
      have haside₂ := haside.trans (withShared_aside shared)
      cases hit with
      | true =>
        -- the shared cache has the block, which is queued for the first-level cache
        simp only [if_true, Outcome.bind_eq_ok] at h
        obtain ⟨c₃, hcache, c₄, hnew, heq⟩ := h
        cases heq
        have hnote := frame_note (c := (c.withMshr mshr).withShared shared)
          (a := .sharedHit ins) rfl
        exact (hit_passage heffects haside₂ hserving₁ hw (searchShared_holds hsearch) rfl
          (hnote.trans (addToCache_frame (hnote.serving req ref hserving₁) hcache)) hnew).always
      | false =>
        -- both caches miss: the request goes to the controller
        have hmiss : c.hitsShared cfg req.blockAddr = false :=
          hitsShared_of_miss (c := c.withMshr mshr) hsearch
        refine (haside₂.passage heffects hserving.paired).always.trans
          ((issueMiss_passage (c := (c.withMshr mshr).withShared shared) hserving₁ hw h).mono
            fun hok => ?_)
        rcases hok with hok | hok | hok
        · exact absurd hok (by simp [hroom])
        · exact absurd hok (by simp [hmiss])
        · exact hok
    · rw [if_neg hshared] at h
      refine (haside.passage hframe.effects hserving.paired).always.trans
        ((issueMiss_passage hserving₁ hw h).mono fun hok => ?_)
      rcases hok with hok | hok | hok
      · exact absurd hok (by simp [hroom])
      · exact absurd hok (by simp [hitsShared, hshared])
      · exact hok

/-- **The issue of the current request.** -/
theorem issue_passage {goesOn : Bool} (hserving : c.Serving req ref)
    (hwaives : req.type = .write → c.proc.insW.full = false → w.written req.blockAddr ∧
      (c.proc.insW.ifExist req.blockAddr = true → w.unserved req.blockAddr))
    (h : c.issue cfg = .ok (goesOn, c')) :
    Passage cfg w (c.proc.insW.full = true ∨ c.keepsIssue cfg req = true) c c' := by
  unfold issue at h
  by_cases hfull : c.proc.insW.full = true
  · rw [if_pos hfull] at h
    -- a full window takes nothing in this cycle
    cases h
    exact ⟨.refl, hserving.paired, fun _ => Aside.refl.conserving⟩
  rw [if_neg hfull] at h
  replace hwaives := fun ht => hwaives ht (Bool.eq_false_iff.mpr hfull)
  have hw : req.type = .write → w.written req.blockAddr := fun ht => (hwaives ht).1
  simp only [Outcome.bind_eq_ok, theReq_eq_ok, theIns_eq_ok] at h
  obtain ⟨req', hreq', ins, hins, h⟩ := h
  obtain rfl : req = req' := Option.some.inj (hserving.1.symm.trans hreq')
  by_cases hwindow : c.proc.insW.ifExist req.blockAddr = true
  · rw [if_pos hwindow] at h
    -- a request of the window is of the same block
    exact (issueMerged_passage hserving hins (fun ht => ⟨hw ht, (hwaives ht).2 hwindow⟩) h).always
  rw [if_neg hwindow] at h
  by_cases huse : cfg.useCache = true
  · rw [if_pos huse] at h
    obtain ⟨⟨hit, c₁⟩, hsearch, h⟩ := Outcome.bind_eq_ok.mp h
    have heffects : Effects cfg w c c₁ := (Effect.searchL1 hsearch).effects
    obtain ⟨l1, -, rfl⟩ := searchL1_eq_ok hsearch
    cases hit with
    | true =>
      -- the first-level cache has the block
      simp only [if_true, Outcome.bind_eq_ok] at h
      obtain ⟨c₂, hload, c₃, hnew, heq⟩ := h
      cases heq
      have hnote := frame_note (c := c.withL1 l1) (a := .l1Hit ins) rfl
      exact (hit_passage heffects (withL1_aside l1) hserving hw (searchL1_holds hsearch) rfl
        (hnote.trans (loadIns_frame (hnote.serving req ref hserving) hload)) hnew).always
    | false =>
      have hmiss : c.hitsL1 cfg req.blockAddr = false := hitsL1_of_miss hsearch
      refine ((withL1_aside l1).passage heffects hserving.paired).always.trans
        ((issueShared_passage (c := c.withL1 l1) hserving hw h).mono fun hok => ?_)
      show c.registersFull cfg req = true ∨ c.hitsShared cfg req.blockAddr = true ∨
        c.waitQueueFull cfg = false
      simpa [keepsIssue, hfull, hwindow, hmiss, huse, or_assoc] using hok
  · -- without caches every request goes to the controller
    rw [if_neg huse] at h
    refine (issueMiss_passage hserving hw h).mono fun hok => ?_
    simpa [keepsIssue, hfull, hwindow, hitsL1, hitsShared, huse] using hok

/-! ### The retry -/

/-- A request that is retried. It is given up when it misses the shared cache: the source does not
send it. -/
theorem handleLastReq_spec {miss : Bool} (hserving : c.Serving req ref)
    (h : c.handleLastReq cfg req = .ok (miss, c')) :
    Effects cfg w c c' ∧ c'.Serving req ref ∧ c'.proc.mctrlRetry = c.proc.mctrlRetry ∧
      ((miss = true ∧ c.hitsShared cfg req.blockAddr = false ∧ c'.proc.mshr = c.proc.mshr ∧
        c'.acts = c.acts ++ [.loaded ref]) ∨
      miss = false ∧ (req.type = .write → c'.Holds req.blockAddr) ∧
        ∃ ins, c'.acts = c.acts ++ [.sharedHit ins, .loaded ref]) := by
  unfold handleLastReq at h
  by_cases huse : (cfg.useCache && cfg.sharedCache) = true
  · rw [if_pos huse] at h
    obtain ⟨⟨hit, c₁⟩, hsearch, h⟩ := Outcome.bind_eq_ok.mp h
    have heffects : Effects cfg w c c₁ := (Effect.searchShared hsearch).effects
    obtain ⟨shared, -, rfl⟩ := searchShared_eq_ok hsearch
    cases hit with
    | true =>
      -- the shared cache has the block by now
      simp only [if_true, Outcome.bind_eq_ok, theReq_eq_ok] at h
      obtain ⟨curr, hcurr, ins, -, c₂, hcache, heq⟩ := h
      cases heq
      obtain rfl : req = curr := Option.some.inj (hserving.1.symm.trans hcurr)
      have hnote := frame_note (c := c.withShared shared) (a := .sharedHit ins) rfl
      have hframe := hnote.trans (addToCache_frame (hnote.serving req ref hserving) hcache)
      refine ⟨heffects.trans hframe.effects, hframe.serving req ref hserving, hframe.retry, ?_⟩
      exact .inr ⟨rfl, fun ht => hframe.holds (searchShared_holds hsearch ht), ins, hframe.acts⟩
    | false =>
      -- it misses again, and the instruction is loaded a second time
      obtain ⟨c₂, hload, heq⟩ := Outcome.bind_eq_ok.mp h
      cases heq
      have hframe := loadIns_frame (c := c.withShared shared) hserving hload
      refine ⟨heffects.trans hframe.effects, hframe.serving req ref hserving, hframe.retry, ?_⟩
      exact .inl ⟨rfl, hitsShared_of_miss hsearch, loadIns_mshr (c := c.withShared shared) hload,
        hframe.acts⟩
  · -- without a shared cache every retry misses
    rw [if_neg huse, pure_bind] at h
    dsimp only at h
    rw [if_neg Bool.false_ne_true] at h
    obtain ⟨c₂, hload, heq⟩ := Outcome.bind_eq_ok.mp h
    cases heq
    have hframe := loadIns_frame hserving hload
    refine ⟨hframe.effects, hframe.serving req ref hserving, hframe.retry, ?_⟩
    exact .inl ⟨rfl, by simp [hitsShared, huse], loadIns_mshr hload, hframe.acts⟩

/-- What a retry comes to: the processor waits, or can move on. -/
inductive Retried (cfg : Config) (w : Waiver) (ok : Prop) (c : Core) : Bool → Core → Prop
  | waits {c' : Core} (h : Passage cfg w ok c c') : Retried cfg w ok c false c'
  | served {c' : Core} (req : ProcRequest) (ref : ℕ) (as : List Act) (heffects : Effects cfg w c c')
      (hacts : c'.acts = c.acts ++ as) (hmoved : ∀ i, .movedOn i ∉ as)
      (hserving : c'.Serving req ref) (hsec : req.type = .write → c'.Secured w req.blockAddr)
      (hretry : ok → c.proc.mctrlRetry = false → c'.proc.mctrlRetry = false)
      (hserves : ok → (∃ a ∈ as, a.hit = true) ∨ loads as = [ref] ∧ sends as = [req]) :
      Retried cfg w ok c true c'

/-- The retry behind the miss registers. -/
theorem retryMctrl_spec {processed : Bool} (hserving : c.Serving req ref)
    (hwaives : req.type = .write → w.written req.blockAddr ∧
      (c.registersFull cfg req = false → c.hitsShared cfg req.blockAddr = false →
        w.unserved req.blockAddr))
    (h : c.retryMctrl cfg req = .ok (processed, c')) :
    Retried cfg w (c.hitsShared cfg req.blockAddr = true) c processed c' := by
  obtain ⟨⟨miss, c₁⟩, hlast, h⟩ := Outcome.bind_eq_ok.mp h
  obtain ⟨heffects, hserving₁, hretry, hcase⟩ := handleLastReq_spec (w := w) hserving hlast
  rcases hcase with ⟨rfl, hmiss, hmshr, hacts⟩ | ⟨rfl, hholds, ins, hacts⟩
  · -- The request misses the shared cache, and is registered a second time instead of sent.
    have hlost : ¬ c.hitsShared cfg req.blockAddr = true := by
      intro hhit
      exact absurd (hmiss.symm.trans hhit) (by simp)
    let c₂ : Core := { c₁ with proc := { c₁.proc with mctrlRetry := true } }
    have hflag : Effects cfg w c₁ c₂ := effects_of_eq rfl rfl rfl rfl rfl id rfl
    have hsecond : Effects cfg w c (c₂.note (.unsent req)) :=
      heffects.trans (hflag.trans (note_effects rfl))
    dsimp only at h
    rw [if_pos rfl] at h
    rcases addToMshr_cases cfg (c₂.note (.unsent req)) req with ⟨-, hadd⟩ | ⟨hroom, mshr, hadd⟩
    · rw [hadd] at h
      cases h
      refine .waits ⟨hsecond.trans (note_effects rfl), hserving₁.paired, fun hhit => ?_⟩
      exact (hlost hhit).elim
    · rw [hadd] at h
      cases h
      refine .served req ref [.loaded ref, .unsent req]
        (hsecond.trans (effects_of_eq rfl rfl rfl rfl rfl id rfl)) ?_ (by simp) hserving₁ ?_
        (fun hhit => (hlost hhit).elim) fun hhit => (hlost hhit).elim
      · show c₁.acts ++ [Act.unsent req] = _
        rw [hacts, List.append_assoc]
        rfl
      · intro htype
        have hroom' : c.registersFull cfg req = false := by
          unfold registersFull at hroom ⊢
          rw [← hmshr]
          exact hroom
        exact ⟨(hwaives htype).1, .inr ((hwaives htype).2 hroom' hmiss)⟩
  · -- The request hits the shared cache, and is served.
    cases h
    refine .served req ref _
      (heffects.trans (effects_of_eq rfl rfl rfl rfl rfl id rfl)) hacts (by simp) hserving₁
      (fun ht => ⟨(hwaives ht).1, .inl (hholds ht)⟩)
      (fun _ _ => rfl) fun _ => .inl ⟨.sharedHit ins, by simp, rfl⟩

theorem Retried.mono {ok ok' : Prop} {processed : Bool} (h : Retried cfg w ok c processed c')
    (hok : ok' → ok) : Retried cfg w ok' c processed c' := by
  cases h with
  | waits h => exact .waits (h.mono hok)
  | served req ref as heffects hacts hmoved hserving hsec hretry hserves =>
    exact .served req ref as heffects hacts hmoved hserving hsec (fun ho => hretry (hok ho))
      fun ho => hserves (hok ho)

/-- **The retry of the current request.** -/
theorem handleLast_spec {processed : Bool} (hserving : c.Serving req ref)
    (hwaives : req.type = .write → w.written req.blockAddr ∧
      (c.registersFull cfg req = false → c.hitsShared cfg req.blockAddr = false →
        w.unserved req.blockAddr))
    (h : c.handleLast cfg = .ok (processed, c')) :
    Retried cfg w (c.keepsRetry cfg req = true) c processed c' := by
  obtain ⟨req', hreq', h⟩ := Outcome.bind_eq_ok.mp h
  obtain rfl : req = req' := Option.some.inj (hserving.1.symm.trans (theReq_eq_ok.mp hreq'))
  rw [if_neg (by simp [hserving.2.1])] at h
  by_cases hretry : c.proc.mshrRetry = true
  · rw [if_pos hretry] at h
    rcases addToMshr_cases cfg c req with ⟨-, hadd⟩ | ⟨hroom, mshr, hadd⟩
    · -- The registers refuse the request again.
      rw [hadd] at h
      cases h
      have haside : Aside c (c.note (.mshrRefused req)) := aside_note rfl
      exact .waits ((haside.passage (note_effects rfl) hserving.paired).always)
    · -- The registers take the request, and the retry goes on behind them.
      rw [hadd] at h
      let c₁ : Core := { c.withMshr mshr with
        proc := { (c.withMshr mshr).proc with mshrRetry := false } }
      have hfirst : Effects cfg w c c₁ := effects_of_eq rfl rfl rfl rfl rfl id rfl
      have haside : Aside c c₁ := ⟨rfl, rfl, rfl, [], by simp [c₁, withMshr], by simp⟩
      have hok : c.keepsRetry cfg req = true → c₁.hitsShared cfg req.blockAddr = true := by
        intro hkeeps
        have hhit : c.hitsShared cfg req.blockAddr = true := by
          simpa [keepsRetry, hroom] using hkeeps
        exact hhit
      have hwaives₁ : req.type = .write → w.written req.blockAddr ∧
          (c₁.registersFull cfg req = false → c₁.hitsShared cfg req.blockAddr = false →
            w.unserved req.blockAddr) :=
        fun ht => ⟨(hwaives ht).1, fun _ hmiss => (hwaives ht).2 hroom hmiss⟩
      cases (retryMctrl_spec (c := c₁) hserving hwaives₁ h).mono hok with
      | waits h =>
        exact .waits ((haside.passage hfirst hserving.paired).always.trans h)
      | served req ref as heffects hacts hmoved hserving' hsec hretry hserves =>
        exact .served req ref as (hfirst.trans heffects) hacts hmoved hserving' hsec hretry hserves
  · rw [if_neg hretry] at h
    apply (retryMctrl_spec hserving hwaives h).mono
    intro hkeeps
    simpa [keepsRetry, hretry] using hkeeps

/-! ### The cycle -/

/-- An instruction without a memory request is passed over. -/
theorem serve_nonMem (hpair : c.Paired) (hreq : c.proc.currReq = some req)
    (hmem : req.ifMem = false) (h : c.handleNewRequest = .ok c') : Passage cfg w True c c' := by
  rw [Paired, hreq] at hpair
  obtain ⟨ins, hins, hparse⟩ := Option.map_eq_some_iff.mp hpair.symm
  refine passesOver hins ?_ h
  rw [← hmem, ← hparse]
  rfl

/-- After a retry only an instruction without a memory request is passed over. -/
theorem serve_zero (hpair : c.Paired) (h : c.serve cfg 0 = .ok c') : Passage cfg w True c c' := by
  obtain ⟨req, hreq, h⟩ := Outcome.bind_eq_ok.mp h
  rw [theReq_eq_ok] at hreq
  by_cases hmem : req.ifMem = true
  · rw [if_pos hmem] at h
    cases h
    exact Aside.refl.passage .refl hpair
  · rw [if_neg hmem] at h
    exact serve_nonMem hpair hreq (by simpa using hmem) h

theorem serve_one (hpair : c.Paired) (hwaives : c.WaivesWrite cfg w)
    (hretry : (c.proc.mshrRetry || c.proc.mctrlRetry) = false)
    (h : c.serve cfg 1 = .ok c') : Passage cfg w (c.keepsUp cfg = true) c c' := by
  obtain ⟨req, hreq, h⟩ := Outcome.bind_eq_ok.mp h
  rw [theReq_eq_ok] at hreq
  by_cases hmem : req.ifMem = true
  · rw [if_pos hmem] at h
    obtain ⟨ref, hserving⟩ := hpair.serving hreq hmem
    obtain ⟨⟨goesOn, c₁⟩, hissue, h⟩ := Outcome.bind_eq_ok.mp h
    have hend : c₁ = c' := by
      cases goesOn <;> cases h <;> rfl
    subst hend
    have hissues : req.type = .write → c.proc.insW.full = false → w.written req.blockAddr ∧
        (c.proc.insW.ifExist req.blockAddr = true → w.unserved req.blockAddr) := by
      intro ht hfull
      have hwrite := hwaives req hreq hmem ht hfull
      rw [skips, if_neg (by simp [hretry])] at hwrite
      exact hwrite
    apply (issue_passage hserving hissues hissue).mono
    intro hkeeps
    simpa [keepsUp, hreq, hmem, hretry] using hkeeps
  · rw [if_neg hmem] at h
    exact (serve_nonMem hpair hreq (by simpa using hmem) h).always

/-- **The cycle behind the write-back queue.** -/
theorem retryAndServe_passage (hpair : c.Paired) (hwaives : c.WaivesWrite cfg w)
    (h : c.retryAndServe cfg = .ok c') :
    Passage cfg w (c.keepsUp cfg = true) c c' := by
  unfold retryAndServe at h
  by_cases hretry : (c.proc.mshrRetry || c.proc.mctrlRetry) = true
  · rw [if_pos hretry] at h
    by_cases hfull : c.proc.insW.full = true
    · rw [if_pos hfull] at h
      -- a full window stops the retry
      cases h
      exact (Aside.refl.passage .refl hpair).always
    rw [if_neg hfull] at h
    obtain ⟨⟨processed, c₁⟩, hlast, h⟩ := Outcome.bind_eq_ok.mp h
    obtain ⟨req, hreq, hlast'⟩ := Outcome.bind_eq_ok.mp hlast
    rw [theReq_eq_ok] at hreq
    by_cases hmem : req.ifMem = true
    · obtain ⟨ref, hserving⟩ := hpair.serving hreq hmem
      have hok : c.keepsUp cfg = true → c.keepsRetry cfg req = true := by
        intro hkeeps
        simpa [keepsUp, hreq, hmem, hretry, hfull] using hkeeps
      have hretries : req.type = .write → w.written req.blockAddr ∧
          (c.registersFull cfg req = false → c.hitsShared cfg req.blockAddr = false →
            w.unserved req.blockAddr) := by
        intro ht
        have hwrite := hwaives req hreq hmem ht (Bool.eq_false_iff.mpr hfull)
        rw [skips, if_pos hretry] at hwrite
        exact ⟨hwrite.1, fun hroom hmiss => hwrite.2 (by simp [hroom, hmiss])⟩
      cases (handleLast_spec hserving hretries hlast).mono hok with
      | waits hwaits =>
        cases h
        exact hwaits
      | served req ref as heffects hacts hmoved hserving' hsec hkept hserves =>
        -- the processor moves on, and has no memory request left in this cycle
        obtain ⟨c₂, hnew, h⟩ := Outcome.bind_eq_ok.mp h
        have hfirst := movesOn as heffects hacts hmoved hserving' hsec hkept hserves hnew
        exact hfirst.trans (serve_zero hfirst.paired h).always
    · -- a current request without memory is not retried
      rw [if_pos (by simp [hmem])] at hlast'
      cases hlast'
      cases h
      exact (Aside.refl.passage .refl hpair).always
  · rw [if_neg hretry] at h
    exact serve_one hpair hwaives (by simpa using hretry) h

/-- The first instruction. -/
theorem start_passage (hpair : c.Paired) (h : c.start = .ok c') : Passage cfg w True c c' := by
  unfold start at h
  split_ifs at h with hnone
  · obtain ⟨⟨ins, c₁⟩, hget, heq⟩ := Outcome.bind_eq_ok.mp h
    cases heq
    obtain ⟨heffects, haside⟩ := getInsFromInsp_frame cfg w hget
    -- Without a current instruction there is no current request.
    have hreq : c₁.proc.currReq = none := by
      rw [haside.req]
      rw [Paired] at hpair
      cases hins : c.proc.currIns with
      | none => rw [hpair, hins, Option.map_none]
      | some i => simp [hpair, hins] at hnone
    refine ⟨heffects.trans (effects_of_eq rfl rfl rfl rfl rfl id rfl), ?_, fun _ => ?_⟩
    · show some ((c₁.proc.currReq.getD {}).parse ins) = some (parseIns ins)
      rw [hreq]
      rfl
    · exact haside.conserving
  · cases h
    exact Aside.refl.passage .refl hpair

/-- The first instruction leaves the caches and their queue as they are. -/
theorem start_caches (h : c.start = .ok c') : c'.proc.pid = c.proc.pid ∧
    c'.proc.cacheReqQueue = c.proc.cacheReqQueue ∧ c'.proc.l1Cache = c.proc.l1Cache ∧
      c'.proc.cycle = c.proc.cycle := by
  unfold start at h
  split_ifs at h
  · obtain ⟨⟨ins, c₁⟩, hget, heq⟩ := Outcome.bind_eq_ok.mp h
    cases heq
    obtain ⟨hpid, hqueue, hl1, hnow⟩ := getInsFromInsp_caches hget
    exact ⟨hpid, hqueue, hl1, hnow⟩
  · cases h
    exact ⟨rfl, rfl, rfl, rfl⟩

theorem nextPc_caches (cfg : Config) (c : Core) : (c.nextPc cfg).proc.pid = c.proc.pid ∧
    (c.nextPc cfg).proc.cacheReqQueue = c.proc.cacheReqQueue ∧
      (c.nextPc cfg).proc.l1Cache = c.proc.l1Cache ∧
        (c.nextPc cfg).proc.cycle = c.proc.cycle := by
  unfold nextPc
  split_ifs <;> exact ⟨rfl, rfl, rfl, rfl⟩

theorem nextPc_passage (hpair : c.Paired) : Passage cfg w True c (c.nextPc cfg) := by
  unfold nextPc
  split_ifs
  · exact Aside.passage ⟨rfl, rfl, rfl, [], by simp, by simp⟩
      (effects_of_eq rfl rfl rfl rfl rfl id rfl) hpair
  · exact Aside.refl.passage .refl hpair

theorem updateCache_passage (hpair : c.Paired) (hv : cfg.useCache = true →
    ∀ v ∈ cacheReqEvicted c.proc.pid c.proc.cacheReqQueue c.proc.l1Cache, w.dropped v)
    (h : c.updateCache cfg = .ok c') :
    Passage cfg w True c c' := by
  unfold updateCache at h
  split_ifs at h with huse
  · exact (handleCacheReq_aside h).passage (handleCacheReq_effects h (hv huse)) hpair
  · cases h
    exact Aside.refl.passage .refl hpair

theorem updateInsW_aside : Aside c (c.updateInsW cfg) := by
  unfold updateInsW
  split_ifs
  · exact .refl
  · exact ⟨rfl, rfl, rfl, [], by simp, by simp⟩

/-- **The cycle up to the write-back queue.** -/
theorem arrive_passage {goesOn : Bool} (hpair : c.Paired)
    (hv : ∀ v ∈ c.cacheEvicted cfg, w.dropped v)
    (h : c.arrive cfg = .ok (goesOn, c')) : Passage cfg w True c c' := by
  unfold arrive at h
  dsimp only at h
  by_cases hipc : cfg.ipc < 0
  · rw [if_pos hipc] at h
    cases h
  rw [if_neg hipc] at h
  obtain ⟨c₁, hstart, h⟩ := Outcome.bind_eq_ok.mp h
  have hcycle : Passage cfg w True c c.nextCycle :=
    Aside.passage ⟨rfl, rfl, rfl, [], by simp [nextCycle], by simp⟩
      (effects_of_eq rfl rfl rfl rfl rfl id rfl) hpair
  have hfirst := hcycle.trans (start_passage hcycle.paired hstart)
  have hpc : Passage cfg w True c (c₁.nextPc cfg) := hfirst.trans (nextPc_passage hfirst.paired)
  by_cases hend : (cfg.simType = .cycle && cfg.simCycle < (c₁.nextPc cfg).proc.cycle) = true
  · rw [if_pos hend] at h
    -- behind the last cycle of the simulation only the clock goes on
    cases h
    exact hpc
  rw [if_neg hend] at h
  obtain ⟨c₂, hcache, h⟩ := Outcome.bind_eq_ok.mp h
  -- The start of the cycle leaves the first-level cache and its queue as they are.
  obtain ⟨hpid, hqueue, hl1, hnow⟩ := start_caches hstart
  have hevicts : cfg.useCache = true → ∀ v ∈ cacheReqEvicted (c₁.nextPc cfg).proc.pid
      (c₁.nextPc cfg).proc.cacheReqQueue (c₁.nextPc cfg).proc.l1Cache, w.dropped v := by
    intro huse v hmem
    obtain ⟨hpid', hqueue', hl1', hnow'⟩ := nextPc_caches cfg c₁
    rw [hpid', hqueue', hl1', hpid, hqueue, hl1] at hmem
    rw [hnow', hnow] at hend
    apply hv
    rw [cacheEvicted, if_pos]
    · exact hmem
    · rw [huse, Bool.true_and, Bool.not_eq_true']
      exact Bool.eq_false_iff.mpr hend
  have hcaches := hpc.trans (updateCache_passage hpc.paired hevicts hcache)
  have hwindow : Passage cfg w True c (c₂.updateInsW cfg) :=
    hcaches.trans (updateInsW_aside.passage updateInsW_effects hcaches.paired)
  by_cases hback : (cfg.writeback && !(c₂.updateInsW cfg).proc.writebackReq.isEmpty) = true
  · rw [if_pos hback] at h
    -- a write-back takes the rest of the cycle
    cases h
    exact hwindow.trans (writeBackOne_aside.passage Effect.writeBack.effects hwindow.paired)
  · rw [if_neg hback] at h
    cases h
    exact hwindow

/-- **A cycle** is a sequence of effects, and serves the instructions it moves on from as long as it
keeps up with the requests. -/
theorem step_passage (hpair : c.Paired) (hwaives : c.Waives cfg w) (h : c.step cfg = .ok c') :
    Passage cfg w (∀ c₁, c.arrive cfg = .ok (true, c₁) → c₁.keepsUp cfg = true) c c' := by
  obtain ⟨⟨goesOn, c₁⟩, harrive, h⟩ := Outcome.bind_eq_ok.mp h
  have hfirst := arrive_passage hpair hwaives.fills harrive
  cases goesOn with
  | false =>
    cases h
    exact hfirst.always
  | true =>
    exact hfirst.always.trans
      ((retryAndServe_passage hfirst.paired (hwaives.write c₁ harrive) h).mono
        fun hok => hok c₁ harrive)

end PIMSim.Core
