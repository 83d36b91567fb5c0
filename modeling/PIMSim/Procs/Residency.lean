import PIMSim.Procs.Issue

/-!
# Which blocks the caches hold

A block stays where it is unless a line is added or removed. A cycle of a processor adds blocks to
its first-level cache only for the requests that wait for the cache's latency, and takes none from
the shared cache. A callback adds its block to both caches, where a line leaves the shared one.

## Main definitions

* `Core.Retains`: the first-level cache holds no new block, and the shared cache all it held
* `Core.Fills`: what a callback moves that misses the shared cache

## Main results

* `CacheArray.present_remove`: what a removal leaves of a cache
* `Core.step_resides`: a cycle
* `Core.callback_hit`, `Core.callback_miss`: a callback
-/

namespace PIMSim

open CSharp CacheArray FirstMatch

namespace CacheArray

variable {c c' c'' : CacheArray} {b x : UInt64}

theorem present_congr (hlines : c'.lines = c.lines) (hmax : c'.maxSet = c.maxSet) :
    Present c' x ↔ Present c x := by
  unfold Present
  rw [hlines, hmax]

theorem distinct_congr (hlines : c'.lines = c.lines) (h : Distinct c) : Distinct c' := by
  unfold Distinct
  rw [hlines]
  exact h

/-- A search moves no block. -/
theorem search_present {hit : CacheEntity → Bool} {t : RequestType} {r : Bool}
    (h : c.search hit b t = .ok (r, c')) (x : UInt64) : Present c' x ↔ Present c x := by
  obtain ⟨i, hi, h⟩ := Outcome.bind_eq_ok.mp h
  have hi : i = b.toNat % c.maxSet := index_eq_ok hi
  subst hi
  split_ifs at h with hany
  · cases h
    unfold Present
    rw [setWays_maxSet, setWays_lines]
    split_ifs with hset
    · constructor
      · rintro ⟨e, he, heb⟩
        rcases mem_update he with he | ⟨f, hf, -, rfl⟩
        · exact ⟨e, hset ▸ he, heb⟩
        · exact ⟨f, hset ▸ hf, heb⟩
      · rintro ⟨e, he, heb⟩
        rcases mem_or_mem_update (hset ▸ he) with he | ⟨-, he⟩
        · exact ⟨e, he, heb⟩
        · exact ⟨_, he, heb⟩
    · exact Iff.rfl
  · cases h
    exact Iff.rfl

/-- A fill of a first-level cache adds its block only. -/
theorem add_present {t : RequestType} {pid : Int} {v : UInt64}
    (h : Cache.add c b t pid = .ok (v, c')) (hx : Present c' x) : x = b ∨ Present c x := by
  obtain ⟨i, hi, h⟩ := Outcome.bind_eq_ok.mp h
  have hi : i = b.toNat % c.maxSet := index_eq_ok hi
  subst hi
  dsimp only at h
  split at h
  · cases h
  split at h
  · cases h
  cases h
  unfold Present at hx ⊢
  rw [setWays_maxSet, setWays_lines] at hx
  split_ifs at hx with hset
  · obtain ⟨e, he, heb⟩ := hx
    rcases List.mem_or_eq_of_mem_set he with he | rfl
    · exact .inr ⟨e, hset ▸ he, heb⟩
    · exact .inl heb.symm
  · exact .inr hx

/-- A fill of the shared cache keeps all blocks but that of the line that leaves. -/
theorem addShared_present {t : RequestType} {pid : Int} {v : UInt64} (hmarked : Marked c)
    (h : SharedCache.add c b t pid = .ok (v, c')) (hx : x ≠ NULL) (hpresent : Present c x) :
    Present c' x ∨ ∃ e, SharedCache.leaving c b = some e ∧ e.blockAddr = x ∧
      v = if e.dirty then x else NULL := by
  obtain ⟨pre, e, post, hways, rfl, he⟩ := SharedCache.add_eq_ok h hmarked
  by_cases hex : e.blockAddr = x
  · rcases he with hnull | ⟨hleaving, hv⟩
    · exact absurd (hex.symm.trans hnull) hx
    · exact .inr ⟨e, hleaving, hex, by rw [hv, hex]⟩
  · left
    obtain ⟨f, hf, hfx⟩ := hpresent
    unfold Present
    rw [setWays_maxSet, setWays_lines]
    split_ifs with hset
    · have hf' : f ∈ pre ++ e :: post := hways ▸ hset ▸ hf
      rcases List.mem_append.mp hf' with hpre | hpost
      · exact ⟨f, List.mem_append_left _ hpre, hfx⟩
      · rcases List.mem_cons.mp hpost with rfl | hpost
        · exact absurd hfx hex
        · obtain ⟨g, hg, heq⟩ := SharedCache.mem_shift e b (decide (t = .write)) pid hpost
          exact ⟨g, List.mem_append_right _ hg, (congrArg Prod.fst heq).trans hfx⟩
    · exact ⟨f, hf, hfx⟩

/-- The added block has the valid bit. -/
theorem addShared_valid {t : RequestType} {pid : Int} {v : UInt64} (hmarked : Marked c)
    (h : SharedCache.add c b t pid = .ok (v, c')) :
    ∃ e ∈ c'.lines (b.toNat % c'.maxSet), e.blockAddr = b ∧ e.valid = true := by
  obtain ⟨pre, e, post, -, rfl, -⟩ := SharedCache.add_eq_ok h hmarked
  have hmem : (b, decide (t = .write), true) ∈
      (SharedCache.shift false b (decide (t = .write)) pid (e :: post)).map SharedCache.held := by
    rw [SharedCache.map_held_shift]
    exact List.mem_append_right _ (List.mem_singleton_self _)
  obtain ⟨g, hg, heq⟩ := List.mem_map.mp hmem
  rw [setWays_maxSet, setWays_lines, if_pos rfl]
  exact ⟨g, List.mem_append_right pre hg, congrArg Prod.fst heq, congrArg (·.2.2) heq⟩

/-- **A removal** takes the line of the block, and no other. -/
theorem present_remove {r : Bool} (hdis : Distinct c) (h : c.remove b = .ok (r, c'))
    (hx : x ≠ NULL) : Present c' x ↔ Present c x ∧ x ≠ b := by
  simp only [remove, Outcome.bind_eq_ok] at h
  obtain ⟨i, hi, h⟩ := h
  have hi : i = b.toNat % c.maxSet := index_eq_ok hi
  subst hi
  split_ifs at h with hany
  · cases h
    by_cases hset : x.toNat % c.maxSet = b.toNat % c.maxSet
    · unfold Present
      rw [setWays_maxSet, setWays_lines, if_pos hset]
      constructor
      · rintro ⟨e, he, rfl⟩
        refine ⟨?_, fun heb => ?_⟩
        · rcases mem_update he with he | ⟨f, -, -, rfl⟩
          · exact ⟨e, by rw [hset]; exact he, rfl⟩
          · exact absurd rfl hx
        · -- No line of the block is left.
          have hone : (c.lines (b.toNat % c.maxSet)).Pairwise fun e f =>
              decide (e.blockAddr = b) = true → decide (f.blockAddr = b) = false := by
            apply (hdis _).imp
            intro f g hfg hf
            rw [decide_eq_true_eq] at hf
            rw [decide_eq_false_iff_not]
            intro hg
            exact hx (heb.trans (hf ▸ hfg (hf.trans hg.symm)))
          have hclear := update_clears (f := fun e : CacheEntity =>
            { e with blockAddr := NULL, dirty := false, pid := 0, timestamp := 0 }) hone
            (fun f => by simpa using fun hnull : NULL = b => hx (heb.trans hnull.symm)) e he
          exact absurd heb (by simpa using hclear)
      · rintro ⟨⟨e, he, rfl⟩, hne⟩
        rw [hset] at he
        exact ⟨e, mem_update_of_not he (by simpa using hne), rfl⟩
    · unfold Present
      rw [setWays_maxSet, setWays_lines, if_neg hset]
      exact ⟨fun hp => ⟨hp, fun hxb => hset (by rw [hxb])⟩, And.left⟩
  · cases h
    refine ⟨fun hp => ⟨hp, ?_⟩, And.left⟩
    rintro rfl
    obtain ⟨e, he, heb⟩ := hp
    exact hany (List.any_eq_true.mpr ⟨e, he, by simpa using heb⟩)

end CacheArray

namespace Core

variable {cfg : Config} {c c' c'' : Core} {b x : UInt64}

/-! ### A cycle -/

/-- The first-level cache holds no new block, and the shared cache all that it held. -/
structure Retains (c c' : Core) : Prop where
  l1 : ∀ x, Present c'.proc.l1Cache x → Present c.proc.l1Cache x
  shared : ∀ x, Present c.world.sharedCache x → Present c'.world.sharedCache x

theorem Retains.refl : Retains c c := ⟨fun _ => id, fun _ => id⟩

theorem Retains.trans (h : Retains c c') (h' : Retains c' c'') : Retains c c'' :=
  ⟨fun x hx => h.l1 x (h'.l1 x hx), fun x hx => h'.shared x (h.shared x hx)⟩

/-- Changes outside the caches. -/
theorem retains_of_eq (hl1 : c'.proc.l1Cache = c.proc.l1Cache)
    (hshared : c'.world.sharedCache = c.world.sharedCache) : Retains c c' := by
  constructor
  · rw [hl1]
    exact fun _ => id
  · rw [hshared]
    exact fun _ => id

theorem searchL1_retains {t : RequestType} {hit : Bool} (h : c.searchL1 b t = .ok (hit, c')) :
    Retains c c' := by
  obtain ⟨l1, hsearch, rfl⟩ := searchL1_eq_ok h
  exact ⟨fun x => (search_present hsearch x).mp, fun _ => id⟩

theorem searchShared_retains {t : RequestType} {hit : Bool}
    (h : c.searchShared b t = .ok (hit, c')) : Retains c c' := by
  obtain ⟨shared, hsearch, rfl⟩ := searchShared_eq_ok h
  exact ⟨fun _ => id, fun x => (search_present hsearch x).mpr⟩

theorem scanPage_retains {addr res : UInt64} (h : c.scanPage addr = .ok (res, c')) :
    Retains c c' := by
  obtain ⟨⟨r, tlb⟩, -, heq⟩ := Outcome.bind_eq_ok.mp h
  cases heq
  exact retains_of_eq rfl rfl

theorem addToMctrl_retains (cfg : Config) (c : Core) (req : ProcRequest) :
    Retains c (c.addToMctrl cfg req).2 :=
  retains_of_eq rfl rfl

theorem loadIns_retains {ready : Bool} (h : c.loadIns ready = .ok c') : Retains c c' := by
  obtain ⟨ins, -, heq⟩ := Outcome.bind_eq_ok.mp h
  cases heq
  exact retains_of_eq rfl rfl

theorem addToCache_retains {req : ProcRequest} {ifShared : Bool}
    (h : c.addToCache cfg req ifShared = .ok c') : Retains c c' := by
  unfold addToCache at h
  refine .trans ?_ (loadIns_retains h)
  exact retains_of_eq rfl rfl

theorem getInsFromInsp_retains {ins : Instruction} (h : c.getInsFromInsp = .ok (ins, c')) :
    Retains c c' := by
  unfold getInsFromInsp at h
  split at h
  · next ins' _ =>
    dsimp only at h
    by_cases hmem : ins'.isMem = true
    · rw [if_pos hmem] at h
      obtain ⟨⟨b, c₁⟩, hscan, heq⟩ := Outcome.bind_eq_ok.mp h
      cases heq
      refine .trans ?_ (scanPage_retains hscan)
      exact retains_of_eq rfl rfl
    · rw [if_neg hmem] at h
      cases h
      exact retains_of_eq rfl rfl
  · simp only [Outcome.bind_eq_ok] at h
    obtain ⟨ins', -, ⟨b, c₁⟩, hscan, heq⟩ := h
    cases heq
    refine .trans ?_ (scanPage_retains hscan)
    exact retains_of_eq rfl rfl
  · cases h

theorem handleNewRequest_retains (h : c.handleNewRequest = .ok c') : Retains c c' := by
  obtain ⟨⟨ins, c₂⟩, hget, heq⟩ := Outcome.bind_eq_ok.mp h
  cases heq
  refine .trans ?_ ((getInsFromInsp_retains hget).trans (retains_of_eq rfl rfl))
  cases c.proc.currIns <;> exact retains_of_eq rfl rfl

theorem issueMiss_retains {req : ProcRequest} {goesOn : Bool}
    (h : c.issueMiss cfg req = .ok (goesOn, c')) : Retains c c' := by
  obtain ⟨c₁, hload, h⟩ := Outcome.bind_eq_ok.mp h
  have hsend := (loadIns_retains hload).trans (addToMctrl_retains cfg c₁ req)
  dsimp only at h
  split_ifs at h
  · cases h
    exact hsend.trans (retains_of_eq rfl rfl)
  · obtain ⟨c₂, hnext, heq⟩ := Outcome.bind_eq_ok.mp h
    cases heq
    refine hsend.trans (.trans ?_ (handleNewRequest_retains hnext))
    exact retains_of_eq rfl rfl

theorem issueMerged_retains {req : ProcRequest} {ins : Instruction} {goesOn : Bool}
    (h : c.issueMerged req ins = .ok (goesOn, c')) : Retains c c' := by
  obtain ⟨insW, -, h⟩ := Outcome.bind_eq_ok.mp h
  obtain ⟨c₁, hnext, heq⟩ := Outcome.bind_eq_ok.mp h
  cases heq
  refine .trans ?_ (handleNewRequest_retains hnext)
  exact retains_of_eq rfl rfl

theorem withMshr_retains (mshr : List ProcRequest) : Retains c (c.withMshr mshr) :=
  retains_of_eq rfl rfl

theorem issueShared_retains {req : ProcRequest} {ins : Instruction} {goesOn : Bool}
    (h : c.issueShared cfg req ins = .ok (goesOn, c')) : Retains c c' := by
  unfold issueShared at h
  rcases addToMshr_cases cfg c req with ⟨-, hadd⟩ | ⟨-, mshr, hadd⟩
  · simp only [hadd] at h
    cases h
    exact retains_of_eq rfl rfl
  · simp only [hadd, Bool.not_true, if_false, Bool.false_eq_true] at h
    refine (withMshr_retains mshr).trans ?_
    by_cases hshared : cfg.sharedCache = true
    · rw [if_pos hshared] at h
      obtain ⟨⟨hit, c₁⟩, hsearch, h⟩ := Outcome.bind_eq_ok.mp h
      refine (searchShared_retains hsearch).trans ?_
      cases hit with
      | true =>
        obtain ⟨c₂, hadd, h⟩ := Outcome.bind_eq_ok.mp h
        obtain ⟨c₃, hnext, heq⟩ := Outcome.bind_eq_ok.mp h
        cases heq
        refine .trans ?_ ((addToCache_retains hadd).trans (handleNewRequest_retains hnext))
        exact retains_of_eq rfl rfl
      | false => exact issueMiss_retains h
    · rw [if_neg hshared] at h
      exact issueMiss_retains h

theorem issue_retains {goesOn : Bool} (h : c.issue cfg = .ok (goesOn, c')) : Retains c c' := by
  unfold issue at h
  by_cases hfull : c.proc.insW.full = true
  · rw [if_pos hfull] at h
    cases h
    exact .refl
  rw [if_neg hfull] at h
  obtain ⟨req, -, h⟩ := Outcome.bind_eq_ok.mp h
  obtain ⟨ins, -, h⟩ := Outcome.bind_eq_ok.mp h
  by_cases hexist : c.proc.insW.ifExist req.blockAddr = true
  · rw [if_pos hexist] at h
    exact issueMerged_retains h
  rw [if_neg hexist] at h
  by_cases huse : cfg.useCache = true
  · rw [if_pos huse] at h
    obtain ⟨⟨hit, c₁⟩, hsearch, h⟩ := Outcome.bind_eq_ok.mp h
    refine (searchL1_retains hsearch).trans ?_
    cases hit with
    | true =>
      obtain ⟨c₂, hload, h⟩ := Outcome.bind_eq_ok.mp h
      obtain ⟨c₃, hnext, heq⟩ := Outcome.bind_eq_ok.mp h
      cases heq
      refine .trans ?_ ((loadIns_retains hload).trans (handleNewRequest_retains hnext))
      exact retains_of_eq rfl rfl
    | false => exact issueShared_retains h
  · rw [if_neg huse] at h
    exact issueMiss_retains h

theorem handleCurrentReq_retains {memRestrict : ℕ}
    (h : c.handleCurrentReq cfg memRestrict = .ok c') : Retains c c' := by
  induction memRestrict generalizing c with
  | zero =>
    cases h
    exact .refl
  | succ memRestrict ih =>
    obtain ⟨⟨goesOn, c₁⟩, hissue, h⟩ := Outcome.bind_eq_ok.mp h
    refine (issue_retains hissue).trans ?_
    cases goesOn with
    | true => exact ih h
    | false =>
      cases h
      exact .refl

theorem handleLastReq_retains {req : ProcRequest} {miss : Bool}
    (h : c.handleLastReq cfg req = .ok (miss, c')) : Retains c c' := by
  unfold handleLastReq at h
  by_cases hshared : (cfg.useCache && cfg.sharedCache) = true
  · rw [if_pos hshared] at h
    obtain ⟨⟨hit, c₁⟩, hsearch, h⟩ := Outcome.bind_eq_ok.mp h
    refine (searchShared_retains hsearch).trans ?_
    cases hit with
    | true =>
      obtain ⟨curr, -, h⟩ := Outcome.bind_eq_ok.mp h
      obtain ⟨ins, -, h⟩ := Outcome.bind_eq_ok.mp h
      obtain ⟨c₂, hadd, heq⟩ := Outcome.bind_eq_ok.mp h
      cases heq
      refine .trans ?_ (addToCache_retains hadd)
      exact retains_of_eq rfl rfl
    | false =>
      obtain ⟨c₂, hload, heq⟩ := Outcome.bind_eq_ok.mp h
      cases heq
      exact loadIns_retains hload
  · rw [if_neg hshared] at h
    obtain ⟨⟨hit, c₁⟩, hnone, h⟩ := Outcome.bind_eq_ok.mp h
    cases hnone
    obtain ⟨c₂, hload, heq⟩ := Outcome.bind_eq_ok.mp h
    cases heq
    exact loadIns_retains hload

theorem retryMctrl_retains {req : ProcRequest} {processed : Bool}
    (h : c.retryMctrl cfg req = .ok (processed, c')) : Retains c c' := by
  obtain ⟨⟨miss, c₁⟩, hlast, h⟩ := Outcome.bind_eq_ok.mp h
  refine (handleLastReq_retains hlast).trans ?_
  cases miss with
  | false =>
    cases h
    exact retains_of_eq rfl rfl
  | true =>
    let retried : Core := { c₁ with proc := { c₁.proc with mctrlRetry := true } }
    have hretried : Retains c₁ retried := retains_of_eq rfl rfl
    refine hretried.trans ?_
    dsimp only at h
    rw [if_pos rfl] at h
    rcases addToMshr_cases cfg (retried.note (.unsent req)) req with ⟨-, hadd⟩ | ⟨-, mshr, hadd⟩
    · rw [hadd] at h
      cases h
      exact retains_of_eq rfl rfl
    · rw [hadd] at h
      cases h
      exact retains_of_eq rfl rfl

theorem handleLast_retains {processed : Bool} (h : c.handleLast cfg = .ok (processed, c')) :
    Retains c c' := by
  obtain ⟨req, -, h⟩ := Outcome.bind_eq_ok.mp h
  by_cases hmem : (!req.ifMem) = true
  · rw [if_pos hmem] at h
    cases h
    exact .refl
  rw [if_neg hmem] at h
  by_cases hretry : c.proc.mshrRetry = true
  · rw [if_pos hretry] at h
    rcases addToMshr_cases cfg c req with ⟨-, hadd⟩ | ⟨-, mshr, hadd⟩
    · rw [hadd] at h
      cases h
      exact retains_of_eq rfl rfl
    · rw [hadd] at h
      refine .trans ?_ (retryMctrl_retains h)
      exact retains_of_eq rfl rfl
  · rw [if_neg hretry] at h
    exact retryMctrl_retains h

theorem serve_retains {memRestrict : ℕ} (h : c.serve cfg memRestrict = .ok c') :
    Retains c c' := by
  obtain ⟨req, -, h⟩ := Outcome.bind_eq_ok.mp h
  by_cases hmem : req.ifMem = true
  · rw [if_pos hmem] at h
    exact handleCurrentReq_retains h
  · rw [if_neg hmem] at h
    exact handleNewRequest_retains h

theorem retryAndServe_retains (h : c.retryAndServe cfg = .ok c') : Retains c c' := by
  unfold retryAndServe at h
  by_cases hretry : (c.proc.mshrRetry || c.proc.mctrlRetry) = true
  · rw [if_pos hretry] at h
    by_cases hfull : c.proc.insW.full = true
    · rw [if_pos hfull] at h
      cases h
      exact .refl
    rw [if_neg hfull] at h
    obtain ⟨⟨processed, c₁⟩, hlast, h⟩ := Outcome.bind_eq_ok.mp h
    refine (handleLast_retains hlast).trans ?_
    cases processed with
    | false =>
      cases h
      exact .refl
    | true =>
      obtain ⟨c₂, hnext, h⟩ := Outcome.bind_eq_ok.mp h
      exact (handleNewRequest_retains hnext).trans (serve_retains h)
  · rw [if_neg hretry] at h
    exact serve_retains h

/-- A fill of the first-level cache adds its block there. -/
theorem fillL1_resides {t : RequestType} (h : c.fillL1 b t = .ok c') :
    c'.world.sharedCache = c.world.sharedCache ∧
      (Distinct c.proc.l1Cache → Distinct c'.proc.l1Cache) ∧
      ∀ x, Present c'.proc.l1Cache x → x = b ∨ Present c.proc.l1Cache x := by
  obtain ⟨l1', hproc, hworld⟩ := fillL1_frame h
  refine ⟨by rw [hworld], ?_⟩
  obtain ⟨⟨hit, c₁⟩, hsearch, h⟩ := Outcome.bind_eq_ok.mp h
  obtain ⟨l1, hl1, rfl⟩ := searchL1_eq_ok hsearch
  obtain ⟨-, hdistinct, -, -, -, hmiss⟩ := search_spec hl1 (by simp)
  cases hit with
  | true =>
    cases h
    exact ⟨hdistinct, fun x hx => .inr ((search_present hl1 x).mp hx)⟩
  | false =>
    obtain ⟨⟨v, l1''⟩, hadd, heq⟩ := Outcome.bind_eq_ok.mp h
    cases heq
    have hnew : ¬ Present l1 b := by
      rw [search_present hl1 b]
      rintro ⟨e, he, heb⟩
      exact absurd ((hmiss rfl).2 e he) (by simpa using heb)
    obtain ⟨-, hadded, -⟩ := Cache.add_spec hadd hnew
    refine ⟨?_, ?_⟩
    · intro hd
      split_ifs <;> exact hadded (hdistinct hd)
    intro x hx
    have hx' : Present l1'' x := by
      split_ifs at hx <;> exact hx
    rcases add_present hadd hx' with rfl | hx'
    · exact .inl rfl
    · exact .inr ((search_present hl1 x).mp hx')

/-- The requests that wait for the cache's latency add their blocks to the first-level cache. -/
theorem cacheReqLoop_resides {queue : List ProcRequest} (h : cacheReqLoop queue c = .ok c') :
    c'.world.sharedCache = c.world.sharedCache ∧ ∀ x, Present c'.proc.l1Cache x →
      Present c.proc.l1Cache x ∨ ∃ req ∈ queue, req.blockAddr = x := by
  induction queue generalizing c with
  | nil =>
    cases h
    exact ⟨rfl, fun x hx => .inl hx⟩
  | cons req queue ih =>
    unfold cacheReqLoop at h
    split_ifs at h
    obtain ⟨c₁, hfill, h⟩ := Outcome.bind_eq_ok.mp h
    obtain ⟨hshared, -, hfilled⟩ := fillL1_resides hfill
    obtain ⟨hshared', hrest⟩ := ih h
    refine ⟨hshared'.trans hshared, ?_⟩
    intro x hx
    rcases hrest x hx with hx | ⟨r, hr, hrx⟩
    · rcases hfilled x hx with rfl | hx
      · exact .inr ⟨req, List.mem_cons_self .., rfl⟩
      · exact .inl hx
    · exact .inr ⟨r, List.mem_cons_of_mem _ hr, hrx⟩

/-- The caches and the requests that wait for them are the same. -/
def SameCaches (c c' : Core) : Prop :=
  c'.proc.l1Cache = c.proc.l1Cache ∧ c'.world.sharedCache = c.world.sharedCache ∧
    c'.proc.cacheReqQueue = c.proc.cacheReqQueue

theorem getInsFromInsp_sameCaches {ins : Instruction} (h : c.getInsFromInsp = .ok (ins, c')) :
    SameCaches c c' := by
  have hscan {d d' : Core} {addr res : UInt64} (h : d.scanPage addr = .ok (res, d')) :
      SameCaches d d' := by
    obtain ⟨⟨r, tlb⟩, -, heq⟩ := Outcome.bind_eq_ok.mp h
    cases heq
    exact ⟨rfl, rfl, rfl⟩
  unfold getInsFromInsp at h
  split at h
  · next ins' _ =>
    dsimp only at h
    by_cases hmem : ins'.isMem = true
    · rw [if_pos hmem] at h
      obtain ⟨⟨b, c₁⟩, hpage, heq⟩ := Outcome.bind_eq_ok.mp h
      cases heq
      obtain ⟨hl1, hshared, hqueue⟩ := hscan hpage
      exact ⟨hl1, hshared, hqueue⟩
    · rw [if_neg hmem] at h
      cases h
      exact ⟨rfl, rfl, rfl⟩
  · simp only [Outcome.bind_eq_ok] at h
    obtain ⟨ins', -, ⟨b, c₁⟩, hpage, heq⟩ := h
    cases heq
    obtain ⟨hl1, hshared, hqueue⟩ := hscan hpage
    exact ⟨hl1, hshared, hqueue⟩
  · cases h

theorem start_sameCaches (h : c.start = .ok c') : SameCaches c c' := by
  unfold start at h
  split_ifs at h
  · obtain ⟨⟨ins, c₁⟩, hget, heq⟩ := Outcome.bind_eq_ok.mp h
    cases heq
    obtain ⟨hl1, hshared, hqueue⟩ := getInsFromInsp_sameCaches hget
    exact ⟨hl1, hshared, hqueue⟩
  · cases h
    exact ⟨rfl, rfl, rfl⟩

theorem nextPc_sameCaches (cfg : Config) (c : Core) : SameCaches c (c.nextPc cfg) := by
  unfold nextPc
  split_ifs <;> exact ⟨rfl, rfl, rfl⟩

theorem updateInsW_retains (cfg : Config) (c : Core) : Retains c (c.updateInsW cfg) := by
  unfold updateInsW
  split_ifs <;> exact retains_of_eq rfl rfl

theorem writeBackOne_retains (cfg : Config) (c : Core) : Retains c (c.writeBackOne cfg) := by
  unfold writeBackOne handleWritebackQueue
  cases c.proc.writebackReq with
  | nil => exact .refl
  | cons req reqs =>
    rcases addToMctrl_cases cfg c req with hadd | hadd <;> simp only [hadd] <;>
      exact retains_of_eq rfl rfl

/-- The cycle behind the caches' part moves no block. -/
theorem arrive_resides {goesOn : Bool} (h : c.arrive cfg = .ok (goesOn, c')) :
    (∀ x, Present c.world.sharedCache x → Present c'.world.sharedCache x) ∧
      ∀ x, Present c'.proc.l1Cache x → Present c.proc.l1Cache x ∨
        cfg.useCache = true ∧ ∃ req ∈ c.proc.cacheReqQueue, req.blockAddr = x := by
  unfold arrive at h
  dsimp only at h
  by_cases hipc : cfg.ipc < 0
  · rw [if_pos hipc] at h
    cases h
  rw [if_neg hipc] at h
  obtain ⟨c₁, hstart, h⟩ := Outcome.bind_eq_ok.mp h
  -- Only the queued cache requests of `updateCache` fill a cache in this part of the cycle.
  obtain ⟨hl1, hshared, hqueue⟩ : SameCaches c (c₁.nextPc cfg) := by
    obtain ⟨hl1, hshared, hqueue⟩ := start_sameCaches hstart
    obtain ⟨hl1', hshared', hqueue'⟩ := nextPc_sameCaches cfg c₁
    exact ⟨hl1'.trans hl1, hshared'.trans hshared, hqueue'.trans hqueue⟩
  rw [← hl1, ← hshared, ← hqueue]
  by_cases hend : (cfg.simType = .cycle && cfg.simCycle < (c₁.nextPc cfg).proc.cycle) = true
  · rw [if_pos hend] at h
    cases h
    exact ⟨fun _ => id, fun _ => .inl⟩
  rw [if_neg hend] at h
  obtain ⟨c₂, hcache, h⟩ := Outcome.bind_eq_ok.mp h
  have hwindow := updateInsW_retains cfg c₂
  have hbehind : Retains c₂ c' := by
    by_cases hback : (cfg.writeback && !(c₂.updateInsW cfg).proc.writebackReq.isEmpty) = true
    · rw [if_pos hback] at h
      cases h
      exact hwindow.trans (writeBackOne_retains cfg _)
    · rw [if_neg hback] at h
      cases h
      exact hwindow
  unfold updateCache at hcache
  by_cases huse : cfg.useCache = true
  · rw [if_pos huse] at hcache
    obtain ⟨hsame, hfilled⟩ := cacheReqLoop_resides hcache
    refine ⟨?_, ?_⟩
    · rw [← hsame]
      exact hbehind.shared
    · intro x hx
      rcases hfilled x (hbehind.l1 x hx) with hx | hx
      · exact .inl hx
      · exact .inr ⟨huse, hx⟩
  · rw [if_neg huse] at hcache
    cases hcache
    exact ⟨hbehind.shared, fun x hx => .inl (hbehind.l1 x hx)⟩

/-- **A cycle** adds to the first-level cache only the blocks of the requests that wait for the
cache's latency, and takes none from the shared cache. -/
theorem step_resides (h : c.step cfg = .ok c') :
    (∀ x, Present c.world.sharedCache x → Present c'.world.sharedCache x) ∧
      ∀ x, Present c'.proc.l1Cache x → Present c.proc.l1Cache x ∨
        cfg.useCache = true ∧ ∃ req ∈ c.proc.cacheReqQueue, req.blockAddr = x := by
  obtain ⟨⟨goesOn, c₁⟩, harrive, h⟩ := Outcome.bind_eq_ok.mp h
  have hserve : Retains c₁ c' := by
    cases goesOn with
    | true => exact retryAndServe_retains h
    | false =>
      cases h
      exact .refl
  obtain ⟨hshared, hl1⟩ := arrive_resides harrive
  exact ⟨fun x hx => hserve.shared x (hshared x hx), fun x hx => hl1 x (hserve.l1 x hx)⟩

/-! ### A callback -/

/-- What a callback that misses the shared cache moves: its block is added to both caches, and the
block of the line that leaves the shared cache is removed from the first-level cache when the line
is dirty. -/
structure Fills (c c' : Core) (b : UInt64) : Prop where
  self : Present c'.world.sharedCache b
  shared : ∀ x ≠ NULL, Present c.world.sharedCache x → Present c'.world.sharedCache x ∨
    ∃ e, SharedCache.leaving c.world.sharedCache b = some e ∧ e.blockAddr = x ∧
      (e.dirty = true → ¬ Present c'.proc.l1Cache x)
  l1 : ∀ x ≠ NULL, Present c'.proc.l1Cache x → x = b ∨ Present c.proc.l1Cache x

theorem searchShared_answer {t : RequestType} {hit : Bool} (huse : cfg.useCache = true)
    (hshared : cfg.sharedCache = true) (h : c.searchShared b t = .ok (hit, c')) :
    hit = c.hitsShared cfg b := by
  obtain ⟨shared, hsearch, rfl⟩ := searchShared_eq_ok h
  obtain ⟨i, hi, hsearch⟩ := Outcome.bind_eq_ok.mp hsearch
  have hi : i = b.toNat % c.world.sharedCache.maxSet := index_eq_ok hi
  subst hi
  unfold hitsShared
  rw [huse, hshared, Bool.true_and, Bool.true_and]
  split_ifs at hsearch with hany
  · cases hsearch
    exact hany.symm
  · cases hsearch
    exact (Bool.eq_false_iff.mpr hany).symm

theorem leaving_congr {s s' : SharedCache} (hlines : s'.lines = s.lines)
    (hmax : s'.maxSet = s.maxSet) (b : UInt64) :
    SharedCache.leaving s' b = SharedCache.leaving s b := by
  unfold SharedCache.leaving
  rw [hlines, hmax]

/-- A search keeps the blocks with the valid bit. -/
theorem searchShared_hits {t : RequestType} (h : c.searchShared b t = .ok (true, c'))
    (hhit : c.hitsShared cfg b = true) : c'.hitsShared cfg b = true := by
  obtain ⟨shared, hsearch, rfl⟩ := searchShared_eq_ok h
  obtain ⟨i, hi, hsearch⟩ := Outcome.bind_eq_ok.mp hsearch
  have hi : i = b.toNat % c.world.sharedCache.maxSet := index_eq_ok hi
  subst hi
  unfold hitsShared at hhit ⊢
  obtain ⟨hcfg, hany⟩ := Bool.and_eq_true_iff.mp hhit
  rw [if_pos hany] at hsearch
  cases hsearch
  rw [hcfg, Bool.true_and]
  show ((setWays _ _ _).lines (b.toNat % c.world.sharedCache.maxSet)).any _ = true
  rw [setWays_lines, if_pos rfl]
  obtain ⟨e, -, he, hmem⟩ := exists_update hany
  exact List.any_eq_true.mpr ⟨_, hmem, he⟩

/-- A callback of a block of the shared cache moves no block. -/
theorem callback_hit {fill : RequestType} {callback : CallBackInfo}
    (h : c.handleCallback cfg fill callback = .ok c') (hshared : cfg.sharedCache = true)
    (hhit : cfg.useCache = true → c.hitsShared cfg callback.blockAddr = true) :
    Retains c c' ∧ (cfg.useCache = true → c'.hitsShared cfg callback.blockAddr = true) := by
  unfold handleCallback at h
  dsimp only at h
  by_cases huse : cfg.useCache = true
  · rw [if_pos huse, if_pos hshared] at h
    obtain ⟨⟨hit, c₁⟩, hsearch, h⟩ := Outcome.bind_eq_ok.mp h
    have hsettled : (c.settle callback.blockAddr).hitsShared cfg callback.blockAddr = true :=
      hhit huse
    cases hit with
    | true =>
      cases h
      refine ⟨.trans ?_ (searchShared_retains hsearch), fun _ => searchShared_hits hsearch hsettled⟩
      exact retains_of_eq rfl rfl
    | false =>
      exact absurd (hsettled.symm.trans (hitsShared_of_miss hsearch)) (by decide)
  · rw [if_neg huse] at h
    cases h
    exact ⟨retains_of_eq rfl rfl, fun hu => absurd hu huse⟩

/-- **A callback of another block** fills both caches. -/
theorem callback_miss {fill : RequestType} {callback : CallBackInfo}
    (h : c.handleCallback cfg fill callback = .ok c') (hshared : cfg.sharedCache = true)
    (huse : cfg.useCache = true) (hmiss : c.hitsShared cfg callback.blockAddr = false)
    (hmarked : Marked c.world.sharedCache) (hdistinct : Distinct c.proc.l1Cache) :
    Fills c c' callback.blockAddr ∧ c'.hitsShared cfg callback.blockAddr = true := by
  unfold handleCallback at h
  dsimp only at h
  rw [if_pos huse, if_pos hshared] at h
  obtain ⟨⟨hit, c₁⟩, hsearch, h⟩ := Outcome.bind_eq_ok.mp h
  have hanswer := searchShared_answer huse hshared hsearch
  rw [show (c.settle callback.blockAddr).hitsShared cfg callback.blockAddr = false from hmiss]
    at hanswer
  subst hanswer
  obtain ⟨shared₁, hlook, rfl⟩ := searchShared_eq_ok hsearch
  obtain ⟨hmax, -, hmark, -, -, hlines⟩ := search_spec hlook fun e he => by simp_all
  obtain ⟨hlines, -⟩ := hlines rfl
  obtain ⟨⟨v, shared⟩, hadd, h⟩ := Outcome.bind_eq_ok.mp h
  obtain ⟨c₂, hfill, h⟩ := Outcome.bind_eq_ok.mp h
  obtain ⟨⟨r, l1⟩, hremove, h⟩ := Outcome.bind_eq_ok.mp h
  obtain ⟨hworld, hdistinct₂, hl1⟩ := fillL1_resides hfill
  have hend : c'.proc.l1Cache = l1 ∧ c'.world.sharedCache = shared := by
    have hshared₂ : c₂.world.sharedCache = shared := by
      rw [hworld]
      dsimp only
      split_ifs <;> rfl
    dsimp only at h
    split_ifs at h
    · obtain ⟨-, rfl⟩ := queueWriteback_eq_ok.mp h
      exact ⟨rfl, hshared₂⟩
    · cases h
      exact ⟨rfl, hshared₂⟩
  have hold : (if v = NULL then ((c.settle callback.blockAddr).withShared shared₁).withShared shared
      else (((c.settle callback.blockAddr).withShared shared₁).withShared shared).note
        (.evicted v)).proc.l1Cache = c.proc.l1Cache := by
    split_ifs <;> rfl
  dsimp only at hdistinct₂ hl1
  rw [hold] at hdistinct₂ hl1
  obtain ⟨hl1', hshared'⟩ := hend
  have hvalid := addShared_valid (hmark hmarked) hadd
  refine ⟨⟨?_, ?_, ?_⟩, ?_⟩
  · rw [hshared']
    obtain ⟨e, he, heb, -⟩ := hvalid
    exact ⟨e, he, heb⟩
  · intro x hx hpresent
    have hpresent₁ := (present_congr hlines hmax).mpr hpresent
    rw [hshared', hl1']
    rcases addShared_present (hmark hmarked) hadd hx hpresent₁ with hstays | ⟨e, he, hex, hv⟩
    · exact .inl hstays
    · have hleaving := (leaving_congr hlines hmax callback.blockAddr).symm.trans he
      refine .inr ⟨e, hleaving, hex, fun hdirty => ?_⟩
      -- The dirty block that left is removed from the first-level cache.
      rw [if_pos hdirty] at hv
      subst hv
      exact fun hpresent => ((present_remove (hdistinct₂ hdistinct) hremove hx).mp hpresent).2 rfl
  · intro x hx hpresent
    rw [hl1'] at hpresent
    exact hl1 x ((present_remove (hdistinct₂ hdistinct) hremove hx).mp hpresent).1
  · unfold hitsShared
    rw [huse, hshared, hshared']
    obtain ⟨e, he, heb, hev⟩ := hvalid
    exact List.any_eq_true.mpr ⟨e, he, by simp [heb, hev]⟩

end Core

end PIMSim
