import PIMSim.Library.Ledger
import PIMSim.Library.Run
import PIMSim.PIM.PIMMctrl

/-!
# The traffic of the controllers

What happens to the requests a controller accepts, over any sequence of calls. Both controllers
sweep their wait queue, and differ in what they do at a visit.

## Main definitions

* `Discipline`: a controller's step and its visits; `Mctrl.discipline`, `PIMMctrl.discipline`
* `Traffic`, `Discipline.call`: a controller with the ledger of its requests, and its calls
* `Conserves`: the requests are placed once, where they belong, and in order but for held ones

## Main results

* `Discipline.Lawful.conserves`: a lawful discipline conserves its requests over every run
* `controllers_conserve`: both controllers do
-/

namespace PIMSim

open CSharp Sweep Transition

variable {Obj κ σ : Type}

/-- A controller's step, and the visits it makes. `κ` is what the step reads of its surroundings,
`σ` what the visits change, and `within` what a step keeps of its surroundings. -/
structure Discipline (κ σ : Type) where
  pim : Bool
  step : κ → Controller → Outcome Controller
  start : κ → List (List MemRequest) → σ
  queues : σ → List (List MemRequest)
  visit : κ → UInt64 → σ → ProcRequest → Outcome (σ × Fate)
  within : κ → σ → Prop

/-- The host's controller, stepping beside any lock table. -/
def Mctrl.discipline (cfg : Config) (info : List (Region Obj)) :
    Discipline (Option SpinLock) (List (List MemRequest)) where
  pim := false
  step := Mctrl.step cfg info
  start := fun _ queues => queues
  queues := id
  visit := Mctrl.visit cfg info
  within := fun _ _ => True

/-- The memory side's controller, stepping beside any host and lock table. Its visits flush the
host. -/
def PIMMctrl.discipline (cfg : Config) (info : List (Region Obj)) :
    Discipline Coherence (Coherence × List (List MemRequest)) where
  pim := true
  step := fun coherence c => Prod.snd <$> PIMMctrl.step cfg info coherence c
  start := Prod.mk
  queues := Prod.snd
  visit := fun _ => PIMMctrl.visit cfg info
  within := fun coherence s => PIMMctrl.Flushes cfg coherence.host s.1.host

/-- A call of a controller: a request is offered, a cycle passes beside some surroundings, or a
memory object fetches a request. -/
inductive Call (κ : Type)
  | add (req : ProcRequest)
  | step (env : κ)
  | take (pid : Int)

/-- A controller, the ledger of its requests, and the requests the memory objects fetched. A sweep
is labelled with its surroundings and its cycle. -/
structure Traffic (κ : Type) where
  ctrl : Controller
  ledger : Ledger ProcRequest Fate (κ × UInt64) := {}
  taken : List (ℕ × MemRequest) := []

namespace Discipline

/-- A call, with what the ledger gets of it. -/
def call (D : Discipline κ σ) (cfg : Config) (t : Traffic κ) : Call κ → Outcome (Traffic κ)
  | .add req =>
    match t.ctrl.addToMctrl cfg req with
    | (true, ctrl) => .ok { t with ctrl := ctrl, ledger := t.ledger.push req }
    | (false, ctrl) => .ok { t with ctrl := ctrl }
  | .step env => do
    let ctrl ← D.step env t.ctrl
    let (_, verdicts) ← visits (fun s (e : ℕ × ProcRequest) => D.visit env (t.ctrl.cycle + 1) s e.2)
      (D.start env t.ctrl.sendQueue) t.ledger.waiting
    return { t with
      ctrl := ctrl, ledger := t.ledger.sweep Fate.leaves (env, t.ctrl.cycle + 1) verdicts }
  | .take pid => do
    let (req, ctrl) ← t.ctrl.getReq D.pim pid
    match req with
    | none => return { t with ctrl := ctrl }
    | some req => return { t with ctrl := ctrl, taken := t.taken ++ [(pid.toNat, req)] }

end Discipline

/-- The placements a sweep's verdicts record: an entry, its queue and its memory request. -/
def placements (vs : List ((ℕ × ProcRequest) × Fate)) : List ((ℕ × ProcRequest) × ℕ × MemRequest) :=
  vs.filterMap fun v => match v.2 with
    | .placed queue req => some (v.1, queue, req)
    | _ => none

namespace Traffic

/-- All placements, in order. -/
def placements (t : Traffic κ) : List ((ℕ × ProcRequest) × ℕ × MemRequest) :=
  t.ledger.sweeps.flatMap fun s => PIMSim.placements s.2

/-- The memory requests placed on a queue, in order. -/
def placedOn (t : Traffic κ) (k : ℕ) : List MemRequest :=
  (t.placements.filter (·.2.1 = k)).map (·.2.2)

/-- The memory requests fetched from a queue, in order. -/
def takenFrom (t : Traffic κ) (k : ℕ) : List MemRequest := (t.taken.filter (·.1 = k)).map Prod.snd

end Traffic

/-- **Conservation and routing.** Every accepted request is placed once or waits, it is placed on
the queue its address selects as the request `transfer` makes of it, each queue gives out what was
placed on it in order, and an accepted request is overtaken only in a cycle that holds it. -/
structure Conserves (info : List (Region Obj)) (transfer : ProcRequest → Outcome MemRequest)
    (pim : Bool) (held : κ → UInt64 → ProcRequest → Fate → Prop) (t : Traffic κ) : Prop where
  numbered : t.ledger.accepted.map Prod.fst = List.range t.ledger.accepted.length
  once : (t.placements.map Prod.fst ++ t.ledger.waiting).Perm t.ledger.accepted
  waiting : t.ctrl.waitQueue = t.ledger.waiting.map Prod.snd
  arrival : t.ledger.waiting.Sublist t.ledger.accepted
  routed : ∀ p ∈ t.placements, MemorySelector.getId info p.1.2.actualAddr = .ok (p.2.1 : Int) ∧
    transfer p.1.2 = .ok p.2.2
  queued : ∀ k queue, t.ctrl.sendQueue[k]? = some queue →
    t.takenFrom k ++ queue.map (fun req => { req with pim := pim }) =
      (t.placedOn k).map fun req => { req with pim := pim }
  ordered : ∀ e ∈ t.ledger.accepted, ∀ f ∈ t.placements.map Prod.fst, e.1 < f.1 →
    [e, f].Sublist (t.placements.map Prod.fst) ∨
      ∃ s ∈ t.ledger.sweeps, ∃ b, Ledger.Overtaken Fate.leaves s e f b ∧ held s.1.1 s.1.2 e.2 b

/-- What the two controllers' steps have in common. -/
structure Discipline.Lawful (D : Discipline κ σ) (info : List (Region Obj))
    (transfer : ProcRequest → Outcome MemRequest)
    (held : κ → UInt64 → ProcRequest → Fate → Prop) : Prop where
  queues_start : ∀ env queues, D.queues (D.start env queues) = queues
  step_eq : ∀ env c, D.step env c =
    (scan (D.visit env (c.cycle + 1)) Fate.leaves (D.start env c.sendQueue) c.waitQueue).map
      fun r => { waitQueue := r.2, sendQueue := D.queues r.1, cycle := c.cycle + 1 }
  visit_placed : ∀ {env cycle s req s' k m}, D.visit env cycle s req = .ok (s', .placed k m) →
    MemorySelector.getId info req.actualAddr = .ok (k : Int) ∧ transfer req = .ok m ∧
      ∃ queue, (D.queues s)[k]? = some queue ∧ D.queues s' = (D.queues s).set k (queue ++ [m])
  within_start : ∀ env queues, D.within env (D.start env queues)
  within_visit : ∀ {env cycle s req s' fate}, D.within env s →
    D.visit env cycle s req = .ok (s', fate) → D.within env s'
  visit_kept : ∀ {env cycle s req s' fate}, D.within env s →
    D.visit env cycle s req = .ok (s', fate) → fate.leaves = false →
      D.queues s' = D.queues s ∧ held env cycle req fate

/-! ### One sweep -/

@[simp] theorem placements_nil : placements [] = [] := rfl

theorem placements_append (us vs : List ((ℕ × ProcRequest) × Fate)) :
    placements (us ++ vs) = placements us ++ placements vs := List.filterMap_append

theorem map_fst_placements (vs : List ((ℕ × ProcRequest) × Fate)) :
    (placements vs).map Prod.fst = removed Fate.leaves vs := by
  induction vs with
  | nil => rfl
  | cons v vs ih =>
    obtain ⟨e, fate⟩ := v
    rw [removed_cons, ← ih]
    cases fate <;> rfl

theorem Traffic.map_fst_placements (t : Traffic κ) :
    t.placements.map Prod.fst = t.ledger.placed Fate.leaves := by
  simp only [Traffic.placements, Ledger.placed, List.map_flatMap, PIMSim.map_fst_placements]

/-- The memory requests of some placements on a queue. -/
def onQueue (k : ℕ) (ps : List ((ℕ × ProcRequest) × ℕ × MemRequest)) : List MemRequest :=
  (ps.filter (·.2.1 = k)).map (·.2.2)

theorem onQueue_append (k : ℕ) (ps qs : List ((ℕ × ProcRequest) × ℕ × MemRequest)) :
    onQueue k (ps ++ qs) = onQueue k ps ++ onQueue k qs := by
  simp [onQueue]

variable {D : Discipline κ σ} {info : List (Region Obj)}
  {transfer : ProcRequest → Outcome MemRequest} {held : κ → UInt64 → ProcRequest → Fate → Prop}

/-- What the verdicts of a sweep say: the placements are routed, the queues grow by them, and what
is kept is held within the surroundings of the sweep. -/
structure Swept (D : Discipline κ σ) (info : List (Region Obj))
    (transfer : ProcRequest → Outcome MemRequest)
    (held : κ → UInt64 → ProcRequest → Fate → Prop) (env : κ) (cycle : UInt64)
    (before : List (List MemRequest)) (s : σ) (vs : List ((ℕ × ProcRequest) × Fate)) : Prop where
  routed : ∀ p ∈ placements vs, MemorySelector.getId info p.1.2.actualAddr = .ok (p.2.1 : Int) ∧
    transfer p.1.2 = .ok p.2.2 ∧ p.2.1 < before.length
  grown : ∀ k : ℕ, (D.queues s)[k]? = before[k]?.map (· ++ onQueue k (placements vs))
  held : ∀ v ∈ vs, v.2.leaves = false → held env cycle v.1.2 v.2
  within : D.within env s

/-- One visit extends what the verdicts say. -/
theorem Swept.visit (hD : D.Lawful info transfer held) {env : κ} {cycle : UInt64}
    {before : List (List MemRequest)} {s s' : σ} {vs : List ((ℕ × ProcRequest) × Fate)}
    (h : Swept D info transfer held env cycle before s vs) {e : ℕ × ProcRequest} {fate : Fate}
    (hv : D.visit env cycle s e.2 = .ok (s', fate)) :
    Swept D info transfer held env cycle before s' (vs ++ [(e, fate)]) := by
  have hwithin := hD.within_visit h.within hv
  cases hl : fate.leaves with
  | false =>
    obtain ⟨hq, hheld⟩ := hD.visit_kept h.within hv hl
    -- a request that is kept adds no placement, and the queues stay
    have hnone : placements [(e, fate)] = [] := by
      cases fate <;> first | rfl | cases hl
    refine ⟨?_, fun k => ?_, fun v hmem hleaves => ?_, hwithin⟩
    · rw [placements_append, hnone, List.append_nil]
      exact h.routed
    · rw [placements_append, hnone, List.append_nil, hq]
      exact h.grown k
    · rcases List.mem_append.mp hmem with hmem | hmem
      · exact h.held v hmem hleaves
      · rw [List.mem_singleton] at hmem
        subst hmem
        exact hheld
  | true =>
    cases fate with
    | placed queue m =>
      obtain ⟨hid, htrans, q, hget, hset⟩ := hD.visit_placed hv
      have hone : placements [(e, Fate.placed queue m)] = [(e, queue, m)] := rfl
      refine ⟨fun p hp => ?_, fun k => ?_, fun v hmem hleaves => ?_, hwithin⟩
      · rw [placements_append, hone] at hp
        rcases List.mem_append.mp hp with hp | hp
        · exact h.routed p hp
        · rw [List.mem_singleton] at hp
          subst hp
          refine ⟨hid, htrans, ?_⟩
          rw [h.grown queue] at hget
          obtain ⟨q₀, hq₀, -⟩ := Option.map_eq_some_iff.mp hget
          exact (List.getElem?_eq_some_iff.mp hq₀).1
      · -- the queue that is placed on grows by the request, and the other ones stay
        have hgrown := h.grown k
        rw [placements_append, hone, onQueue_append, hset]
        by_cases hk : queue = k
        · subst hk
          obtain ⟨hlt, -⟩ := List.getElem?_eq_some_iff.mp hget
          rw [hget] at hgrown
          obtain ⟨q₀, hq₀, rfl⟩ := Option.map_eq_some_iff.mp hgrown.symm
          simp [hlt, hq₀, onQueue]
        · rw [List.getElem?_set_ne hk, hgrown]
          simp [onQueue, hk]
      · rcases List.mem_append.mp hmem with hmem | hmem
        · exact h.held v hmem hleaves
        · rw [List.mem_singleton] at hmem
          subst hmem
          cases hleaves
    | _ => cases hl

theorem swept_of_visits (hD : D.Lawful info transfer held) {env : κ} {cycle : UInt64}
    {queues : List (List MemRequest)} {s : σ} {waiting : List (ℕ × ProcRequest)}
    {vs : List ((ℕ × ProcRequest) × Fate)}
    (h : visits (fun s (e : ℕ × ProcRequest) => D.visit env cycle s e.2) (D.start env queues)
      waiting = .ok (s, vs)) : Swept D info transfer held env cycle queues s vs := by
  have hstart : Swept D info transfer held env cycle queues (D.start env queues) [] := by
    refine ⟨by simp, fun k => ?_, by simp, hD.within_start env queues⟩
    rw [hD.queues_start]
    simp [onQueue]
  simpa using visits_rule (P := fun s _ us => Swept D info transfer held env cycle queues s us)
    (fun _ _ _ _ _ _ hP hv => hP.visit hD hv) hstart h

/-- The request waits no more, and is on the queue its address selects. -/
def Forwarded (info : List (Region Obj)) (transfer : ProcRequest → Outcome MemRequest)
    (c : Controller) (req : ProcRequest) : Prop :=
  req ∉ c.waitQueue ∧ ∃ (k : ℕ) (m : MemRequest) (queue : List MemRequest),
    MemorySelector.getId info req.actualAddr = .ok (k : Int) ∧ transfer req = .ok m ∧
      c.sendQueue[k]? = some queue ∧ m ∈ queue

theorem mem_placements {vs : List ((ℕ × ProcRequest) × Fate)} {e : ℕ × ProcRequest} {k : ℕ}
    {m : MemRequest} (h : (e, Fate.placed k m) ∈ vs) : (e, k, m) ∈ placements vs :=
  List.mem_filterMap.mpr ⟨_, h, rfl⟩

/-- A step is its visits. -/
theorem Discipline.Lawful.step_visits (hD : D.Lawful info transfer held) {env : κ}
    {c c' : Controller} (h : D.step env c = .ok c') {waiting : List (ℕ × ProcRequest)}
    (hw : c.waitQueue = waiting.map Prod.snd) :
    ∃ s vs, visits (fun s (e : ℕ × ProcRequest) => D.visit env (c.cycle + 1) s e.2)
        (D.start env c.sendQueue) waiting = .ok (s, vs) ∧
      c' = { waitQueue := (kept Fate.leaves vs).map Prod.snd,
             sendQueue := D.queues s, cycle := c.cycle + 1 } := by
  rw [hD.step_eq, scan_eq_visits, hw, visits_map] at h
  cases hvs : visits (fun s (e : ℕ × ProcRequest) => D.visit env (c.cycle + 1) s e.2)
      (D.start env c.sendQueue) waiting with
  | error e =>
    rw [hvs] at h
    cases h
  | ok r =>
    obtain ⟨s, vs⟩ := r
    rw [hvs] at h
    refine ⟨s, vs, rfl, ?_⟩
    simpa [Except.map, kept_map] using h.symm

/-- The entries with a label, which the visits do not look at. -/
theorem map_snd_label (reqs : List ProcRequest) :
    reqs = (reqs.map fun r => ((0 : ℕ), r)).map Prod.snd := by simp

/-- A request that a step keeps is held. -/
theorem Discipline.Lawful.held_of_kept (hD : D.Lawful info transfer held) {env : κ}
    {c c' : Controller} (h : D.step env c = .ok c') {req : ProcRequest}
    (hreq : req ∈ c'.waitQueue) :
    ∃ fate, fate.leaves = false ∧ held env (c.cycle + 1) req fate := by
  obtain ⟨s, vs, hvs, rfl⟩ := hD.step_visits h (map_snd_label c.waitQueue)
  obtain ⟨e, he, rfl⟩ := List.mem_map.mp hreq
  obtain ⟨fate, hv, hl⟩ := mem_kept.mp he
  exact ⟨fate, hl, (swept_of_visits hD hvs).held _ hv hl⟩

/-- **A request that a step does not keep** is forwarded. -/
theorem Discipline.Lawful.forwarded_of_gone (hD : D.Lawful info transfer held) {env : κ}
    {c c' : Controller} (h : D.step env c = .ok c') {req : ProcRequest} (hreq : req ∈ c.waitQueue)
    (hgone : req ∉ c'.waitQueue) : Forwarded info transfer c' req := by
  refine ⟨hgone, ?_⟩
  obtain ⟨s, vs, hvs, rfl⟩ := hD.step_visits h (map_snd_label c.waitQueue)
  have hswept := swept_of_visits hD hvs
  have hmem : ((0 : ℕ), req) ∈ vs.map Prod.fst := by
    rw [visits_map_fst hvs]
    exact List.mem_map_of_mem hreq
  obtain ⟨⟨e, fate⟩, hv, rfl⟩ := List.mem_map.mp hmem
  cases fate with
  | placed k m =>
    obtain ⟨hid, htrans, hlt⟩ := hswept.routed _ (mem_placements hv)
    obtain ⟨queue, hqueue⟩ : ∃ queue, c.sendQueue[k]? = some queue :=
      ⟨_, List.getElem?_eq_getElem hlt⟩
    refine ⟨k, m, queue ++ onQueue k (placements vs), hid, htrans, ?_, ?_⟩
    · show (D.queues s)[k]? = _
      rw [hswept.grown k, hqueue]
      rfl
    · apply List.mem_append_right
      exact List.mem_map.mpr ⟨_, List.mem_filter.mpr ⟨mem_placements hv, by simp⟩, rfl⟩
  -- any other fate keeps the request
  | _ => exact absurd (List.mem_map.mpr ⟨_, mem_kept.mpr ⟨_, hv, rfl⟩, rfl⟩) hgone

/-! ### Runs -/

/-- What the calls preserve. -/
structure Traffic.Sound (D : Discipline κ σ) (info : List (Region Obj))
    (transfer : ProcRequest → Outcome MemRequest)
    (held : κ → UInt64 → ProcRequest → Fate → Prop) (t : Traffic κ) : Prop where
  ledger : t.ledger.Sound Fate.leaves
  waiting : t.ctrl.waitQueue = t.ledger.waiting.map Prod.snd
  routed : ∀ p ∈ t.placements, MemorySelector.getId info p.1.2.actualAddr = .ok (p.2.1 : Int) ∧
    transfer p.1.2 = .ok p.2.2
  queued : ∀ k queue, t.ctrl.sendQueue[k]? = some queue →
    t.takenFrom k ++ queue.map (fun req => { req with pim := D.pim }) =
      (t.placedOn k).map fun req => { req with pim := D.pim }
  held : ∀ s ∈ t.ledger.sweeps, ∀ v ∈ s.2, v.2.leaves = false → held s.1.1 s.1.2 v.1.2 v.2

theorem Traffic.Sound.conserves {t : Traffic κ} (h : t.Sound D info transfer held) :
    Conserves info transfer D.pim held t where
  numbered := h.ledger.numbered
  once := by
    rw [t.map_fst_placements]
    exact h.ledger.conserved
  waiting := h.waiting
  arrival := h.ledger.waits
  routed := h.routed
  queued := h.queued
  ordered := by
    intro e he f hf hlt
    rw [t.map_fst_placements] at hf ⊢
    rcases h.ledger.ordered e he f hf hlt with hsub | ⟨s, hs, b, hover⟩
    · exact .inl hsub
    · exact .inr ⟨s, hs, b, hover, h.held s hs (e, b) hover.1 hover.2.1⟩

theorem Traffic.sound_init (n : ℕ) :
    Traffic.Sound D info transfer held { ctrl := Controller.init n } where
  ledger := Ledger.sound_empty _
  waiting := rfl
  routed := by simp [Traffic.placements]
  queued := by
    intro k queue hk
    have hnil : queue = [] :=
      List.eq_of_mem_replicate (List.mem_of_getElem? hk)
    subst hnil
    rfl
  held := by simp

/-- **A call preserves** what is known of the requests. -/
theorem Discipline.Lawful.call_sound (hD : D.Lawful info transfer held) {cfg : Config}
    {t t' : Traffic κ} {c : Call κ} (h : t.Sound D info transfer held)
    (hcall : D.call cfg t c = .ok t') : t'.Sound D info transfer held := by
  cases c with
  | add req =>
    rcases Controller.addToMctrl_eq cfg t.ctrl req with hadd | hadd
    · simp only [call, hadd] at hcall
      cases hcall
      exact ⟨h.ledger, h.waiting, h.routed, h.queued, h.held⟩
    · simp only [call, hadd] at hcall
      cases hcall
      refine ⟨Ledger.sound_push h.ledger req, ?_, h.routed, h.queued, h.held⟩
      simp [Ledger.push, h.waiting]
  | step env =>
    simp only [call, Outcome.bind_eq_ok] at hcall
    obtain ⟨ctrl, hstep, ⟨s, vs⟩, hvisits, ht⟩ := hcall
    cases ht
    have hswept := swept_of_visits hD hvisits
    obtain ⟨s', vs', hvisits', rfl⟩ := hD.step_visits hstep h.waiting
    rw [hvisits] at hvisits'
    -- the ledger's visits are those of the step
    cases hvisits'
    have hplace : ∀ ctrl' taken', Traffic.placements
        (⟨ctrl', t.ledger.sweep Fate.leaves (env, t.ctrl.cycle + 1) vs, taken'⟩ : Traffic κ) =
          t.placements ++ placements vs := by
      intro ctrl' taken'
      simp [Traffic.placements, Ledger.sweep]
    refine ⟨Ledger.sound_sweep h.ledger _ (visits_map_fst hvisits), rfl, ?_, ?_, ?_⟩
    · intro p hp
      rw [hplace] at hp
      rcases List.mem_append.mp hp with hp | hp
      · exact h.routed p hp
      · exact ⟨(hswept.routed p hp).1, (hswept.routed p hp).2.1⟩
    · intro k queue hk
      rw [hswept.grown k] at hk
      obtain ⟨queue₀, hk₀, rfl⟩ := Option.map_eq_some_iff.mp hk
      have hq := h.queued k queue₀ hk₀
      rw [Traffic.placedOn, hplace, List.filter_append, List.map_append, List.map_append,
        List.map_append, ← List.append_assoc]
      exact congrArg (· ++ _) hq
    · intro s' hs' v hv hl
      rcases List.mem_append.mp hs' with hs' | hs'
      · exact h.held s' hs' v hv hl
      · rw [List.mem_singleton] at hs'
        subst hs'
        exact hswept.held v hv hl
  | take pid =>
    simp only [call, Controller.getReq, Outcome.bind_eq_ok] at hcall
    obtain ⟨⟨req, ctrl⟩, ⟨queue, hqueue, hreq⟩, ht⟩ := hcall
    obtain ⟨hpid, hget⟩ := listAt_eq_ok.mp hqueue
    cases queue with
    -- nothing to fetch
    | nil =>
      cases hreq
      cases ht
      exact ⟨h.ledger, h.waiting, h.routed, h.queued, h.held⟩
    | cons m queue =>
      cases hreq
      cases ht
      -- the head of one queue moves to what is fetched from it, and the other queues stay
      obtain ⟨hlt, -⟩ := List.getElem?_eq_some_iff.mp hget
      refine ⟨h.ledger, h.waiting, h.routed, ?_, h.held⟩
      intro k queue' hk
      by_cases hkp : pid.toNat = k
      · subst hkp
        obtain rfl : queue = queue' := by simpa [hlt] using hk
        have := h.queued _ _ hget
        simpa [Traffic.takenFrom, Traffic.placedOn, Traffic.placements] using this
      · rw [List.getElem?_set_ne hkp] at hk
        have := h.queued _ _ hk
        simpa [Traffic.takenFrom, hkp, Traffic.placedOn, Traffic.placements] using this

/-- **A lawful discipline conserves** its requests over every run. -/
theorem Discipline.Lawful.conserves (hD : D.Lawful info transfer held) (cfg : Config) (n : ℕ)
    {calls : List (Call κ)} {t : Traffic κ}
    (h : exec (D.call cfg) { ctrl := Controller.init n } calls = .ok t) :
    Conserves info transfer D.pim held t :=
  (exec_invariant (I := Traffic.Sound D info transfer held)
    (fun _ _ _ hs hcall => hD.call_sound hs hcall) (Traffic.sound_init n) h).conserves

/-! ### The two controllers -/

theorem Mctrl.lawful {cfg : Config} (hmodel : cfg.consistencyModel = .spinLock)
    (info : List (Region Obj)) : (Mctrl.discipline cfg info).Lawful info (Mctrl.transfer info)
      (Mctrl.Holds cfg info) where
  queues_start := fun _ _ => rfl
  step_eq := by
    intro lock c
    simp only [Mctrl.discipline, Mctrl.step]
    cases scan (Mctrl.visit cfg info lock (c.cycle + 1)) Fate.leaves c.sendQueue c.waitQueue <;> rfl
  visit_placed := by
    intro lock cycle queues req queues' k m h
    rcases Mctrl.visit_cases hmodel h with ⟨-, -, hfate⟩ |
      ⟨-, l, locked, -, -, ⟨-, -, hfate⟩ | ⟨-, hplace⟩⟩
    · cases hfate
    · cases hfate
    · obtain ⟨k', m', queue, hfate, hid, htrans, hget, hset⟩ := Controller.place_eq_ok hplace
      cases hfate
      exact ⟨hid, htrans, queue, hget, hset⟩
  within_start := fun _ _ => trivial
  within_visit := fun _ _ => trivial
  visit_kept := by
    intro lock cycle queues req queues' fate _ h hl
    rcases Mctrl.visit_cases hmodel h with ⟨hdue, hq, rfl⟩ |
      ⟨-, l, locked, hlock, hlocked, ⟨rfl, hq, rfl⟩ | ⟨-, hplace⟩⟩
    · exact ⟨hq, .inl ⟨rfl, hdue⟩⟩
    · exact ⟨hq, .inr ⟨rfl, l, hlock, hlocked⟩⟩
    · obtain ⟨k, m, queue, rfl, -⟩ := Controller.place_eq_ok hplace
      cases hl

theorem PIMMctrl.lawful {cfg : Config} (hmodel : cfg.consistencyModel = .spinLock)
    (info : List (Region Obj)) : (PIMMctrl.discipline cfg info).Lawful info (PIMMctrl.transfer info)
      (PIMMctrl.Holds cfg) where
  queues_start := fun _ _ => rfl
  step_eq := by
    intro coherence c
    simp only [PIMMctrl.discipline, PIMMctrl.step]
    cases scan (PIMMctrl.visit cfg info (c.cycle + 1)) Fate.leaves (coherence, c.sendQueue)
      c.waitQueue <;> rfl
  visit_placed := by
    intro coherence cycle s req s' k m h
    rcases PIMMctrl.visit_cases hmodel h with ⟨-, -, hfate⟩ |
      ⟨-, lock, lock', flushed, host, -, -, -, ⟨-, -, hplace⟩ | ⟨-, hfate, -⟩⟩
    · cases hfate
    · obtain ⟨k', m', queue, hfate, hid, htrans, hget, hset⟩ := Controller.place_eq_ok hplace
      cases hfate
      exact ⟨hid, htrans, queue, hget, hset⟩
    · cases hfate
  within_start := fun _ _ => .refl
  within_visit := fun hwithin h => hwithin.trans (PIMMctrl.visit_flushes h)
  visit_kept := by
    intro coherence cycle s req s' fate hwithin h hl
    rcases PIMMctrl.visit_cases hmodel h with ⟨hdue, rfl, rfl⟩ |
      ⟨-, lock, lock', flushed, host, -, -, hflush, ⟨-, -, hplace⟩ | ⟨rfl, rfl, hq, -⟩⟩
    · exact ⟨rfl, .inl ⟨rfl, hdue⟩⟩
    · obtain ⟨k', m', queue, rfl, -⟩ := Controller.place_eq_ok hplace
      cases hl
    · exact ⟨hq, .inr ⟨rfl, _, _, hwithin, hflush⟩⟩

/-- **The controllers conserve their requests** over every run, and a refused request changes
nothing. -/
theorem controllers_conserve (cfg : Config) (hmodel : cfg.consistencyModel = .spinLock)
    (info : List (Region Obj)) (n : ℕ) :
    (∀ calls t, exec ((Mctrl.discipline cfg info).call cfg) { ctrl := Controller.init n } calls =
        .ok t → Conserves info (Mctrl.transfer info) false (Mctrl.Holds cfg info) t) ∧
      (∀ calls t, exec ((PIMMctrl.discipline cfg info).call cfg) { ctrl := Controller.init n }
        calls = .ok t → Conserves info (PIMMctrl.transfer info) true (PIMMctrl.Holds cfg) t) ∧
      ∀ (c c' : Controller) (req : ProcRequest), c.addToMctrl cfg req = (false, c') → c' = c := by
  refine ⟨fun _ _ h => (Mctrl.lawful hmodel info).conserves cfg n h,
    fun _ _ h => (PIMMctrl.lawful hmodel info).conserves cfg n h, fun c c' req h => ?_⟩
  rcases Controller.addToMctrl_eq cfg c req with heq | heq
  · exact (congrArg Prod.snd (h.symm.trans heq)).trans rfl
  · cases h.symm.trans heq

/-- A coherence component over no host processor. -/
def noHost : Coherence where
  host := {
    procs := []
    world := {
      sharedCache := CacheArray.create 1 1
      tlb := PageConverter.empty 4096 1
      mctrl := Controller.init 1 } }
  spinLock := some SpinLock.freeLock
  consistency := .spinLock

/-- A coherence component over one processor, which holds the block 64 dirty. -/
def dirtyHost : Coherence where
  host := {
    procs := [{
      pid := 0
      l1Cache := (CacheArray.create 1 1).setWays 0 [⟨64, 1, true, 0, true⟩]
      insW := ⟨[], 0⟩ }]
    world := noHost.host.world }
  spinLock := noHost.spinLock
  consistency := noHost.consistency

/-- Two requests through each controller, of which the first is kept in the first cycle: its page is
locked, or its block is still to be flushed. A full controller refuses a request. -/
theorem controllers_conserve_kept :
    (∃ t, exec ((Mctrl.discipline {} oneObject).call {}) { ctrl := Controller.init 1 }
        [.add { actualAddr := 64 }, .add { actualAddr := 4096 },
          .step (SpinLock.setlock oneObject SpinLock.freeLock 64).toOption,
          .step (some SpinLock.freeLock), .take 0, .take 0] = .ok t ∧
      t.taken.map (·.2.address) = [4096, 64] ∧
      Conserves oneObject (Mctrl.transfer oneObject) false (Mctrl.Holds {} oneObject) t) ∧
    (∃ t, exec ((PIMMctrl.discipline {} oneObject).call {}) { ctrl := Controller.init 1 }
        [.add { actualAddr := 64, blockAddr := 64 }, .add { actualAddr := 4096, blockAddr := 4096 },
          .step (dirtyHost), .step (noHost), .take 0, .take 0] = .ok t ∧
      t.taken.map (·.2.address) = [4096, 64] ∧
      Conserves oneObject (PIMMctrl.transfer oneObject) true (PIMMctrl.Holds {}) t) ∧
    ∃ c, Controller.addToMctrl { crtlQueueMax := 0 } {} {} = (false, c) ∧ c = {} := by
  obtain ⟨t, ht, htaken⟩ := Outcome.exists_of_map_eq_ok (f := fun t => t.taken.map (·.2.address))
    (b := [4096, 64])
    (x := exec ((Mctrl.discipline {} oneObject).call {}) { ctrl := Controller.init 1 }
      [.add { actualAddr := 64 }, .add { actualAddr := 4096 },
        .step (SpinLock.setlock oneObject SpinLock.freeLock 64).toOption,
        .step (some SpinLock.freeLock), .take 0, .take 0]) (by decide +kernel)
  obtain ⟨u, hu, hutaken⟩ := Outcome.exists_of_map_eq_ok (f := fun t => t.taken.map (·.2.address))
    (b := [4096, 64])
    (x := exec ((PIMMctrl.discipline {} oneObject).call {}) { ctrl := Controller.init 1 }
      [.add { actualAddr := 64, blockAddr := 64 }, .add { actualAddr := 4096, blockAddr := 4096 },
        .step (dirtyHost), .step (noHost), .take 0, .take 0]) (by decide +kernel)
  have hfull : Controller.addToMctrl { crtlQueueMax := 0 } {} {} = (false, {}) := by rfl
  have hconserve := controllers_conserve {} rfl oneObject 1
  exact ⟨⟨t, ht, htaken, hconserve.1 _ t ht⟩, ⟨u, hu, hutaken, hconserve.2.1 _ u hu⟩, {}, hfull,
    (controllers_conserve { crtlQueueMax := 0 } rfl oneObject 1).2.2 {} {} {} hfull⟩

/-- A request is kept for its page lock only. -/
def PageLocked (info : List (Region Obj)) (lock : Option SpinLock) (_ : UInt64) (req : ProcRequest)
    (fate : Fate) : Prop :=
  fate = .locked ∧ ∃ l, lock = some l ∧ SpinLock.getLockState info l req.actualAddr = .ok true

/-- An earlier request that is not past its latency is overtaken, while no page is locked. -/
theorem not_conserves_latency :
    ¬ ∀ t, exec ((Mctrl.discipline {} oneObject).call {}) { ctrl := Controller.init 1 }
        [.add { cycle := 10 }, .add { actualAddr := 64 }, .step (some SpinLock.freeLock)] = .ok t →
      Conserves oneObject (Mctrl.transfer oneObject) false (PageLocked oneObject) t := by
  intro h
  let e : ℕ × ProcRequest := (0, { cycle := 10 })
  let f : ℕ × ProcRequest := (1, { actualAddr := 64 })
  let run := exec ((Mctrl.discipline {} oneObject).call {}) { ctrl := Controller.init 1 }
    [.add { cycle := 10 }, .add { actualAddr := 64 }, .step (some SpinLock.freeLock)]
  obtain ⟨t, ht, hacc⟩ := Outcome.exists_of_map_eq_ok
    (show run.map (·.ledger.accepted) = .ok [e, f] by decide +kernel)
  have hplaced : run.map (·.placements.map Prod.fst) = .ok [f] := by decide +kernel
  have hsweeps : run.map (fun t => t.ledger.sweeps.all fun s => s.2.all (·.2 ≠ .locked)) =
      .ok true := by decide +kernel
  rw [ht] at hplaced hsweeps
  replace hplaced : t.placements.map Prod.fst = [f] := Except.ok.inj hplaced
  replace hsweeps := List.all_eq_true.mp (Except.ok.inj hsweeps)
  -- The later request was placed alone, so a sweep has to name a page lock for the earlier one.
  rcases (h t ht).ordered e (by simp [hacc]) f (by simp [hplaced]) (by decide) with
    hsub | ⟨s, hs, b, ⟨hb, -⟩, rfl, -⟩
  · rw [hplaced] at hsub
    exact absurd hsub.length_le (by decide)
  · have hlocked := List.all_eq_true.mp (hsweeps s hs) _ hb
    exact absurd hlocked (by decide)

end PIMSim
