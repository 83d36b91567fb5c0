import PIMSim.PIM.Traffic
import PIMSim.Memory.Layout

/-!
# The memory objects and their queues

Each memory object takes the requests of one queue of either controller. The queue is chosen by the
field `pid` of the base class of the memory objects, which the constructor of the DRAM model sets. The
constructor of the HMC model sets the field `id` of all simulator objects in its place, and `pid` stays
at 0.

The takes are counted by the object that does them. What a memory object does with its requests is
left out: it does not touch the queues.

## Main definitions

* `MemoryObject`, `memoryObjects`: the memory objects as the simulator constructs them
* `Discipline.drain`: the loop that takes the requests of a queue
* `MemorySide`, `MemorySide.step`: both controllers with the requests that each object took
* `HmcFirst`: an HMC object comes first
* `MemorySide.OwnMemory`: the objects take what is placed for them

## Main results

* `Discipline.drain_spec`, `Discipline.drain_returns`: what the loop takes
* `requests_reach_memory`: the objects take what is placed for them if an HMC object comes first
-/

namespace PIMSim

open CSharp Transition

variable {κ σ : Type}

inductive MemoryKind
  | hmc
  | ddr
deriving DecidableEq

/-- A memory object by its fields that name it. -/
structure MemoryObject where
  kind : MemoryKind
  pid : Int := 0
  id : Int := 0
deriving DecidableEq

/-- The constructor. Its argument goes to `id`. -/
def HMCMem.create (id : Int) : MemoryObject := { kind := .hmc, id := id }

/-- The constructor. Its argument goes to `pid`. -/
def DDRMem.create (pid : Int) : MemoryObject := { kind := .ddr, pid := pid }

/-- One round of the loop over `Config.memory`, with the objects counted so far. -/
def addMemory (s : ℕ × List (Region MemoryObject)) (item : String × Int) :
    Outcome (ℕ × List (Region MemoryObject)) :=
  if item.1 = "HMC" then
    return (s.1 + 1, MemorySelector.add s.2 item.2 (HMCMem.create s.1))
  else if item.1 = "DRAM" ∨ item.1 = "PCM" then
    return (s.1 + 1, MemorySelector.add s.2 item.2 (DDRMem.create s.1))
  else
    .error (.exit 3 "Unknown Memory Type.")

/-- The memory objects of a configuration. -/
def memoryObjects (memory : List (String × Int)) : Outcome (List (Region MemoryObject)) := do
  let (_, info) ← memory.foldlM addMemory (0, [])
  return info

/-- `while (get_req(pid, ref req_)) TransationQueue.Add(req_)`, for at most `n` rounds. The answer is
what was added. -/
def Discipline.drain (D : Discipline κ σ) (pid : Int) :
    ℕ → Traffic κ → Outcome (List MemRequest × Traffic κ)
  | 0, _ => .error .nonTermination
  | n + 1, t => do
    let (req, ctrl) ← t.ctrl.getReq D.pim pid
    match req with
    | none => return ([], { t with ctrl := ctrl })
    | some req => do
      let (reqs, t) ← D.drain pid n
        { t with ctrl := ctrl, taken := t.taken ++ [(pid.toNat, req)] }
      return (req :: reqs, t)

/-- Both controllers, and the requests that the memory objects took: the side, the number of the
object, and the request. -/
structure MemorySide where
  mctrl : Traffic (Option SpinLock)
  pimMctrl : Traffic Coherence
  fetched : List (Bool × ℕ × MemRequest) := []

/-- A processor or a unit offers a request, a controller does a cycle beside some surroundings, or a
memory object does one. -/
inductive MemoryEvent
  | add (req : ProcRequest)
  | pimAdd (req : ProcRequest)
  | mctrlStep (lock : Option SpinLock)
  | pimMctrlStep (coherence : Coherence)
  | memStep (i : ℕ)

namespace MemorySide

/-- Both controllers before the first cycle. -/
def init (info : List (Region MemoryObject)) : MemorySide where
  mctrl := { ctrl := Controller.init info.length }
  pimMctrl := { ctrl := Controller.init info.length }

variable (cfg : Config) (usePim : Bool) (info : List (Region MemoryObject))

/-- The object takes its requests from the host's controller. -/
def takeHost (s : MemorySide) (i : ℕ) (pid : Int) : Outcome MemorySide := do
  let (reqs, t) ← (Mctrl.discipline cfg info).drain pid
    (s.mctrl.ctrl.sendQueue.flatten.length + 1) s.mctrl
  return { s with mctrl := t, fetched := s.fetched ++ reqs.map fun r => (false, i, r) }

/-- The object takes its requests from the controller of the memory side. -/
def takePim (s : MemorySide) (i : ℕ) (pid : Int) : Outcome MemorySide := do
  let (reqs, t) ← (PIMMctrl.discipline cfg info).drain pid
    (s.pimMctrl.ctrl.sendQueue.flatten.length + 1) s.pimMctrl
  return { s with pimMctrl := t, fetched := s.fetched ++ reqs.map fun r => (true, i, r) }

/-- One transition. -/
def step (s : MemorySide) : MemoryEvent → Outcome MemorySide
  | .add req => do
    let t ← (Mctrl.discipline cfg info).call cfg s.mctrl (.add req)
    return { s with mctrl := t }
  | .pimAdd req => do
    let t ← (PIMMctrl.discipline cfg info).call cfg s.pimMctrl (.add req)
    return { s with pimMctrl := t }
  | .mctrlStep lock => do
    let t ← (Mctrl.discipline cfg info).call cfg s.mctrl (.step lock)
    return { s with mctrl := t }
  | .pimMctrlStep coherence => do
    let t ← (PIMMctrl.discipline cfg info).call cfg s.pimMctrl (.step coherence)
    return { s with pimMctrl := t }
  | .memStep i => do
    let region ← listAt info i
    let s ← s.takeHost cfg info i region.obj.pid
    if usePim then s.takePim cfg info i region.obj.pid else return s

/-- The requests that the object took from the controller of one side, in order. -/
def fetchedBy (s : MemorySide) (pim : Bool) (i : ℕ) : List MemRequest :=
  (s.fetched.filter fun f => f.1 = pim ∧ f.2.1 = i).map (·.2.2)

/-- The address, cut to the width of the layout where it lies above it, is in the range of the
object. -/
def InRange (addr : UInt64) (k : ℕ) : Prop :=
  ∃ region a, info[k]? = some region ∧ MemorySelector.Region.holds region a = true ∧
    (a = addr ∨ MemorySelector.resize info addr = .ok a)

/-- **The objects take what is placed for them**: both controllers conserve their requests and place
each of them for the object whose range holds its address, an object took from a controller what was
taken from its queue, and its next cycle takes everything that is left there. -/
structure OwnMemory (s : MemorySide) : Prop where
  conserved : Conserves info (Mctrl.transfer info) false (fun _ _ _ _ => True) s.mctrl
  conservedPim : Conserves info (PIMMctrl.transfer info) true (fun _ _ _ _ => True) s.pimMctrl
  inRange : ∀ p ∈ s.mctrl.placements ++ s.pimMctrl.placements,
    InRange info p.1.2.actualAddr p.2.1
  own : ∀ k, s.fetchedBy false k = s.mctrl.takenFrom k
  ownPim : ∀ k, s.fetchedBy true k = s.pimMctrl.takenFrom k
  next : ∀ k < info.length, ∃ s', step cfg usePim info s (.memStep k) = .ok s' ∧
    s'.mctrl.ctrl.sendQueue[k]? = some [] ∧
    (usePim = true → s'.pimMctrl.ctrl.sendQueue[k]? = some [])

end MemorySide

/-- An HMC object comes first among the memory objects. -/
def HmcFirst (memory : List (String × Int)) : Prop :=
  ∀ i item, memory[i]? = some item → item.1 = "HMC" → i = 0

/-! ### The constructed objects -/

/-- The object that is constructed for the `i`-th entry of the configuration. -/
def memoryObjectAt (i : ℕ) (item : String × Int) : MemoryObject :=
  if item.1 = "HMC" then HMCMem.create i else DDRMem.create i

theorem addMemory_eq_ok {n : ℕ} {info : List (Region MemoryObject)} {item : String × Int}
    {s : ℕ × List (Region MemoryObject)} (h : addMemory (n, info) item = .ok s) :
    s = (n + 1, MemorySelector.add info item.2 (memoryObjectAt n item)) := by
  unfold addMemory at h
  unfold memoryObjectAt
  split_ifs at h with hhmc hddr
  · cases h
    rw [if_pos hhmc]
  · cases h
    rw [if_neg hhmc]

/-- A region is added behind the others. -/
theorem map_obj_add (info : List (Region MemoryObject)) (max : Int) (obj : MemoryObject) :
    (MemorySelector.add info max obj).map Region.obj = info.map Region.obj ++ [obj] := by
  unfold MemorySelector.add
  cases h : info.getLast? with
  | none =>
    rw [List.getLast?_eq_none_iff.mp h]
    rfl
  | some last => simp

theorem map_obj_foldlM {memory : List (String × Int)} {n n' : ℕ}
    {info info' : List (Region MemoryObject)}
    (h : memory.foldlM addMemory (n, info) = .ok (n', info')) :
    info'.map Region.obj =
      info.map Region.obj ++ memory.mapIdx fun i item => memoryObjectAt (n + i) item := by
  induction memory generalizing n info with
  | nil =>
    cases h
    simp
  | cons item memory ih =>
    rw [List.foldlM_cons] at h
    obtain ⟨s, hadd, h⟩ := Outcome.bind_eq_ok.mp h
    rw [addMemory_eq_ok hadd] at h
    rw [ih h, map_obj_add, List.append_assoc, List.singleton_append, List.mapIdx_cons]
    simp only [Nat.add_zero, Nat.add_assoc, Nat.add_comm 1]

/-- The objects are those of the entries, in order. -/
theorem map_obj_memoryObjects {memory : List (String × Int)} {info : List (Region MemoryObject)}
    (h : memoryObjects memory = .ok info) :
    info.map Region.obj = memory.mapIdx memoryObjectAt := by
  obtain ⟨⟨n, info'⟩, hfold, heq⟩ := Outcome.bind_eq_ok.mp h
  cases heq
  rw [map_obj_foldlM hfold]
  simp

/-- **An object knows its position**, if an HMC object comes first. -/
theorem pid_eq_position {memory : List (String × Int)} {info : List (Region MemoryObject)}
    (h : memoryObjects memory = .ok info) (hfirst : HmcFirst memory) {i : ℕ}
    {region : Region MemoryObject} (hregion : info[i]? = some region) : region.obj.pid = i := by
  have hobj : (memory.mapIdx memoryObjectAt)[i]? = some region.obj := by
    rw [← map_obj_memoryObjects h, List.getElem?_map, hregion]
    rfl
  rw [List.getElem?_mapIdx] at hobj
  obtain ⟨item, hitem, hobj⟩ := Option.map_eq_some_iff.mp hobj
  rw [← hobj, memoryObjectAt]
  split_ifs with hhmc
  · rw [hfirst i item hitem hhmc]
    rfl
  · rfl

/-- The objects know their positions. -/
def Positioned (info : List (Region MemoryObject)) : Prop :=
  ∀ (i : ℕ) (region : Region MemoryObject), info[i]? = some region → region.obj.pid = i

/-! ### The loop that takes the requests of a queue -/

namespace Discipline

variable {Obj : Type} {D : Discipline κ σ} {info : List (Region Obj)} {pid : Int}
  {transfer : ProcRequest → Outcome MemRequest} {held : κ → UInt64 → ProcRequest → Fate → Prop}

/-- **The loop** takes what it answers from the queue, which is empty afterwards. -/
theorem drain_spec {n : ℕ} {t t' : Traffic κ} {reqs : List MemRequest}
    (h : D.drain pid n t = .ok (reqs, t')) :
    t'.taken = t.taken ++ reqs.map (fun r => (pid.toNat, r)) ∧
      t'.ctrl.sendQueue[pid.toNat]? = some [] := by
  induction n generalizing t reqs with
  | zero => cases h
  | succ n ih =>
    obtain ⟨⟨req, ctrl⟩, hget, h⟩ := Outcome.bind_eq_ok.mp h
    cases req with
    | none =>
      cases h
      refine ⟨(List.append_nil _).symm, ?_⟩
      obtain ⟨queue, hqueue, hreq⟩ := Outcome.bind_eq_ok.mp hget
      cases queue with
      | nil =>
        cases hreq
        exact (listAt_eq_ok.mp hqueue).2
      | cons m queue => cases hreq
    | some req =>
      obtain ⟨⟨reqs', t₁⟩, hdrain, heq⟩ := Outcome.bind_eq_ok.mp h
      cases heq
      obtain ⟨htaken, hempty⟩ := ih hdrain
      refine ⟨?_, hempty⟩
      rw [htaken, List.map_cons, List.append_assoc, List.singleton_append]

/-- The loop is a sequence of calls of the memory object. -/
theorem Lawful.drain_sound (hD : D.Lawful info transfer held) {n : ℕ} {t t' : Traffic κ}
    {reqs : List MemRequest} (hsound : t.Sound D info transfer held)
    (h : D.drain pid n t = .ok (reqs, t')) : t'.Sound D info transfer held := by
  induction n generalizing t reqs with
  | zero => cases h
  | succ n ih =>
    obtain ⟨⟨req, ctrl⟩, hget, h⟩ := Outcome.bind_eq_ok.mp h
    cases req with
    | none =>
      cases h
      have hcall : D.call {} t (.take pid) = .ok { t with ctrl := ctrl } := by
        simp only [call, hget, Outcome.ok_bind]
        rfl
      exact hD.call_sound hsound hcall
    | some req =>
      obtain ⟨⟨reqs', t₁⟩, hdrain, heq⟩ := Outcome.bind_eq_ok.mp h
      cases heq
      have hcall : D.call {} t (.take pid) =
          .ok { t with ctrl := ctrl, taken := t.taken ++ [(pid.toNat, req)] } := by
        simp only [call, hget, Outcome.ok_bind]
        rfl
      exact ih (hD.call_sound hsound hcall) hdrain

/-- **The loop ends** after as many rounds as the queue has requests. -/
theorem drain_returns {n : ℕ} {t : Traffic κ} {queue : List MemRequest} (hpid : 0 ≤ pid)
    (hqueue : t.ctrl.sendQueue[pid.toNat]? = some queue) (hn : queue.length < n) :
    ∃ reqs t', D.drain pid n t = .ok (reqs, t') := by
  induction n generalizing t queue with
  | zero => omega
  | succ n ih =>
    have hat : listAt t.ctrl.sendQueue pid = .ok queue := listAt_eq_ok.mpr ⟨hpid, hqueue⟩
    cases queue with
    | nil =>
      refine ⟨[], { t with ctrl := t.ctrl }, ?_⟩
      simp only [drain, Controller.getReq, hat, Outcome.ok_bind]
      rfl
    | cons m queue =>
      obtain ⟨hlt, -⟩ := List.getElem?_eq_some_iff.mp hqueue
      have hrest : ({ t.ctrl with sendQueue := t.ctrl.sendQueue.set pid.toNat queue } :
          Controller).sendQueue[pid.toNat]? = some queue := List.getElem?_set_self hlt
      obtain ⟨reqs, t', hdrain⟩ := ih (t := { t with
        ctrl := { t.ctrl with sendQueue := t.ctrl.sendQueue.set pid.toNat queue }
        taken := t.taken ++ [(pid.toNat, { m with pim := D.pim })] }) hrest
        (by rw [List.length_cons] at hn; omega)
      refine ⟨{ m with pim := D.pim } :: reqs, t', ?_⟩
      simp only [drain, Controller.getReq, hat, Outcome.ok_bind]
      show (D.drain pid n _ >>= _) = _
      rw [hdrain]
      rfl

end Discipline

/-! ### The controllers under any consistency model -/

/-- The host's controller places requests where they belong, also where it ignores some. -/
theorem Mctrl.lawful_any (cfg : Config) {Obj : Type} (info : List (Region Obj)) :
    (Mctrl.discipline cfg info).Lawful info (Mctrl.transfer info) fun _ _ _ _ => True where
  queues_start := fun _ _ => rfl
  step_eq := by
    intro lock c
    simp only [Mctrl.discipline, Mctrl.step]
    cases Sweep.scan (Mctrl.visit cfg info lock (c.cycle + 1)) Fate.leaves c.sendQueue
      c.waitQueue <;> rfl
  visit_placed := by
    intro lock cycle queues req queues' k m h
    by_cases hmodel : cfg.consistencyModel = .spinLock
    · exact (Mctrl.lawful hmodel info).visit_placed h
    · simp only [Mctrl.discipline, Mctrl.visit, if_neg hmodel] at h
      split_ifs at h <;> cases h
  within_start := fun _ _ => trivial
  within_visit := fun _ _ => trivial
  visit_kept := by
    intro lock cycle queues req queues' fate hwithin h hl
    refine ⟨?_, trivial⟩
    by_cases hmodel : cfg.consistencyModel = .spinLock
    · exact ((Mctrl.lawful hmodel info).visit_kept hwithin h hl).1
    · simp only [Mctrl.discipline, Mctrl.visit, if_neg hmodel] at h
      split_ifs at h <;> cases h <;> rfl

/-- So does the controller of the memory side. -/
theorem PIMMctrl.lawful_any (cfg : Config) {Obj : Type} (info : List (Region Obj)) :
    (PIMMctrl.discipline cfg info).Lawful info (PIMMctrl.transfer info) fun _ _ _ _ => True where
  queues_start := fun _ _ => rfl
  step_eq := by
    intro coherence c
    simp only [PIMMctrl.discipline, PIMMctrl.step]
    cases Sweep.scan (PIMMctrl.visit cfg info (c.cycle + 1)) Fate.leaves (coherence, c.sendQueue)
      c.waitQueue <;> rfl
  visit_placed := by
    intro coherence cycle s req s' k m h
    by_cases hmodel : cfg.consistencyModel = .spinLock
    · exact (PIMMctrl.lawful hmodel info).visit_placed h
    · simp only [PIMMctrl.discipline, PIMMctrl.visit, if_neg hmodel] at h
      split_ifs at h <;> cases h
  within_start := fun _ _ => .refl
  within_visit := fun hwithin h => hwithin.trans (PIMMctrl.visit_flushes h)
  visit_kept := by
    intro coherence cycle s req s' fate hwithin h hl
    refine ⟨?_, trivial⟩
    by_cases hmodel : cfg.consistencyModel = .spinLock
    · exact ((PIMMctrl.lawful hmodel info).visit_kept hwithin h hl).1
    · simp only [PIMMctrl.discipline, PIMMctrl.visit, if_neg hmodel] at h
      split_ifs at h <;> cases h <;> rfl

/-- The range of the object that an address selects holds the address. -/
theorem MemorySide.inRange_of_getId {info : List (Region MemoryObject)} {addr : UInt64} {k : ℕ}
    (h : MemorySelector.getId info addr = .ok (k : Int)) : MemorySide.InRange info addr k := by
  have hsearch : ∀ a, MemorySelector.searchId info a = k →
      (a = addr ∨ MemorySelector.resize info addr = .ok a) → MemorySide.InRange info addr k := by
    intro a ha hor
    obtain ⟨pre, region, post, rfl, rfl, hholds, -⟩ := MemorySelector.exists_of_searchId ha
    refine ⟨region, a, ?_, hholds, hor⟩
    rw [List.getElem?_append_right (Nat.le_refl _), Nat.sub_self]
    rfl
  cases hlast : info.getLast? with
  | none =>
    rw [List.getLast?_eq_none_iff.mp hlast] at h
    cases h
  | some last =>
    rw [MemorySelector.getId_eq hlast] at h
    obtain ⟨a, ha, hid⟩ := Outcome.bind_eq_ok.mp h
    have hk : MemorySelector.searchId info a = k := Except.ok.inj hid
    split_ifs at ha with hlt
    · exact hsearch a hk (.inr ha)
    · exact hsearch a hk (.inl (Except.ok.inj ha).symm)

/-! ### Runs -/

/-- There is a queue for each of `n` objects. -/
def Traffic.Serves (n : ℕ) (t : Traffic κ) : Prop :=
  ∀ k < n, ∃ queue, t.ctrl.sendQueue[k]? = some queue

theorem Traffic.serves_init (n : ℕ) :
    Traffic.Serves n ({ ctrl := Controller.init n } : Traffic κ) := fun _ hk =>
  ⟨[], List.getElem?_replicate_of_lt hk⟩

namespace Discipline

variable {Obj : Type} {D : Discipline κ σ} {info : List (Region Obj)} {n : ℕ}
  {transfer : ProcRequest → Outcome MemRequest} {held : κ → UInt64 → ProcRequest → Fate → Prop}

theorem serves_add {cfg : Config} {t t' : Traffic κ} {req : ProcRequest} (h : t.Serves n)
    (hcall : D.call cfg t (.add req) = .ok t') : t'.Serves n := by
  rcases Controller.addToMctrl_eq cfg t.ctrl req with hadd | hadd
  · simp only [call, hadd] at hcall
    cases hcall
    exact h
  · simp only [call, hadd] at hcall
    cases hcall
    exact h

theorem Lawful.serves_step (hD : D.Lawful info transfer held) {cfg : Config} {t t' : Traffic κ}
    {env : κ} (hsound : t.Sound D info transfer held) (h : t.Serves n)
    (hcall : D.call cfg t (.step env) = .ok t') : t'.Serves n := by
  simp only [call, Outcome.bind_eq_ok] at hcall
  obtain ⟨ctrl, hstep, ⟨s, vs⟩, hvisits, ht⟩ := hcall
  cases ht
  obtain ⟨s', vs', hvisits', rfl⟩ := hD.step_visits hstep hsound.waiting
  have hswept := swept_of_visits hD hvisits'
  intro k hk
  obtain ⟨queue, hqueue⟩ := h k hk
  refine ⟨queue ++ onQueue k (placements vs'), ?_⟩
  show (D.queues s')[k]? = _
  rw [hswept.grown k, hqueue]
  rfl

theorem serves_drain {pid : Int} {m : ℕ} {t t' : Traffic κ} {reqs : List MemRequest}
    (h : t.Serves n) (hdrain : D.drain pid m t = .ok (reqs, t')) : t'.Serves n := by
  induction m generalizing t reqs with
  | zero => cases hdrain
  | succ m ih =>
    obtain ⟨⟨req, ctrl⟩, hget, hdrain⟩ := Outcome.bind_eq_ok.mp hdrain
    obtain ⟨queue, hqueue, hreq⟩ := Outcome.bind_eq_ok.mp hget
    cases queue with
    | nil =>
      cases hreq
      cases hdrain
      exact h
    | cons m queue =>
      cases hreq
      obtain ⟨⟨reqs', t₁⟩, hrest, heq⟩ := Outcome.bind_eq_ok.mp hdrain
      cases heq
      refine ih (fun k hk => ?_) hrest
      obtain ⟨q, hq⟩ := h k hk
      by_cases hkp : pid.toNat = k
      · exact ⟨queue, by rw [hkp]; exact List.getElem?_set_self (List.getElem?_eq_some_iff.mp hq).1⟩
      · exact ⟨q, by rw [← hq]; exact List.getElem?_set_ne hkp⟩

end Discipline

namespace MemorySide

variable {cfg : Config} {usePim : Bool} {info : List (Region MemoryObject)} {s s' : MemorySide}

/-- What every transition preserves. -/
structure Kept (cfg : Config) (info : List (Region MemoryObject)) (s : MemorySide) : Prop where
  sound : s.mctrl.Sound (Mctrl.discipline cfg info) info (Mctrl.transfer info) fun _ _ _ _ => True
  soundPim : s.pimMctrl.Sound (PIMMctrl.discipline cfg info) info (PIMMctrl.transfer info)
    fun _ _ _ _ => True
  serves : s.mctrl.Serves info.length
  servesPim : s.pimMctrl.Serves info.length
  own : ∀ k, s.fetchedBy false k = s.mctrl.takenFrom k
  ownPim : ∀ k, s.fetchedBy true k = s.pimMctrl.takenFrom k

theorem kept_init : Kept cfg info (init info) where
  sound := Traffic.sound_init _
  soundPim := Traffic.sound_init _
  serves := Traffic.serves_init _
  servesPim := Traffic.serves_init _
  own := fun _ => rfl
  ownPim := fun _ => rfl

/-- What an object took grows by what it takes. -/
theorem fetchedBy_append (s : MemorySide) (t : Traffic (Option SpinLock)) (u : Traffic Coherence)
    (pim pim' : Bool) (i k : ℕ) (reqs : List MemRequest) :
    fetchedBy ⟨t, u, s.fetched ++ reqs.map fun r => (pim', i, r)⟩ pim k =
      s.fetchedBy pim k ++ if pim' = pim ∧ i = k then reqs else [] := by
  unfold fetchedBy
  rw [List.filter_append, List.map_append, List.filter_map, List.map_map]
  congr 1
  split_ifs with h
  · obtain ⟨rfl, rfl⟩ := h
    simp [Function.comp_def]
  · simp [Function.comp_def, h]

theorem takenFrom_append {t t' : Traffic κ} {i : ℕ} {reqs : List MemRequest}
    (h : t'.taken = t.taken ++ reqs.map fun r => (i, r)) (k : ℕ) :
    t'.takenFrom k = t.takenFrom k ++ if i = k then reqs else [] := by
  unfold Traffic.takenFrom
  rw [h, List.filter_append, List.map_append, List.filter_map, List.map_map]
  congr 1
  split_ifs with hik
  · subst hik
    simp [Function.comp_def]
  · simp [Function.comp_def, hik]

/-- An object that knows its position takes from its own queue of the host's controller. -/
theorem Kept.takeHost (h : Kept cfg info s) {i : ℕ} (ht : s.takeHost cfg info i i = .ok s') :
    Kept cfg info s' ∧ s'.mctrl.ctrl.sendQueue[i]? = some [] := by
  obtain ⟨⟨reqs, t⟩, hdrain, heq⟩ := Outcome.bind_eq_ok.mp ht
  cases heq
  obtain ⟨htaken, hempty⟩ := Discipline.drain_spec hdrain
  rw [Int.toNat_natCast] at htaken hempty
  refine ⟨⟨(Mctrl.lawful_any cfg info).drain_sound h.sound hdrain, h.soundPim,
    Discipline.serves_drain h.serves hdrain, h.servesPim, fun k => ?_, fun k => ?_⟩, hempty⟩
  · rw [fetchedBy_append, takenFrom_append htaken, h.own]
    simp only [true_and]
  · rw [fetchedBy_append, ← h.ownPim, if_neg (fun hne => Bool.noConfusion hne.1), List.append_nil]

/-- And from that of the memory side's controller. -/
theorem Kept.takePim (h : Kept cfg info s) {i : ℕ} (ht : s.takePim cfg info i i = .ok s') :
    Kept cfg info s' ∧ s'.pimMctrl.ctrl.sendQueue[i]? = some [] ∧ s'.mctrl = s.mctrl := by
  obtain ⟨⟨reqs, t⟩, hdrain, heq⟩ := Outcome.bind_eq_ok.mp ht
  cases heq
  obtain ⟨htaken, hempty⟩ := Discipline.drain_spec hdrain
  rw [Int.toNat_natCast] at htaken hempty
  refine ⟨⟨h.sound, (PIMMctrl.lawful_any cfg info).drain_sound h.soundPim hdrain, h.serves,
    Discipline.serves_drain h.servesPim hdrain, fun k => ?_, fun k => ?_⟩, hempty, rfl⟩
  · rw [fetchedBy_append, ← h.own, if_neg (fun hne => Bool.noConfusion hne.1), List.append_nil]
  · rw [fetchedBy_append, takenFrom_append htaken, h.ownPim]
    simp only [true_and]

/-- **A transition** keeps what is known, when the objects know their positions. -/
theorem Kept.step (hpid : Positioned info)
    (h : Kept cfg info s) {e : MemoryEvent} (hs : MemorySide.step cfg usePim info s e = .ok s') :
    Kept cfg info s' := by
  -- Only the fetches of `memStep` change who has taken what; the other transitions leave `taken`.
  cases e with
  | add req =>
    obtain ⟨t, hcall, heq⟩ := Outcome.bind_eq_ok.mp hs
    cases heq
    have htaken : t.taken = s.mctrl.taken := by
      rcases Controller.addToMctrl_eq cfg s.mctrl.ctrl req with hadd | hadd <;>
      · simp only [Discipline.call, hadd] at hcall
        cases hcall
        rfl
    refine ⟨(Mctrl.lawful_any cfg info).call_sound h.sound hcall, h.soundPim,
      Discipline.serves_add h.serves hcall, h.servesPim, fun k => ?_, h.ownPim⟩
    unfold Traffic.takenFrom
    rw [htaken]
    exact h.own k
  | pimAdd req =>
    obtain ⟨t, hcall, heq⟩ := Outcome.bind_eq_ok.mp hs
    cases heq
    have htaken : t.taken = s.pimMctrl.taken := by
      rcases Controller.addToMctrl_eq cfg s.pimMctrl.ctrl req with hadd | hadd <;>
      · simp only [Discipline.call, hadd] at hcall
        cases hcall
        rfl
    refine ⟨h.sound, (PIMMctrl.lawful_any cfg info).call_sound h.soundPim hcall, h.serves,
      Discipline.serves_add h.servesPim hcall, h.own, fun k => ?_⟩
    unfold Traffic.takenFrom
    rw [htaken]
    exact h.ownPim k
  | mctrlStep lock =>
    obtain ⟨t, hcall, heq⟩ := Outcome.bind_eq_ok.mp hs
    cases heq
    have htaken : t.taken = s.mctrl.taken := by
      simp only [Discipline.call, Outcome.bind_eq_ok] at hcall
      obtain ⟨ctrl, -, r, -, ht⟩ := hcall
      cases ht
      rfl
    refine ⟨(Mctrl.lawful_any cfg info).call_sound h.sound hcall, h.soundPim,
      (Mctrl.lawful_any cfg info).serves_step h.sound h.serves hcall, h.servesPim, fun k => ?_,
      h.ownPim⟩
    unfold Traffic.takenFrom
    rw [htaken]
    exact h.own k
  | pimMctrlStep coherence =>
    obtain ⟨t, hcall, heq⟩ := Outcome.bind_eq_ok.mp hs
    cases heq
    have htaken : t.taken = s.pimMctrl.taken := by
      simp only [Discipline.call, Outcome.bind_eq_ok] at hcall
      obtain ⟨ctrl, -, r, -, ht⟩ := hcall
      cases ht
      rfl
    refine ⟨h.sound, (PIMMctrl.lawful_any cfg info).call_sound h.soundPim hcall, h.serves,
      (PIMMctrl.lawful_any cfg info).serves_step h.soundPim h.servesPim hcall, h.own, fun k => ?_⟩
    unfold Traffic.takenFrom
    rw [htaken]
    exact h.ownPim k
  | memStep i =>
    obtain ⟨region, hregion, hs⟩ := Outcome.bind_eq_ok.mp hs
    obtain ⟨s₁, hhost, hs⟩ := Outcome.bind_eq_ok.mp hs
    rw [hpid i region (listAt_natCast.mp hregion)] at hhost hs
    have h₁ := (h.takeHost hhost).1
    cases usePim with
    | false =>
      cases hs
      exact h₁
    | true => exact (h₁.takePim hs).1

theorem length_lt_fuel {queues : List (List MemRequest)} {k : ℕ} {queue : List MemRequest}
    (h : queues[k]? = some queue) : queue.length < queues.flatten.length + 1 :=
  Nat.lt_succ_of_le (List.sublist_flatten_of_mem (List.mem_of_getElem? h)).length_le

theorem Kept.takeHost_returns (h : Kept cfg info s) {k : ℕ} (hk : k < info.length) :
    ∃ s', s.takeHost cfg info k k = .ok s' := by
  obtain ⟨queue, hqueue⟩ := h.serves k hk
  obtain ⟨reqs, t, hdrain⟩ := Discipline.drain_returns (D := Mctrl.discipline cfg info)
    (Int.natCast_nonneg k) hqueue (length_lt_fuel hqueue)
  refine ⟨_, Outcome.bind_eq_ok.mpr ⟨(reqs, t), hdrain, rfl⟩⟩

theorem Kept.takePim_returns (h : Kept cfg info s) {k : ℕ} (hk : k < info.length) :
    ∃ s', s.takePim cfg info k k = .ok s' := by
  obtain ⟨queue, hqueue⟩ := h.servesPim k hk
  obtain ⟨reqs, t, hdrain⟩ := Discipline.drain_returns (D := PIMMctrl.discipline cfg info)
    (Int.natCast_nonneg k) hqueue (length_lt_fuel hqueue)
  refine ⟨_, Outcome.bind_eq_ok.mpr ⟨(reqs, t), hdrain, rfl⟩⟩

/-- **The next cycle of an object** takes everything that is placed for it. -/
theorem Kept.next (hpid : Positioned info) (h : Kept cfg info s) {k : ℕ} (hk : k < info.length) :
    ∃ s', MemorySide.step cfg usePim info s (.memStep k) = .ok s' ∧
      s'.mctrl.ctrl.sendQueue[k]? = some [] ∧
      (usePim = true → s'.pimMctrl.ctrl.sendQueue[k]? = some []) := by
  obtain ⟨region, hregion⟩ : ∃ region, info[k]? = some region := ⟨_, List.getElem?_eq_getElem hk⟩
  obtain ⟨s₁, hhost⟩ := h.takeHost_returns hk
  obtain ⟨h₁, hempty⟩ := h.takeHost hhost
  have hat : listAt info (k : Int) = .ok region := listAt_natCast.mpr hregion
  cases usePim with
  | false =>
    refine ⟨s₁, ?_, hempty, fun huse => Bool.noConfusion huse⟩
    simp only [MemorySide.step, hat, Outcome.ok_bind, hpid k region hregion, hhost]
    rfl
  | true =>
    obtain ⟨s₂, hpim⟩ := h₁.takePim_returns hk
    obtain ⟨-, hemptyPim, hsame⟩ := h₁.takePim hpim
    refine ⟨s₂, ?_, hsame ▸ hempty, fun _ => hemptyPim⟩
    simp only [MemorySide.step, hat, Outcome.ok_bind, hpid k region hregion, hhost]
    exact hpim

/-- What is known makes the objects take what is placed for them. -/
theorem Kept.ownMemory (hpid : Positioned info) (h : Kept cfg info s) :
    OwnMemory cfg usePim info s where
  conserved := h.sound.conserves
  conservedPim := h.soundPim.conserves
  inRange := by
    intro p hp
    rcases List.mem_append.mp hp with hp | hp
    · exact inRange_of_getId (h.sound.routed p hp).1
    · exact inRange_of_getId (h.soundPim.routed p hp).1
  own := h.own
  ownPim := h.ownPim
  next := fun _ hk => h.next hpid hk

end MemorySide

/-- **Requests reach their own memory** over every run, if an HMC object comes first: whatever the
kinds and the number of the objects are, each takes exactly what the controllers place for it, which
are the requests of the addresses in its range. -/
theorem requests_reach_memory {memory : List (String × Int)} {info : List (Region MemoryObject)}
    (hinfo : memoryObjects memory = .ok info) (hfirst : HmcFirst memory) (cfg : Config)
    (usePim : Bool) {events : List MemoryEvent} {s : MemorySide}
    (h : exec (MemorySide.step cfg usePim info) (MemorySide.init info) events = .ok s) :
    MemorySide.OwnMemory cfg usePim info s := by
  have hpid : Positioned info := fun _ _ hregion => pid_eq_position hinfo hfirst hregion
  have hkept : MemorySide.Kept cfg info s := exec_invariant
    (fun _ _ _ hs hstep => hs.step hpid hstep) MemorySide.kept_init h
  exact hkept.ownMemory hpid

/-- An HMC object in front of a DRAM object, or the other way around. -/
def twoObjects (hmcFirst : Bool) : List (String × Int) :=
  if hmcFirst then [("HMC", 20), ("DRAM", 20)] else [("DRAM", 20), ("HMC", 20)]

/-- Two objects in one layout. -/
def twoRegions (first second : MemoryObject) : List (Region MemoryObject) :=
  [⟨0, 1048575, first⟩, ⟨1048576, 2097150, second⟩]

/-- The lock table of two objects with no page locked. -/
def freeLockTwo : SpinLock := ⟨4096, 512, List.replicate 8 (List.replicate 64 false)⟩

/-- A request of the second object is accepted and placed. -/
def placeSecond : List MemoryEvent :=
  [.add { actualAddr := 1048576 }, .mctrlStep (some freeLockTwo)]

/-- A request of the second object, which is no HMC object, is taken by it. -/
theorem requests_reach_memory_two :
    ∃ s, exec (MemorySide.step {} true (twoRegions (HMCMem.create 0) (DDRMem.create 1)))
        (MemorySide.init (twoRegions (HMCMem.create 0) (DDRMem.create 1)))
        (placeSecond ++ [.memStep 0, .memStep 1]) = .ok s ∧
      (s.fetchedBy false 1).length = 1 ∧
      MemorySide.OwnMemory {} true (twoRegions (HMCMem.create 0) (DDRMem.create 1)) s := by
  have hinfo : memoryObjects (twoObjects true) =
      .ok (twoRegions (HMCMem.create 0) (DDRMem.create 1)) := by decide +kernel
  have hfirst : HmcFirst (twoObjects true) := by
    intro i item hitem hhmc
    match i with
    | 0 => rfl
    | 1 =>
      cases hitem
      exact absurd hhmc (by decide)
    | i + 2 => cases hitem
  have hrun : (exec (MemorySide.step {} true (twoRegions (HMCMem.create 0) (DDRMem.create 1)))
      (MemorySide.init (twoRegions (HMCMem.create 0) (DDRMem.create 1)))
      (placeSecond ++ [.memStep 0, .memStep 1])).map (fun s => (s.fetchedBy false 1).length) =
        .ok 1 := by decide +kernel
  obtain ⟨s, hs, hlength⟩ := Outcome.exists_of_map_eq_ok hrun
  exact ⟨s, hs, hlength, requests_reach_memory hinfo hfirst {} true hs⟩

/-- A request of the second object, which is an HMC object, is not taken by it. -/
theorem not_own_memory :
    ¬∀ memory info, memoryObjects memory = .ok info → ∀ events s,
      exec (MemorySide.step {} true info) (MemorySide.init info) events = .ok s →
      MemorySide.OwnMemory {} true info s := by
  intro hall
  have hinfo : memoryObjects (twoObjects false) =
      .ok (twoRegions (DDRMem.create 0) (HMCMem.create 1)) := by decide +kernel
  have hrun : (exec (MemorySide.step {} true (twoRegions (DDRMem.create 0) (HMCMem.create 1)))
      (MemorySide.init (twoRegions (DDRMem.create 0) (HMCMem.create 1)))
      (placeSecond ++ [.memStep 1])).map (fun s => (s.mctrl.ctrl.sendQueue[1]?).map List.length) =
        .ok (some 1) := by decide +kernel
  obtain ⟨s', hs', hlength⟩ := Outcome.exists_of_map_eq_ok hrun
  obtain ⟨s, hs, hlast⟩ := exec_append_eq_ok.mp hs'
  obtain ⟨s₁, hstep, hnil⟩ := exec_cons_eq_ok.mp hlast
  cases hnil
  obtain ⟨s₂, hstep₂, hempty, -⟩ := (hall _ _ hinfo _ s hs).next 1 (by decide)
  cases hstep.symm.trans hstep₂
  rw [hempty] at hlength
  exact absurd (Option.some.inj hlength) (by decide)

end PIMSim
