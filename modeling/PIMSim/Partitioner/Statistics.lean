import PIMSim.Partitioner.InsPartition

/-!
# The request counters of the partitioner

For each processor and for each memory-side unit the partitioner keeps a number that its report
prints as the inputs it has handed to that unit.

## Main definitions

* `InsPartition.counters`: `divide_host_reqs` and `divide_pim_reqs`
* `InsPartition.countedFor`: the unit that a call of `get_req` is counted for
* `Feed.Counts`: each counter is the number of inputs its unit was handed
* `Feed.CountsRight`: the calls that leave the counters right

## Main results

* `InsPartition.getReq_accounts`: what a call of `get_req` answers and counts
* `Feed.counts_iff`: the counters are right all along a run exactly when all its calls leave them
  right
-/

namespace PIMSim

open CSharp

namespace InsPartition

/-- `divide_host_reqs` and `divide_pim_reqs` -/
def counters (p : InsPartition) (host : Bool) : List UInt64 :=
  if host then p.divideHostReqs else p.dividePimReqs

/-- Every queue has its counter. -/
def Sized (p : InsPartition) : Prop :=
  ∀ host, (p.queues host).length = (p.counters host).length

instance (pc cycle : UInt64) : DecidablePred (Due cycle pc)
  | .pcTrace t => inferInstanceAs (Decidable (pc = 0 ∨ t.pc ≤ pc))
  | .instruction t => inferInstanceAs (Decidable (t.ins.cycle ≤ cycle - 1))
  | .function f => inferInstanceAs (Decidable ((TraceInput.function f).cycle ≤ cycle - 1))
  | .block b => inferInstanceAs (Decidable ((TraceInput.block b).cycle ≤ cycle - 1))

/-- The unit that a call is counted for. A processor's call is counted unless it delivers a line of
a PC trace, a memory-side unit's call only when it delivers something else. -/
def countedFor (p : InsPartition) (u : ExecUnit) (pc : UInt64) : Option ExecUnit :=
  match p.queue u with
  | [] => if u.host then some u else none
  | .pcTrace t :: _ => if Due p.cycle pc (.pcTrace t) then none else some ⟨true, u.pid⟩
  | input :: _ => if u.host ∨ Due p.cycle pc input then some u else none

/-- The step that counts for `o` and for no other unit. It adds no queue and no counter. -/
structure Counted (p : InsPartition) (o : Option ExecUnit) (p' : InsPartition) : Prop where
  sizes : ∀ host, (p'.queues host).length = (p.queues host).length
  counters : match o with
    | none => p'.counters = p.counters
    | some u => ∃ x, listAt (p.counters u.host) u.pid = .ok x ∧
        p'.counters = fun host =>
          if host = u.host then (p.counters host).set u.pid.toNat (x + 1) else p.counters host

variable {p p' : InsPartition} {u : ExecUnit} {pid : Int} {pc : UInt64} {answer : Option TraceInput}
  {q rest : List TraceInput}

@[simp] theorem setQueue_counters (p : InsPartition) (u : ExecUnit) (q : List TraceInput) :
    (p.setQueue u q).counters = p.counters := by
  unfold setQueue
  split_ifs <;> rfl

theorem length_queues_setQueue (p : InsPartition) (u : ExecUnit) (q : List TraceInput)
    (host : Bool) : ((p.setQueue u q).queues host).length = (p.queues host).length := by
  unfold setQueue queues
  cases host <;> split_ifs <;> simp

theorem counted_none_setQueue (p : InsPartition) (u : ExecUnit) (q : List TraceInput) :
    Counted p none (p.setQueue u q) :=
  ⟨length_queues_setQueue p u q, setQueue_counters p u q⟩

theorem countHost_counted (h : p.countHost pid = .ok p') : Counted p (some ⟨true, pid⟩) p' := by
  obtain ⟨x, hx, h⟩ := Outcome.bind_eq_ok.mp h
  cases h
  refine ⟨fun _ => rfl, x, hx, ?_⟩
  ext host : 1
  cases host <;> rfl

theorem countPim_counted (h : p.countPim pid = .ok p') : Counted p (some ⟨false, pid⟩) p' := by
  obtain ⟨x, hx, h⟩ := Outcome.bind_eq_ok.mp h
  cases h
  refine ⟨fun _ => rfl, x, hx, ?_⟩
  ext host : 1
  cases host <;> rfl

theorem hostNop_counted (h : p.hostNop pid = .ok (answer, p')) :
    answer = none ∧ Counted p (some ⟨true, pid⟩) p' := by
  obtain ⟨p₁, hp₁, h⟩ := Outcome.bind_eq_ok.mp h
  cases h
  exact ⟨rfl, countHost_counted hp₁⟩

/-- What was counted after a queue was shortened was counted before. -/
theorem counted_setQueue {v : ExecUnit} {o : Option ExecUnit}
    (h : Counted (p.setQueue v q) o p') : Counted p o p' := by
  refine ⟨fun host => (h.sizes host).trans (length_queues_setQueue ..), ?_⟩
  simpa only [setQueue_counters] using h.counters

/-- The answer of a call and the unit it is counted for. -/
def Accounts (p : InsPartition) (u : ExecUnit) (pc : UInt64) (answer : Option TraceInput)
    (p' : InsPartition) : Prop :=
  answer = (p.queue u).head?.filter (Due p.cycle pc) ∧ Counted p (countedFor p u pc) p'

/-- The accounts of a call that finds the queue empty, or its head due, or not. -/
theorem accounts_of_nil (hq : p.queue u = [])
    (h : answer = none ∧ Counted p (if u.host then some u else none) p') :
    Accounts p u pc answer p' := by
  unfold Accounts countedFor
  rw [hq]
  exact h

theorem accounts_of_due {input : TraceInput} (hq : p.queue u = input :: rest)
    (hdue : Due p.cycle pc input) (h : Counted p (countedFor p u pc) p') :
    Accounts p u pc (some input) p' := by
  refine ⟨?_, h⟩
  rw [hq]
  simp [Option.filter, hdue]

theorem accounts_of_not_due {input : TraceInput} (hq : p.queue u = input :: rest)
    (hdue : ¬ Due p.cycle pc input) (h : answer = none ∧ Counted p (countedFor p u pc) p') :
    Accounts p u pc answer p' := by
  refine ⟨?_, h.2⟩
  rw [hq, h.1]
  simp [Option.filter, hdue]

theorem countedFor_pcTrace (pc : UInt64) {t : PCTrace} (hq : p.queue u = .pcTrace t :: rest) :
    countedFor p u pc = if Due p.cycle pc (.pcTrace t) then none else some ⟨true, u.pid⟩ := by
  unfold countedFor
  rw [hq]

theorem countedFor_cons (pc : UInt64) {input : TraceInput} (hq : p.queue u = input :: rest)
    (hpc : ∀ t, input ≠ .pcTrace t) :
    countedFor p u pc = if u.host ∨ Due p.cycle pc input then some u else none := by
  unfold countedFor
  rw [hq]
  cases input with
  | pcTrace t => exact absurd rfl (hpc t)
  | instruction t => rfl
  | function f => rfl
  | block b => rfl

theorem hostReq_accounts (h : p.hostReq pid pc = .ok (answer, p')) :
    Accounts p ⟨true, pid⟩ pc answer p' := by
  obtain ⟨q, hq, h⟩ := Outcome.bind_eq_ok.mp h
  replace hq : p.queue ⟨true, pid⟩ = q := queue_eq hq
  match q with
  | [] => exact accounts_of_nil hq (hostNop_counted h)
  | .pcTrace peek :: rest =>
    have hfor := countedFor_pcTrace pc hq
    dsimp only at h
    split_ifs at h with hpc
    · cases h
      have hdue : Due p.cycle pc (.pcTrace peek) := hpc
      apply accounts_of_due hq hdue
      rw [hfor, if_pos hdue]
      exact counted_none_setQueue ..
    · have hdue : ¬ Due p.cycle pc (.pcTrace peek) := hpc
      apply accounts_of_not_due hq hdue
      rw [hfor, if_neg hdue]
      exact hostNop_counted h
  | .instruction t :: rest =>
    have hfor := countedFor_cons pc hq nofun
    dsimp only at h
    split_ifs at h with hcycle
    · apply accounts_of_not_due hq (UInt64.not_le.mpr hcycle)
      rw [hfor, if_pos (.inl rfl)]
      exact hostNop_counted h
    · obtain ⟨p₁, hp₁, h⟩ := Outcome.bind_eq_ok.mp h
      cases h
      apply accounts_of_due hq (UInt64.not_lt.mp hcycle)
      rw [hfor, if_pos (.inl rfl)]
      exact counted_setQueue (countHost_counted hp₁)
  | .function f :: rest =>
    have hfor := countedFor_cons pc hq nofun
    dsimp only at h
    split_ifs at h with hcycle
    apply accounts_of_not_due hq (UInt64.not_le.mpr hcycle)
    rw [hfor, if_pos (.inl rfl)]
    exact hostNop_counted h
  | .block b :: rest =>
    have hfor := countedFor_cons pc hq nofun
    dsimp only at h
    split_ifs at h with hcycle
    · apply accounts_of_not_due hq (UInt64.not_le.mpr hcycle)
      rw [hfor, if_pos (.inl rfl)]
      exact hostNop_counted h
    · obtain ⟨p₁, hp₁, h⟩ := Outcome.bind_eq_ok.mp h
      cases h
      apply accounts_of_due hq (UInt64.not_lt.mp hcycle)
      rw [hfor, if_pos (.inl rfl)]
      exact counted_setQueue (countHost_counted hp₁)

/-- The branch of `pimReq` that all inputs but the lines of a PC trace take. -/
theorem accounts_pim {current : TraceInput} (hq : p.queue ⟨false, pid⟩ = current :: rest)
    (hpc : ∀ t, current ≠ .pcTrace t)
    (hdue : Due p.cycle pc current ↔ current.cycle ≤ p.cycle - 1)
    (h : (if p.cycle - 1 < current.cycle then (return (none, p) : Outcome _)
      else do
        let p ← (p.setQueue ⟨false, pid⟩ rest).countPim pid
        return (some current, p)) = .ok (answer, p')) :
    Accounts p ⟨false, pid⟩ pc answer p' := by
  have hfor := countedFor_cons pc hq hpc
  split_ifs at h with hcycle
  · cases h
    have hnot : ¬ Due p.cycle pc current := fun hd => UInt64.not_le.mpr hcycle (hdue.mp hd)
    apply accounts_of_not_due hq hnot
    rw [hfor, if_neg (by simp [hnot])]
    exact ⟨rfl, fun _ => rfl, rfl⟩
  · obtain ⟨p₁, hp₁, h⟩ := Outcome.bind_eq_ok.mp h
    cases h
    have hd : Due p.cycle pc current := hdue.mpr (UInt64.not_lt.mp hcycle)
    apply accounts_of_due hq hd
    rw [hfor, if_pos (.inr hd)]
    exact counted_setQueue (countPim_counted hp₁)

theorem pimReq_accounts (h : p.pimReq pid pc = .ok (answer, p')) :
    Accounts p ⟨false, pid⟩ pc answer p' := by
  obtain ⟨q, hq, h⟩ := Outcome.bind_eq_ok.mp h
  replace hq : p.queue ⟨false, pid⟩ = q := queue_eq hq
  match q with
  | [] =>
    cases h
    exact accounts_of_nil hq ⟨rfl, fun _ => rfl, rfl⟩
  | .pcTrace peek :: rest =>
    have hfor := countedFor_pcTrace pc hq
    dsimp only at h
    split_ifs at h with hpc
    · cases h
      have hdue : Due p.cycle pc (.pcTrace peek) := hpc
      apply accounts_of_due hq hdue
      rw [hfor, if_pos hdue]
      exact counted_none_setQueue ..
    · have hdue : ¬ Due p.cycle pc (.pcTrace peek) := hpc
      apply accounts_of_not_due hq hdue
      rw [hfor, if_neg hdue]
      exact hostNop_counted h
  | .instruction t :: rest => exact accounts_pim hq nofun Iff.rfl h
  | .function f :: rest => exact accounts_pim hq nofun Iff.rfl h
  | .block b :: rest => exact accounts_pim hq nofun Iff.rfl h

/-- **What a call counts**: it answers the head of the queue when that is due, and counts for
`countedFor`. -/
theorem getReq_accounts (h : p.getReq u pc = .ok (answer, p')) : Accounts p u pc answer p' := by
  obtain ⟨host, pid⟩ := u
  cases host with
  | false => exact pimReq_accounts h
  | true => exact hostReq_accounts h

theorem Counted.sized {o : Option ExecUnit} (h : Counted p o p') (hp : Sized p) : Sized p' := by
  intro host
  have hcounters := h.counters
  rw [h.sizes host, hp host]
  cases o with
  | none => exact congrArg List.length (congrFun hcounters host).symm
  | some u =>
    obtain ⟨x, -, hset⟩ := hcounters
    rw [hset]
    dsimp only
    split_ifs
    · exact (List.length_set ..).symm
    · rfl

/-- The counter of a unit after a call. -/
theorem Counted.listAt_counters {o : Option ExecUnit} (h : Counted p o p') (v : ExecUnit) :
    (o = some v ∧ ∃ x, listAt (p.counters v.host) v.pid = .ok x ∧
        listAt (p'.counters v.host) v.pid = .ok (x + 1)) ∨
      (o ≠ some v ∧ listAt (p'.counters v.host) v.pid = listAt (p.counters v.host) v.pid) := by
  have hcounters := h.counters
  cases o with
  | none => exact .inr ⟨nofun, by rw [hcounters]⟩
  | some u =>
    obtain ⟨x, hx, hset⟩ := hcounters
    rw [hset]
    dsimp only
    by_cases hhost : v.host = u.host
    · rw [if_pos hhost, hhost, listAt_set hx]
      by_cases hpid : v.pid = u.pid
      · obtain rfl : u = v := by
          cases u
          cases v
          simp_all
        exact .inl ⟨rfl, x, hx, if_pos rfl⟩
      · refine .inr ⟨fun h => hpid (congrArg ExecUnit.pid (Option.some.inj h)).symm, ?_⟩
        rw [if_neg hpid]
    · refine .inr ⟨fun h => hhost (congrArg ExecUnit.host (Option.some.inj h)).symm, ?_⟩
      rw [if_neg hhost]

theorem recv_counted {cfg : Config} {input : TraceInput}
    (h : recvFunctionalResp cfg p input = .ok p') : Counted p none p' := by
  unfold recvFunctionalResp at h
  split at h
  · obtain ⟨q, -, h⟩ := Outcome.bind_eq_ok.mp h
    cases h
    exact counted_none_setQueue ..
  · obtain ⟨_, -, h⟩ := Outcome.bind_eq_ok.mp h
    cases h
    exact ⟨fun _ => rfl, rfl⟩

theorem queue_of_getReq (h : p.getReq u pc = .ok (answer, p')) :
    ∃ q, listAt (p.queues u.host) u.pid = .ok q := by
  obtain ⟨host, pid⟩ := u
  cases host with
  | false =>
    obtain ⟨q, hq, -⟩ := Outcome.bind_eq_ok.mp h
    exact ⟨q, hq⟩
  | true =>
    obtain ⟨q, hq, -⟩ := Outcome.bind_eq_ok.mp h
    exact ⟨q, hq⟩

end InsPartition

namespace Feed

open Transition InsPartition

/-- Each counter is the number of inputs its unit was handed. -/
def Counts (f : Feed) : Prop :=
  ∀ u x, listAt (f.insp.counters u.host) u.pid = .ok x → x.toNat = (f.handedTo u).length

/-- The calls that leave the counters right: a processor is answered with an input that is no line
of a PC trace, and a memory-side unit does not find such a line. The counters have 64 bits. -/
def CountsRight (f : Feed) : FeedEvent → Prop
  | .step => True
  | .getReq u _ =>
    match f.insp.queue u with
    | [] => u.host = false
    | .pcTrace _ :: _ => False
    | input :: _ =>
      if input.cycle ≤ f.insp.cycle - 1 then (f.handedTo u).length + 1 < 2 ^ 64
      else u.host = false

variable {cfg : Config} {read : Reader} {f f' : Feed} {u : ExecUnit} {pc : UInt64}

/-- A call that answers `answer` and counts for `o` keeps the counters right exactly when it counts
what it answers, and the counter has room for it. -/
theorem counts_iff_of_counted {o : Option ExecUnit} {answer : Option TraceInput}
    (hcounts : Counts f) (hcounted : Counted f.insp o f'.insp)
    (hhanded : ∀ v, f'.handedTo v = f.handedTo v ++ if v = u then answer.toList else [])
    (hu : ∃ x, listAt (f.insp.counters u.host) u.pid = .ok x) :
    Counts f' ↔ o = answer.map (fun _ => u) ∧
      (answer.isSome → (f.handedTo u).length + 1 < 2 ^ 64) := by
  have hsucc : ∀ x : UInt64, (x + 1).toNat = (x.toNat + 1) % 2 ^ 64 := fun x => by
    rw [UInt64.toNat_add]
    rfl
  -- A counter that moves without an answer, or the other way round, is off by one after the call,
  -- and a full one wraps around.
  constructor
  · intro h'
    obtain ⟨x, hx⟩ := hu
    have hlen := hcounts u x hx
    have hhu := congrArg List.length (hhanded u)
    rw [if_pos rfl, List.length_append] at hhu
    cases answer with
    | none =>
      refine ⟨?_, nofun⟩
      cases o with
      | none => rfl
      | some v =>
        obtain ⟨-, y, hy, hy'⟩ | ⟨hne, -⟩ := hcounted.listAt_counters v
        · have hold := hcounts v y hy
          have hnew := h' v (y + 1) hy'
          have hsame : f'.handedTo v = f.handedTo v := by
            rw [hhanded v]
            simp
          rw [hsame, ← hold, hsucc] at hnew
          have := y.toNat_lt
          omega
        · exact absurd rfl hne
    | some input =>
      obtain ⟨hou, y, hy, hy'⟩ | ⟨-, hsame⟩ := hcounted.listAt_counters u
      · cases hx.symm.trans hy
        have hnew := h' u (x + 1) hy'
        rw [hsucc, hhu, ← hlen] at hnew
        refine ⟨hou, fun _ => ?_⟩
        simp only [Option.toList_some, List.length_singleton] at hnew
        have := x.toNat_lt
        omega
      · have hnew := h' u x (hsame.trans hx)
        rw [hhu, ← hlen] at hnew
        simp at hnew
  · rintro ⟨rfl, hroom⟩ v x hx
    rw [hhanded v]
    obtain ⟨hv, y, hy, hy'⟩ | ⟨hv, hsame⟩ := hcounted.listAt_counters v
    · cases answer with
      | none => cases hv
      | some input =>
        cases hv
        cases hx.symm.trans hy'
        have hold := hcounts u y hy
        have hlt := hroom rfl
        rw [hsucc, hold, Nat.mod_eq_of_lt hlt]
        simp
    · rw [hsame] at hx
      rw [hcounts v x hx]
      by_cases hvu : v = u
      · subst hvu
        cases answer with
        | none => simp
        | some input => exact absurd rfl hv
      · simp [hvu]

/-- A call that hands out nothing changes no counter. -/
def NopUncounted (cfg : Config) (read : Reader) (f : Feed) (e : FeedEvent) : Prop :=
  ∀ f', step cfg read f e = .ok f' → f'.handed = f.handed → f'.insp.counters = f.insp.counters

theorem handedTo_append (f : Feed) (insp : InsPartition) (answer : Option TraceInput) (v : ExecUnit) :
    handedTo { f with
      insp
      handed := f.handed ++
        answer.toList.map fun input => { unit := u, pc, steps := f.steps, input } } v =
      f.handedTo v ++ if v = u then answer.toList else [] := by
  unfold handedTo
  rw [List.filter_append, List.map_append]
  congr 1
  by_cases hv : v = u
  · subst hv
    cases answer <;> simp
  · cases answer <;> simp [hv, Ne.symm hv]

theorem countsRight_cons (pc : UInt64) {input : TraceInput} {rest : List TraceInput}
    (hq : f.insp.queue u = input :: rest) (hpc : ∀ t, input ≠ .pcTrace t) :
    CountsRight f (.getReq u pc) ↔
      if Due f.insp.cycle pc input then (f.handedTo u).length + 1 < 2 ^ 64 else u.host = false := by
  cases input with
  | pcTrace t => exact absurd rfl (hpc t)
  | instruction t =>
    simp only [CountsRight, hq]
    exact Iff.rfl
  | function g =>
    simp only [CountsRight, hq]
    exact Iff.rfl
  | block b =>
    simp only [CountsRight, hq]
    exact Iff.rfl

instance (f : Feed) : DecidablePred (CountsRight f)
  | .step => .isTrue trivial
  | .getReq u pc =>
    match hq : f.insp.queue u with
    | [] => decidable_of_iff (u.host = false) (by simp only [CountsRight, hq])
    | .pcTrace _ :: _ => .isFalse (by simp only [CountsRight, hq, not_false_eq_true])
    | .instruction _ :: _ => decidable_of_iff _ (countsRight_cons pc hq nofun).symm
    | .function _ :: _ => decidable_of_iff _ (countsRight_cons pc hq nofun).symm
    | .block _ :: _ => decidable_of_iff _ (countsRight_cons pc hq nofun).symm

/-- The calls that count what they answer, and have room for it. -/
theorem countsRight_iff (f : Feed) (u : ExecUnit) (pc : UInt64) {answer : Option TraceInput}
    (hanswer : answer = (f.insp.queue u).head?.filter (Due f.insp.cycle pc)) :
    (countedFor f.insp u pc = answer.map (fun _ => u) ∧
      (answer.isSome → (f.handedTo u).length + 1 < 2 ^ 64)) ↔ CountsRight f (.getReq u pc) := by
  subst hanswer
  cases hq : f.insp.queue u with
  | nil =>
    have hright : CountsRight f (.getReq u pc) ↔ u.host = false := by
      simp only [CountsRight, hq]
    have hfor : countedFor f.insp u pc = if u.host then some u else none := by
      simp only [countedFor, hq]
    rw [hright, hfor]
    cases u.host <;> simp
  | cons input rest =>
    have hfilter : (input :: rest).head?.filter (Due f.insp.cycle pc) =
        if Due f.insp.cycle pc input then some input else none := by
      by_cases hdue : Due f.insp.cycle pc input <;> simp [Option.filter, hdue]
    rw [hfilter]
    by_cases hpc : ∃ t, input = .pcTrace t
    · obtain ⟨t, rfl⟩ := hpc
      have hright : ¬ CountsRight f (.getReq u pc) := by
        simp only [CountsRight, hq, not_false_eq_true]
      rw [countedFor_pcTrace pc hq]
      refine iff_of_false (fun h => ?_) hright
      split_ifs at h
      · cases h.1
      · cases h.1
    · replace hpc : ∀ t, input ≠ .pcTrace t := fun t h => hpc ⟨t, h⟩
      rw [countedFor_cons pc hq hpc, countsRight_cons pc hq hpc]
      by_cases hdue : Due f.insp.cycle pc input
      · simp [hdue]
      · cases hhost : u.host <;> simp [hdue]

/-- A cycle of the partitioner counts nothing and hands out nothing. -/
theorem step_same (h : step cfg read f .step = .ok f') :
    f'.insp.counters = f.insp.counters ∧ f'.handed = f.handed := by
  refine exec_invariant (I := fun g => g.insp.counters = f.insp.counters ∧ g.handed = f.handed)
    (fun g i g' hg hstep => ?_) ⟨rfl, rfl⟩ h
  obtain ⟨-, rfl⟩ | ⟨-, input, insp, fetcher, -, hinsp, rfl⟩ := request_eq_ok hstep
  · exact hg
  · exact ⟨(recv_counted hinsp).counters.trans hg.1, hg.2⟩

/-- One step keeps the counters right exactly when it counts right. -/
theorem step_counts_iff {e : FeedEvent} (hsized : Sized f.insp) (hcounts : Counts f)
    (h : step cfg read f e = .ok f') : Counts f' ↔ CountsRight f e := by
  cases e with
  | step =>
    refine iff_of_true (fun u x hx => ?_) trivial
    have hsame := step_same h
    rw [hsame.1] at hx
    rw [hcounts u x hx]
    unfold handedTo
    rw [hsame.2]
  | getReq u pc =>
    obtain ⟨⟨answer, insp⟩, hreq, h⟩ := Outcome.bind_eq_ok.mp h
    cases h
    obtain ⟨hanswer, hcounted⟩ := getReq_accounts hreq
    rw [← countsRight_iff f u pc hanswer]
    refine counts_iff_of_counted hcounts hcounted (handedTo_append f insp answer) ?_
    -- a unit whose queue exists has its counter
    obtain ⟨q, hq⟩ := queue_of_getReq hreq
    obtain ⟨hpid, hget⟩ := listAt_eq_ok.mp hq
    have hlt := (List.getElem?_eq_some_iff.mp hget).1
    rw [hsized u.host] at hlt
    exact ⟨_, listAt_eq_ok.mpr ⟨hpid, List.getElem?_eq_getElem hlt⟩⟩

theorem step_sized {e : FeedEvent} (hsized : Sized f.insp) (h : step cfg read f e = .ok f') :
    Sized f'.insp := by
  cases e with
  | step =>
    refine exec_invariant (I := fun g => Sized g.insp) (fun g i g' hg hstep => ?_) hsized h
    obtain ⟨-, rfl⟩ | ⟨-, input, insp, fetcher, -, hinsp, rfl⟩ := request_eq_ok hstep
    · exact hg
    · exact (recv_counted hinsp).sized hg
  | getReq u pc =>
    obtain ⟨⟨answer, insp⟩, hreq, h⟩ := Outcome.bind_eq_ok.mp h
    cases h
    exact (getReq_accounts hreq).2.sized hsized

theorem init_sized (cfg : Config) (traces : List (List Line)) : Sized (init cfg traces).insp := by
  intro host
  cases host <;> simp [queues, counters, init, InsPartition.init]

theorem init_counts (cfg : Config) (traces : List (List Line)) : Counts (init cfg traces) := by
  intro u x hx
  obtain ⟨-, hget⟩ := listAt_eq_ok.mp hx
  have hmem := List.mem_of_getElem? hget
  have hzero : x = 0 := by
    cases hhost : u.host <;>
      simp only [hhost, counters, init, InsPartition.init, if_true, Bool.false_eq_true, if_false,
        List.mem_replicate] at hmem <;> exact hmem.2
  rw [hzero]
  rfl

/-- A call that counts right and hands out nothing counts nothing. -/
theorem nopUncounted_of_countsRight (cfg : Config) (read : Reader) (f : Feed) (e : FeedEvent)
    (hright : CountsRight f e) : NopUncounted cfg read f e := by
  intro f' h hhanded
  cases e with
  | step => exact (step_same h).1
  | getReq u pc =>
    obtain ⟨⟨answer, insp⟩, hreq, h⟩ := Outcome.bind_eq_ok.mp h
    cases h
    obtain ⟨hanswer, hcounted⟩ := getReq_accounts hreq
    have hnone : answer = none := by
      cases answer with
      | none => rfl
      | some input => simp at hhanded
    have hfor := ((countsRight_iff f u pc hanswer).mpr hright).1
    rw [hfor, hnone] at hcounted
    exact hcounted.counters

/-- **The counters of the partitioner**: along a run, each counter is the number of inputs its unit
was handed and the calls that hand out nothing change none, exactly when every call counts right. -/
theorem counts_iff (cfg : Config) (read : Reader) (traces : List (List Line))
    (events : List FeedEvent) (f : Feed)
    (h : exec (step cfg read) (init cfg traces) events = .ok f) :
    ((∀ k f₁, exec (step cfg read) (init cfg traces) (events.take k) = .ok f₁ → Counts f₁) ∧
        Along (step cfg read) (NopUncounted cfg read) (init cfg traces) events) ↔
      Along (step cfg read) CountsRight (init cfg traces) events := by
  have hexact := exec_exact (J := fun f => Sized f.insp) (fun _ _ _ hs h => step_sized hs h)
    (fun _ _ _ hs hc h => step_counts_iff hs hc h) (init_sized cfg traces) (init_counts cfg traces) h
  rw [hexact]
  exact and_iff_left_of_imp (Along.mono (nopUncounted_of_countsRight cfg read))

/-- A processor that is handed its instruction in time, and a memory-side unit that finds none. -/
theorem counts_iff_read :
    let cfg : Config := { pimCuCount := 1 }
    let read : Reader := fun pid _ => .ok (some (.instruction { ins := { type := .read, pid } }), [])
    let events : List FeedEvent := [.step, .getReq ⟨true, 0⟩ 0, .getReq ⟨false, 0⟩ 0]
    (∀ k f, exec (step cfg read) (init cfg [[]]) (events.take k) = .ok f → Counts f) ∧
      Along (step cfg read) (NopUncounted cfg read) (init cfg [[]]) events := by
  intro cfg read events
  obtain ⟨f, hf, -⟩ := Outcome.exists_of_map_eq_ok (f := fun _ => ())
    (x := exec (step cfg read) (init cfg [[]]) events) (b := ()) (by decide +kernel)
  exact (counts_iff cfg read [[]] events f hf).mpr (by decide +kernel)

/-- A line of a PC trace that a processor is handed is counted for no unit. -/
theorem not_counts_line :
    ¬ (∀ (cfg : Config) (read : Reader) (traces : List (List Line)) (events : List FeedEvent)
      (f : Feed), exec (step cfg read) (init cfg traces) events = .ok f → Counts f) := by
  intro h
  obtain ⟨f, hf, hcount⟩ := Outcome.exists_of_map_eq_ok
    (f := fun f : Feed => (listAt (f.insp.counters true) 0, (f.handedTo ⟨true, 0⟩).length))
    (x := exec (step {} PCTxtReader.getReq) (init {} [[['1', '0', ' ', '2', '0']]])
      [.step, .getReq ⟨true, 0⟩ 16])
    (b := (.ok 0, 1)) (by decide +kernel)
  obtain ⟨hcounter, hlength⟩ := Prod.mk.inj hcount
  have hcounts := h _ _ _ _ f hf ⟨true, 0⟩ 0 hcounter
  rw [hlength] at hcounts
  cases hcounts

end Feed

end PIMSim
