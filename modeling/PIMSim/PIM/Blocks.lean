import PIMSim.PIM.Translation

/-!
# The blocks of a memory-side processor

A memory-side processor is handed a sequence of instruction blocks. It takes the instructions of a
block one after the other, over several cycles, and keeps for the name of each block how many cycles
its blocks took, from the first instruction to the call that finds the block at its end.

## Main definitions

* `BlockRun`: the processor between its cycles and its calls, with the history of its blocks
* `BlockRun.Right`: the instructions are those of the blocks in order, and the dictionary is right
* `BlockRun.Orderly`: blocks with instructions and with names of their own

## Main results

* `BlockRun.orderly_fetch`: a call returns and keeps the history right
* `BlockRun.orderly_of_returns`: blocks whose calls all return are orderly
* `BlockRun.right_iff_orderly`: every run is right exactly when the blocks are orderly
-/

namespace PIMSim

open CSharp Transition

/-- The instructions of a block, without the identities they get when they are handed out. -/
def NamedBlock.instructions (b : NamedBlock) : List Instruction :=
  b.ins.filterMap fun x => x.map fun x => { x.ins with ref := 0 }

/-- A block as the trace reader makes it. -/
def NamedBlock.fresh (b : NamedBlock) : NamedBlock := { b with servetime := NULL }

/-- A block that has ended: its name, and the cycles of its first instruction and of its end. -/
structure EndedBlock where
  name : String
  start : UInt64
  finish : UInt64

/-- The processor, the instructions it took out of blocks, when the current block handed out its first
one, and the blocks that have ended. -/
structure BlockRun where
  core : PIMCore
  issued : List Instruction := []
  start : Option UInt64 := none
  ended : List EndedBlock := []

inductive BlockEvent
  | tick
  | fetch
deriving DecidableEq

namespace BlockRun

/-- A processor before its first cycle, which is handed the blocks. -/
def begin (c : PIMCore) (bs : List NamedBlock) : BlockRun where
  core := { c with
    insP := bs.map fun b => .block b.fresh
    currentBlock := none
    blockLatency := []
    cycle := 0 }

/-- The current block, when a call will find it at its end. -/
def endedBlock (s : BlockRun) : Option NamedBlock :=
  s.core.currentBlock.filter fun b => b.ins.isEmpty

/-- `cycle++`, and a call of `get_ins_from_insp`. -/
def step (s : BlockRun) : BlockEvent → Outcome BlockRun
  | .tick => return { s with core := { s.core with cycle := s.core.cycle + 1 } }
  | .fetch => do
    let (ins, core) ← s.core.getInsFromInsp
    let start := if s.endedBlock.isSome then none else s.start
    let due := s.core.dueIns.isSome
    return {
      core
      issued := s.issued ++ if due then [{ ins with ref := 0 }] else []
      start := if due then some (start.getD s.core.cycle) else start
      ended := s.ended ++ s.endedBlock.toList.map fun b =>
        { name := b.name, start := s.start.getD NULL, finish := s.core.cycle } }

/-- The cycles that the ended blocks of a name took. -/
def cycles (s : BlockRun) (name : String) : ℕ :=
  ((s.ended.filter fun b => b.name = name).map fun b => b.finish.toNat - b.start.toNat).sum

/-- **The history is right**: of the first `k` blocks the instructions were issued, each once and in
order, up to those the current block still has, all but the current one have ended, and for their names
the dictionary has the sum of the cycles they took. -/
structure Right (bs : List NamedBlock) (s : BlockRun) : Prop where
  issued : ∃ k, s.core.insP = (bs.drop k).map (fun b => .block b.fresh) ∧
    s.issued ++ s.core.currentBlock.elim [] NamedBlock.instructions =
      (bs.take k).flatMap NamedBlock.instructions ∧
    s.ended.map EndedBlock.name ++ s.core.currentBlock.toList.map NamedBlock.name =
      (bs.take k).map NamedBlock.name
  latency : ∀ name, (s.core.blockLatency.lookup name).map UInt64.toNat =
    if name ∈ s.ended.map EndedBlock.name then some (s.cycles name) else none

/-- No block is empty, no instruction is null, and no two blocks have one name. -/
def Orderly (bs : List NamedBlock) : Prop :=
  (∀ b ∈ bs, b.ins ≠ [] ∧ none ∉ b.ins) ∧ (bs.map NamedBlock.name).Nodup

/-! ### What a call does -/

variable {bs : List NamedBlock} {s s' : BlockRun} {b : NamedBlock} {x : TraceIns}
  {xs : List (Option TraceIns)} {rest : List PIMInput}

/-- The current block has ended. -/
def close (s : BlockRun) (b : NamedBlock) : BlockRun where
  core := { s.core with
    currentBlock := none
    blockLatency := s.core.blockLatency ++ [(b.name, s.core.cycle - b.servetime)] }
  issued := s.issued
  start := none
  ended := s.ended ++ [{ name := b.name, start := s.start.getD NULL, finish := s.core.cycle }]

/-- A block is taken from the inputs. -/
def take (s : BlockRun) (b : NamedBlock) (rest : List PIMInput) : BlockRun :=
  { s with core := { s.core with insP := rest, currentBlock := some b } }

/-- The current block hands an instruction out. -/
def hand (s : BlockRun) (b : NamedBlock) (x : TraceIns) (xs : List (Option TraceIns)) : BlockRun where
  core := { s.core with
    fetched := s.core.fetched + 1
    currentBlock := some { b with
      ins := xs
      servetime := if b.servetime = NULL then s.core.cycle else b.servetime } }
  issued := s.issued ++ [{ x.ins with ref := 0 }]
  start := some (s.start.getD s.core.cycle)
  ended := s.ended

/-- A call that hands out nothing of a block. -/
def pass (s : BlockRun) : BlockRun :=
  { s with core := { s.core with fetched := s.core.fetched + 1 } }

theorem fetch_due (hblock : s.core.currentBlock = some b) (hins : b.ins = some x :: xs)
    (hdue : x.ins.cycle ≤ s.core.cycle) : s.step .fetch = .ok (s.hand b x xs) := by
  have hended : s.endedBlock = none := by simp [endedBlock, hblock, hins]
  have hdueIns : s.core.dueIns = some x := by
    simp [PIMCore.dueIns, hblock, hins, NamedBlock.due, hdue]
  simp only [step, PIMCore.getInsFromInsp, hblock, PIMCore.getIns, hins, hdue, if_true,
    Outcome.ok_bind, hended, hdueIns]
  simp [hand]
  rfl

theorem fetch_wait (hblock : s.core.currentBlock = some b) (hins : b.ins = some x :: xs)
    (hdue : ¬ x.ins.cycle ≤ s.core.cycle) : s.step .fetch = .ok s.pass := by
  have hended : s.endedBlock = none := by simp [endedBlock, hblock, hins]
  have hdueIns : s.core.dueIns = none := by
    simp [PIMCore.dueIns, hblock, hins, NamedBlock.due, UInt64.not_le.mp hdue]
  simp only [step, PIMCore.getInsFromInsp, hblock, PIMCore.getIns, hins, hdue, if_false,
    Outcome.ok_bind, hended, hdueIns]
  simp [pass, hblock]
  rfl

/-- A null instruction throws. -/
theorem fetch_null (hblock : s.core.currentBlock = some b) (hins : b.ins = none :: xs) :
    s.step .fetch = .error .nullReference := by
  simp [step, PIMCore.getInsFromInsp, hblock, PIMCore.getIns, hins]

/-- The end of a block whose name the dictionary does not hold. -/
theorem fetch_close (hblock : s.core.currentBlock = some b) (hins : b.ins = [])
    (hfresh : b.name ∉ s.core.blockLatency.map Prod.fst) :
    s.step .fetch = (s.close b).step .fetch := by
  have hended : s.endedBlock = some b := by simp [endedBlock, hblock, hins]
  have hany : (s.core.blockLatency.any fun x => decide (x.1 = b.name)) = false := by
    rw [List.any_eq_false]
    intro x hx
    simpa using fun h => hfresh (List.mem_map.mpr ⟨x, hx, h⟩)
  have hcore : s.core.getInsFromInsp = (s.close b).core.getInsFromInsp := by
    simp [PIMCore.getInsFromInsp, hblock, PIMCore.getIns, hins, hany, close]
  have hdueIns : s.core.dueIns = (s.close b).core.dueIns := by
    simp [PIMCore.dueIns, hblock, hins, close, PIMCore.nextDue]
  have hnone : (s.close b).endedBlock = none := rfl
  unfold step
  rw [hcore, hdueIns, hended, hnone]
  simp [close]

/-- The end of a block whose name the dictionary holds. -/
theorem fetch_repeated (hblock : s.core.currentBlock = some b) (hins : b.ins = [])
    (hheld : b.name ∈ s.core.blockLatency.map Prod.fst) : s.step .fetch = .error .argument := by
  have hany : (s.core.blockLatency.any fun x => decide (x.1 = b.name)) = true := by
    obtain ⟨x, hx, hname⟩ := List.mem_map.mp hheld
    exact List.any_eq_true.mpr ⟨x, hx, by simpa using hname⟩
  simp [step, PIMCore.getInsFromInsp, hblock, PIMCore.getIns, hins, hany]

/-- The next block, when it is not empty. -/
theorem fetch_take (hblock : s.core.currentBlock = none) (hinsP : s.core.insP = .block b :: rest)
    (hne : b.ins ≠ []) : s.step .fetch = (s.take b rest).step .fetch := by
  have hended : s.endedBlock = none := by simp [endedBlock, hblock]
  have hended' : (s.take b rest).endedBlock = none := by simp [endedBlock, take, hne]
  have hdueIns : s.core.dueIns = (s.take b rest).core.dueIns := by
    simp [PIMCore.dueIns, hblock, PIMCore.nextDue, hinsP, take, hne]
  have hcore : s.core.getInsFromInsp = (s.take b rest).core.getInsFromInsp := by
    obtain ⟨x, xs, hins⟩ := List.exists_cons_of_ne_nil hne
    cases x with
    | none =>
      simp [PIMCore.getInsFromInsp, hblock, PIMCore.getInput, hinsP, PIMCore.getIns, hins, take]
    | some x =>
      by_cases hdue : x.ins.cycle ≤ s.core.cycle <;>
        simp [PIMCore.getInsFromInsp, hblock, PIMCore.getInput, hinsP, PIMCore.getIns, hins, take, hdue]
  unfold step
  rw [hcore, hdueIns, hended, hended']
  rfl

/-- The next block, when it is empty. -/
theorem fetch_empty (hblock : s.core.currentBlock = none) (hinsP : s.core.insP = .block b :: rest)
    (hnil : b.ins = []) : s.step .fetch = .error (.exit 2) := by
  simp [step, PIMCore.getInsFromInsp, hblock, PIMCore.getInput, hinsP, PIMCore.getIns, hnil]

theorem fetch_idle (hblock : s.core.currentBlock = none) (hinsP : s.core.insP = []) :
    s.step .fetch = .ok s.pass := by
  have hended : s.endedBlock = none := by simp [endedBlock, hblock]
  have hdueIns : s.core.dueIns = none := by
    simp [PIMCore.dueIns, hblock, PIMCore.nextDue, hinsP]
  unfold step
  rw [hended, hdueIns]
  simp [PIMCore.getInsFromInsp, hblock, PIMCore.getInput, hinsP, pass]

/-! ### Orderly blocks -/

/-- **What orderly blocks keep**: the history is right, the dictionary has the cycles of each ended
block, and the current block has the cycle of its first instruction. -/
structure Kept (bs : List NamedBlock) (s : BlockRun) : Prop where
  issued : ∃ k, s.core.insP = (bs.drop k).map (fun b => .block b.fresh) ∧
    s.issued ++ s.core.currentBlock.elim [] NamedBlock.instructions =
      (bs.take k).flatMap NamedBlock.instructions ∧
    s.ended.map EndedBlock.name ++ s.core.currentBlock.toList.map NamedBlock.name =
      (bs.take k).map NamedBlock.name
  latency : s.core.blockLatency = s.ended.map fun e => (e.name, e.finish - e.start)
  times : ∀ e ∈ s.ended, e.start ≤ e.finish
  current : ∀ b, s.core.currentBlock = some b →
    none ∉ b.ins ∧ b.servetime = s.start.getD NULL ∧ (b.ins = [] → s.start ≠ none)
  started : ∀ t, s.start = some t → t ≤ s.core.cycle
  idle : s.core.currentBlock = none → s.start = none

theorem kept_begin (c : PIMCore) (bs : List NamedBlock) : Kept bs (begin c bs) where
  issued := ⟨0, rfl, rfl, rfl⟩
  latency := rfl
  times := nofun
  current := nofun
  started := nofun
  idle _ := rfl

/-- The last cycle is the null value, so that it is no earlier than any other. -/
theorem eq_null_of_le {t : UInt64} (h : NULL ≤ t) : t = NULL := by
  have hlt := t.toNat_lt
  have hle := UInt64.le_iff_toNat_le.mp h
  have hnull : NULL.toNat = 18446744073709551615 := rfl
  exact UInt64.toNat_inj.mp (by omega)

theorem Kept.hand (hs : Kept bs s) (hblock : s.core.currentBlock = some b)
    (hins : b.ins = some x :: xs) : Kept bs (s.hand b x xs) := by
  obtain ⟨k, hinsP, hissued, hended⟩ := hs.issued
  obtain ⟨hnull, hserve, -⟩ := hs.current b hblock
  refine ⟨⟨k, hinsP, ?_, ?_⟩, hs.latency, hs.times, ?_, ?_, nofun⟩
  · rw [hblock] at hissued
    rw [← hissued]
    simp [BlockRun.hand, NamedBlock.instructions, hins]
  · rw [hblock] at hended
    exact hended
  · rintro b' hb'
    cases hb'
    rw [hins] at hnull
    refine ⟨fun h => hnull (List.mem_cons_of_mem _ h), ?_, fun _ => nofun⟩
    -- a block that was served in the last cycle is served again in that cycle
    simp only [BlockRun.hand, Option.getD_some]
    cases hstart : s.start with
    | none =>
      rw [hstart] at hserve
      simp [hserve]
    | some t =>
      rw [hstart] at hserve
      simp only [Option.getD_some] at hserve ⊢
      split
      · next ht =>
        rw [hserve] at ht
        rw [ht]
        exact eq_null_of_le (ht ▸ hs.started t hstart)
      · exact hserve
  · rintro t ht
    cases ht
    cases hstart : s.start with
    | none => exact UInt64.le_refl _
    | some t => exact hs.started t hstart

theorem Kept.pass (hs : Kept bs s) : Kept bs s.pass :=
  ⟨hs.issued, hs.latency, hs.times, hs.current, hs.started, hs.idle⟩

theorem Kept.close (hs : Kept bs s) (hblock : s.core.currentBlock = some b) (hins : b.ins = []) :
    Kept bs (s.close b) := by
  obtain ⟨k, hinsP, hissued, hended⟩ := hs.issued
  obtain ⟨-, hserve, hstarted⟩ := hs.current b hblock
  rw [hblock] at hissued hended
  refine ⟨⟨k, hinsP, ?_, ?_⟩, ?_, ?_, nofun, nofun, fun _ => rfl⟩
  · rw [← hissued]
    simp [BlockRun.close, NamedBlock.instructions, hins]
  · rw [← hended]
    simp [BlockRun.close]
  · simp [BlockRun.close, hs.latency, hserve]
  · intro e he
    rcases List.mem_append.mp he with he | he
    · exact hs.times e he
    · cases List.mem_singleton.mp he
      cases hstart : s.start with
      | none => exact absurd hstart (hstarted hins)
      | some t => exact hs.started t hstart

theorem Kept.take (hs : Kept bs s) (hbs : Orderly bs) (hblock : s.core.currentBlock = none)
    (hinsP : s.core.insP = .block b :: rest) : b.ins ≠ [] ∧ Kept bs (s.take b rest) := by
  obtain ⟨k, hdrop, hissued, hended⟩ := hs.issued
  rw [hinsP] at hdrop
  obtain ⟨b₀, bs', hbs', hb, hrest⟩ : ∃ b₀ bs', bs.drop k = b₀ :: bs' ∧ b = b₀.fresh ∧
      rest = bs'.map fun b => .block b.fresh := by
    cases hk : bs.drop k with
    | nil =>
      rw [hk] at hdrop
      cases hdrop
    | cons b₀ bs' =>
      rw [hk] at hdrop
      cases hdrop
      exact ⟨b₀, bs', rfl, rfl, rfl⟩
  have hmem : b₀ ∈ bs := List.mem_of_mem_drop (hbs' ▸ List.mem_cons_self ..)
  obtain ⟨hne, hnull⟩ := hbs.1 b₀ hmem
  have htake : bs.take (k + 1) = bs.take k ++ [b₀] := by
    rw [List.take_add, hbs']
    rfl
  have hdrop' : bs.drop (k + 1) = bs' := by
    rw [← List.drop_drop, hbs']
    rfl
  subst hb
  refine ⟨hne, ⟨k + 1, ?_, ?_, ?_⟩, hs.latency, hs.times, ?_, hs.started, nofun⟩
  · rw [hdrop']
    exact hrest
  · rw [hblock] at hissued
    rw [htake, List.flatMap_append, ← hissued]
    simp [BlockRun.take, NamedBlock.instructions, NamedBlock.fresh]
  · rw [hblock] at hended
    rw [htake, List.map_append, ← hended]
    simp [BlockRun.take, NamedBlock.fresh]
  · rintro b' hb'
    cases hb'
    exact ⟨hnull, by rw [show (s.take b₀.fresh rest).start = s.start from rfl, hs.idle hblock]; rfl,
      fun h => absurd h hne⟩

/-- The current block hands out its next instruction, or waits. -/
theorem Kept.fetch_block (hs : Kept bs s) (hblock : s.core.currentBlock = some b)
    (hne : b.ins ≠ []) :
    ∃ s', s.step .fetch = .ok s' ∧ Kept bs s' ∧ s'.core.cycle = s.core.cycle := by
  obtain ⟨x, xs, hins⟩ := List.exists_cons_of_ne_nil hne
  obtain ⟨hnull, -⟩ := hs.current b hblock
  cases x with
  | none => exact absurd (hins ▸ List.mem_cons_self ..) hnull
  | some x =>
    by_cases hdue : x.ins.cycle ≤ s.core.cycle
    · exact ⟨_, fetch_due hblock hins hdue, hs.hand hblock hins, rfl⟩
    · exact ⟨_, fetch_wait hblock hins hdue, hs.pass, rfl⟩

/-- The next block is taken, or there is none. -/
theorem Kept.fetch_input (hs : Kept bs s) (hbs : Orderly bs) (hblock : s.core.currentBlock = none) :
    ∃ s', s.step .fetch = .ok s' ∧ Kept bs s' ∧ s'.core.cycle = s.core.cycle := by
  obtain ⟨k, hinsP, -, -⟩ := hs.issued
  cases hrest : bs.drop k with
  | nil =>
    rw [hrest] at hinsP
    exact ⟨_, fetch_idle hblock hinsP, hs.pass, rfl⟩
  | cons b₀ bs' =>
    rw [hrest, List.map_cons] at hinsP
    obtain ⟨hne, htaken⟩ := hs.take hbs hblock hinsP
    rw [fetch_take hblock hinsP hne]
    exact htaken.fetch_block rfl hne

/-- **A call on orderly blocks** returns, and keeps the history right. -/
theorem orderly_fetch (hbs : Orderly bs) (hs : Kept bs s) :
    ∃ s', s.step .fetch = .ok s' ∧ Kept bs s' ∧ s'.core.cycle = s.core.cycle := by
  cases hblock : s.core.currentBlock with
  | none => exact hs.fetch_input hbs hblock
  | some b =>
    by_cases hins : b.ins = []
    · -- the name of the block is none of those that have ended
      obtain ⟨k, -, -, hended⟩ := hs.issued
      have hnodup : ((bs.take k).map NamedBlock.name).Nodup :=
        hbs.2.sublist ((List.take_sublist k bs).map _)
      rw [← hended, hblock] at hnodup
      have hfresh : b.name ∉ s.core.blockLatency.map Prod.fst := by
        rw [hs.latency, List.map_map]
        intro hmem
        exact List.disjoint_of_nodup_append hnodup hmem (List.mem_singleton_self b.name)
      rw [fetch_close hblock hins hfresh]
      exact (hs.close hblock hins).fetch_input hbs rfl
    · exact hs.fetch_block hblock hins

theorem Kept.tick (hs : Kept bs s) (hclock : s.core.cycle.toNat + 1 < 2 ^ 64) :
    ∃ s', s.step .tick = .ok s' ∧ Kept bs s' ∧ s'.core.cycle.toNat = s.core.cycle.toNat + 1 := by
  have hnext : (s.core.cycle + 1).toNat = s.core.cycle.toNat + 1 := by
    rw [UInt64.toNat_add]
    exact Nat.mod_eq_of_lt hclock
  refine ⟨_, rfl, ⟨hs.issued, hs.latency, hs.times, hs.current, fun t ht => ?_, hs.idle⟩, hnext⟩
  have hle := UInt64.le_iff_toNat_le.mp (hs.started t ht)
  exact UInt64.le_iff_toNat_le.mpr (hnext ▸ Nat.le_succ_of_le hle)

theorem orderly_run (hbs : Orderly bs) (es : List BlockEvent) (hs : Kept bs s)
    (hclock : s.core.cycle.toNat + es.count .tick < 2 ^ 64) :
    ∃ s', exec step s es = .ok s' ∧ Kept bs s' := by
  induction es generalizing s with
  | nil => exact ⟨s, rfl, hs⟩
  | cons e es ih =>
    cases e with
    | tick =>
      rw [List.count_cons_self] at hclock
      obtain ⟨s₁, hstep, hs₁, hcycle⟩ := hs.tick (by omega)
      obtain ⟨s', hrun, hs'⟩ := ih hs₁ (by omega)
      exact ⟨s', exec_cons_eq_ok.mpr ⟨s₁, hstep, hrun⟩, hs'⟩
    | fetch =>
      rw [List.count_cons_of_ne (by decide)] at hclock
      obtain ⟨s₁, hstep, hs₁, hcycle⟩ := orderly_fetch hbs hs
      obtain ⟨s', hrun, hs'⟩ := ih hs₁ (by rw [hcycle]; exact hclock)
      exact ⟨s', exec_cons_eq_ok.mpr ⟨s₁, hstep, hrun⟩, hs'⟩

/-- With names of their own, the ended blocks are found in a dictionary of their cycles. -/
theorem lookup_ended {es : List EndedBlock} (hnodup : (es.map EndedBlock.name).Nodup)
    (htimes : ∀ e ∈ es, e.start ≤ e.finish) (name : String) :
    ((es.map fun e => (e.name, e.finish - e.start)).lookup name).map UInt64.toNat =
      if name ∈ es.map EndedBlock.name then
        some ((es.filter fun e => e.name = name).map fun e => e.finish.toNat - e.start.toNat).sum
      else none := by
  induction es with
  | nil => rfl
  | cons e es ih =>
    obtain ⟨hnot, hnodup⟩ := List.nodup_cons.mp hnodup
    have hrest := ih hnodup fun e he => htimes e (List.mem_cons_of_mem _ he)
    by_cases hname : name = e.name
    · subst hname
      have hnone : es.filter (fun e' => decide (e'.name = e.name)) = [] := by
        rw [List.filter_eq_nil_iff]
        intro e' he'
        simpa using fun h => hnot (List.mem_map.mpr ⟨e', he', h⟩)
      simp only [List.map_cons, List.lookup_cons_self, Option.map_some, List.mem_cons_self, if_true,
        List.filter_cons_of_pos, decide_true, hnone, List.map_nil, List.sum_cons, List.sum_nil,
        Nat.add_zero]
      rw [UInt64.toNat_sub_of_le _ _ (htimes e (List.mem_cons_self ..))]
    · have hne : ¬ e.name = name := fun h => hname h.symm
      have hbeq : (name == e.name) = false := by simpa using hname
      simp only [List.map_cons, List.lookup_cons, hbeq, List.mem_cons, hname, false_or,
        List.filter_cons, hne, decide_false, Bool.false_eq_true, if_false]
      exact hrest

theorem Kept.right (hs : Kept bs s) (hbs : Orderly bs) : Right bs s := by
  refine ⟨hs.issued, fun name => ?_⟩
  obtain ⟨k, -, -, hended⟩ := hs.issued
  have hnodup : (s.ended.map EndedBlock.name).Nodup := by
    have hall : ((bs.take k).map NamedBlock.name).Nodup :=
      hbs.2.sublist ((List.take_sublist k bs).map _)
    rw [← hended] at hall
    exact hall.sublist (List.sublist_append_left _ _)
  rw [hs.latency]
  exact lookup_ended hnodup hs.times name

/-! ### Blocks whose calls return -/

/-- All calls return that are made from now on. -/
def Returns (s : BlockRun) : Prop :=
  ∀ m, ∃ s', exec step s (List.replicate m .fetch) = .ok s'

theorem Returns.step (hs : Returns s) : ∃ s', s.step .fetch = .ok s' ∧ Returns s' := by
  obtain ⟨t, ht⟩ := hs 1
  obtain ⟨s', hs', -⟩ := exec_cons_eq_ok.mp ht
  refine ⟨s', hs', fun m => ?_⟩
  obtain ⟨t, ht⟩ := hs (m + 1)
  obtain ⟨s'', hs'', ht⟩ := exec_cons_eq_ok.mp ht
  cases hs'.symm.trans hs''
  exact ⟨t, ht⟩

/-- A call that throws. -/
theorem Returns.of_error {e : Fault} (hs : Returns s) (h : s.step .fetch = .error e) : False := by
  obtain ⟨s', hs', -⟩ := hs.step
  cases hs'.symm.trans h

/-- In the last cycle, the current block hands out all its instructions, of which none is null. -/
theorem Returns.drain (hs : Returns s) (hclock : s.core.cycle = NULL)
    (hblock : s.core.currentBlock = some b) :
    none ∉ b.ins ∧ ∃ s' b', Returns s' ∧ s'.core.currentBlock = some b' ∧ b'.ins = [] ∧
      b'.name = b.name ∧ s'.core.cycle = NULL ∧ s'.core.insP = s.core.insP ∧
      s'.core.blockLatency = s.core.blockLatency := by
  induction hins : b.ins generalizing s b with
  | nil => exact ⟨nofun, s, b, hs, hblock, hins, rfl, hclock, rfl, rfl⟩
  | cons x xs ih =>
    cases x with
    | none => exact (hs.of_error (fetch_null hblock hins)).elim
    | some x =>
      have hdue : x.ins.cycle ≤ s.core.cycle := by
        have := x.ins.cycle.toNat_lt
        rw [hclock, UInt64.le_iff_toNat_le, show NULL.toNat = 18446744073709551615 from rfl]
        omega
      obtain ⟨s₁, hs₁, hreturns⟩ := hs.step
      cases hs₁.symm.trans (fetch_due hblock hins hdue)
      obtain ⟨hnull, s', b', hs', hblock', hins', hname, hclock', hinsP, hlatency⟩ :=
        ih hreturns hclock rfl rfl
      refine ⟨fun h => ?_, s', b', hs', hblock', hins', hname, hclock', hinsP, hlatency⟩
      rcases List.mem_cons.mp h with h | h
      · cases h
      · exact hnull h

theorem Returns.of_fetch {t : BlockRun} (hs : Returns s) (h : s.step .fetch = t.step .fetch) :
    Returns t := by
  intro m
  cases m with
  | zero => exact ⟨t, rfl⟩
  | succ m =>
    obtain ⟨s', hs'⟩ := hs (m + 1)
    obtain ⟨s₁, hstep, hrun⟩ := exec_cons_eq_ok.mp hs'
    exact ⟨s', exec_cons_eq_ok.mpr ⟨s₁, h ▸ hstep, hrun⟩⟩

/-- Between two blocks: the names of those that have ended are in the dictionary, or the last one is at
its end. -/
def Between (s : BlockRun) (names : List String) : Prop :=
  s.core.currentBlock = none ∧ names = s.core.blockLatency.map Prod.fst ∨
    ∃ b, s.core.currentBlock = some b ∧ b.ins = [] ∧
      names = s.core.blockLatency.map Prod.fst ++ [b.name]

/-- The last block ends, and its name is no other's. -/
theorem Returns.closed {names : List String} (hs : Returns s) (hbetween : Between s names)
    (hnodup : (s.core.blockLatency.map Prod.fst).Nodup) :
    ∃ t, Returns t ∧ t.core.currentBlock = none ∧ t.core.cycle = s.core.cycle ∧
      t.core.insP = s.core.insP ∧ t.core.blockLatency.map Prod.fst = names ∧ names.Nodup := by
  rcases hbetween with ⟨hblock, rfl⟩ | ⟨b, hblock, hins, rfl⟩
  · exact ⟨s, hs, hblock, rfl, rfl, rfl, hnodup⟩
  · by_cases hheld : b.name ∈ s.core.blockLatency.map Prod.fst
    · exact (hs.of_error (fetch_repeated hblock hins hheld)).elim
    · refine ⟨s.close b, hs.of_fetch (fetch_close hblock hins hheld), rfl, rfl, rfl, ?_, ?_⟩
      · simp [BlockRun.close]
      · exact hnodup.append (List.nodup_singleton _) (List.disjoint_singleton.mpr hheld)

/-- **Blocks whose calls all return** in the last cycle are orderly, and their names are none of those
that ended before. -/
theorem orderly_of_returns (names : List String) (hs : Returns s) (hclock : s.core.cycle = NULL)
    (hinsP : s.core.insP = bs.map fun b => .block b.fresh) (hbetween : Between s names)
    (hnodup : (s.core.blockLatency.map Prod.fst).Nodup) :
    (∀ b ∈ bs, b.ins ≠ [] ∧ none ∉ b.ins) ∧ (names ++ bs.map NamedBlock.name).Nodup := by
  induction bs generalizing s names with
  | nil =>
    obtain ⟨t, -, -, -, -, -, hnames⟩ := hs.closed hbetween hnodup
    exact ⟨nofun, by simpa using hnames⟩
  | cons b bs ih =>
    obtain ⟨t, ht, hblock, hcycle, hinsP', hdict, hnames⟩ := hs.closed hbetween hnodup
    rw [hinsP, List.map_cons] at hinsP'
    have hne : b.fresh.ins ≠ [] := fun hnil => ht.of_error (fetch_empty hblock hinsP' hnil)
    have htake := ht.of_fetch (fetch_take hblock hinsP' hne)
    obtain ⟨hnull, s', b', hs', hblock', hins', hname, hclock', hrest, hlatency⟩ :=
      htake.drain (hcycle.trans hclock) rfl
    have hdict' : s'.core.blockLatency.map Prod.fst = names := by
      rw [hlatency]
      exact hdict
    obtain ⟨hall, hrun⟩ := ih (names ++ [b.name]) hs' hclock' hrest
      (.inr ⟨b', hblock', hins', by rw [hdict', hname]; rfl⟩) (hdict' ▸ hnames)
    refine ⟨fun b₁ hb₁ => ?_, by simpa using hrun⟩
    rcases List.mem_cons.mp hb₁ with rfl | hb₁
    · exact ⟨hne, hnull⟩
    · exact hall b₁ hb₁

theorem exec_ticks (s : BlockRun) (n : ℕ) :
    exec step s (List.replicate n .tick) =
      .ok { s with core := { s.core with cycle := s.core.cycle + UInt64.ofNat n } } := by
  induction n generalizing s with
  | zero =>
    have hzero : s.core.cycle + UInt64.ofNat 0 = s.core.cycle := UInt64.add_zero _
    rw [hzero]
    rfl
  | succ n ih =>
    have hsucc : s.core.cycle + UInt64.ofNat (n + 1) = s.core.cycle + 1 + UInt64.ofNat n := by
      rw [UInt64.ofNat_add, UInt64.add_assoc, UInt64.add_comm (UInt64.ofNat n)]
      rfl
    rw [hsucc]
    exact exec_cons_eq_ok.mpr ⟨_, rfl, ih _⟩

/-- **The blocks of a memory-side processor**: every run of fewer than `2 ^ 64` cycles returns, and has
issued the instructions of the blocks in order and counted their cycles, exactly when no block is
empty, no instruction is null, and no two blocks have one name. -/
theorem right_iff_orderly (c : PIMCore) (bs : List NamedBlock) :
    (∀ es : List BlockEvent, es.count .tick < 2 ^ 64 →
      ∃ s, exec step (begin c bs) es = .ok s ∧ Right bs s) ↔ Orderly bs := by
  constructor
  · intro h
    -- in the last cycle every instruction is due
    obtain ⟨n, hn, hlt⟩ : ∃ n, UInt64.ofNat n = NULL ∧ n < 2 ^ 64 := ⟨2 ^ 64 - 1, rfl, by omega⟩
    have hticks := exec_ticks (begin c bs) n
    rw [hn, show (begin c bs).core.cycle + NULL = NULL from UInt64.zero_add NULL] at hticks
    have hreturns : Returns { begin c bs with core := { (begin c bs).core with cycle := NULL } } := by
      intro m
      obtain ⟨s, hs, -⟩ := h (List.replicate n .tick ++ List.replicate m .fetch) (by
        rw [List.count_append, List.count_replicate_self, List.count_replicate]
        simpa using hlt)
      obtain ⟨t, ht, hs⟩ := exec_append_eq_ok.mp hs
      cases hticks.symm.trans ht
      exact ⟨s, hs⟩
    exact orderly_of_returns [] hreturns rfl rfl (.inl ⟨rfl, rfl⟩) List.nodup_nil
  · intro hbs es hes
    obtain ⟨s, hs, hkept⟩ := orderly_run hbs es (kept_begin c bs) (by
      rw [show (begin c bs).core.cycle.toNat = 0 from rfl, Nat.zero_add]
      exact hes)
    exact ⟨s, hs, hkept.right hbs⟩

/-- A block of one calculation. -/
def oneCalculation : NamedBlock :=
  { ins := [some { ins := { type := .calculation } }], name := "A" }

/-- Two blocks of one name: the end of the second one throws. -/
theorem not_blocks_repeated :
    ¬ ∀ es : List BlockEvent, es.count .tick < 2 ^ 64 →
      ∃ s, exec step (begin (PIMCore.given (.input .other)) [oneCalculation, oneCalculation]) es =
        .ok s ∧ Right [oneCalculation, oneCalculation] s := by
  intro h
  obtain ⟨s, hs, -⟩ := h [.fetch, .fetch, .fetch] (by decide)
  have hthrows : (exec step (begin (PIMCore.given (.input .other)) [oneCalculation, oneCalculation])
      [.fetch, .fetch, .fetch]).map (fun _ => ()) = .error .argument := by
    decide +kernel
  rw [hs] at hthrows
  cases hthrows

end BlockRun

end PIMSim
