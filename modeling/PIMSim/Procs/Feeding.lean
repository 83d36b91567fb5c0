import PIMSim.Procs.Proc

/-!
# The instructions that the arithmetic unit is given

A processor gives its current instruction to the arithmetic unit at the top of a cycle, as often as the
calculation restriction of the cycle allows, and replaces it at the end. What lies between the two
decides how often an instruction is given.

The objects that the partitioner hands out are numbered, so that an object is told from an equal one.

## Main definitions

* `Feeding`: an object is obtained, or given to the arithmetic unit
* `feedAlu`, `aluTurn`: the arithmetic unit's part of a cycle
* `FedOnce`: every instruction to calculate is given once, or is still to be given
* `Cursor`: where a processor is
* `Unfed`, `Tracked`, `Settled`: what the record says before and behind the arithmetic unit's part

## Main results

* `Settled.get`: the next object
* `Unfed.feed`, `Unfed.pass`: the current instruction is given, or it is none to calculate
-/

namespace PIMSim

open CSharp

/-- The instruction is neither a `NOP` nor one for the memory. -/
def Instruction.calculates (ins : Instruction) : Bool := !ins.isMem && ins.type ≠ .nop

/-- A call of `get_ins_from_insp` or of `add_ins`, with its instruction. -/
inductive Feeding
  | got (ins : Instruction)
  | fed (ins : Instruction)
deriving DecidableEq

def Feeding.ins : Feeding → Instruction
  | .got ins | .fed ins => ins

/-- The loop over `cal_restrict`. -/
def feedAlu (ins : Instruction) : ℕ → List Feeding
  | 0 => []
  | calRestrict + 1 =>
    if ins.type = .nop then feedAlu ins calRestrict else .fed ins :: feedAlu ins calRestrict

/-- The arithmetic unit's part of `Step`, which a PC trace leaves out. -/
def aluTurn (cfg : Config) (ins : Instruction) : List Feeding :=
  if cfg.traceType ≠ .pc then
    if !ins.isMem then feedAlu ins cfg.ipc.toNat else []
  else []

/-- The cycle gives the instruction once: it is none to calculate, or it is given one at a time and the
cycle goes on to the next object. -/
def givenOnce (cfg : Config) (goesOn : Bool) (ins : Instruction) : Bool :=
  !ins.calculates || cfg.ipc = 1 && cfg.traceType ≠ .pc && goesOn

/-- The simulation has gone through its last cycle. -/
def simOver (cfg : Config) (cycle : UInt64) : Bool := cfg.simType = .cycle && cfg.simCycle < cycle

/-- Every instruction to calculate that was obtained was given to the arithmetic unit once, but for the
current one, which may not have been given yet. -/
def FedOnce (curr : Option Instruction) (log : List Feeding) : Prop :=
  ∀ ins, .got ins ∈ log → ins.calculates = true →
    log.count (.fed ins) = 1 ∨ curr = some ins ∧ log.count (.fed ins) = 0

/-! ### Where a processor is -/

/-- The current instruction and its request, the retries that wait, and the number of objects obtained. -/
structure Cursor where
  ins : Option Instruction
  req : Option ProcRequest
  mshrRetry : Bool
  mctrlRetry : Bool
  fetched : ℕ

namespace Cursor

/-- The current request is retried. -/
def retrying (k : Cursor) : Bool := k.mshrRetry || k.mctrlRetry

/-- The object that a call obtains, which is the current one behind it. -/
def obtained (k k' : Cursor) : List Feeding :=
  if k'.fetched = k.fetched then [] else (k'.ins.map .got).toList

variable {k k' k₁ : Cursor} {i : Instruction}

/-- The current instruction is one for the memory, and so is its request. -/
def AtMemory (k : Cursor) : Prop :=
  ∃ ins req, k.ins = some ins ∧ ins.isMem = true ∧ k.req = some req ∧ req.ifMem = true

/-- The request is the one of the instruction, and only a request for the memory is retried. -/
structure Steady (k : Cursor) : Prop where
  paired : ∀ req, k.req = some req → ∃ ins, k.ins = some ins ∧ req.ifMem = ins.isMem
  fresh : k.req = none → ∀ ins, k.ins = some ins → ins.calculates = false
  retry : k.retrying = true → k.AtMemory

/-- The next object replaces the current one. -/
structure Gets (k k' : Cursor) (i : Instruction) : Prop where
  ins : k'.ins = some i
  req : ∃ req, k'.req = some req ∧ req.ifMem = i.isMem
  ref : i.ref = k.fetched
  fetched : k'.fetched = k.fetched + 1
  mshrRetry : k'.mshrRetry = k.mshrRetry
  mctrlRetry : k'.mctrlRetry = k.mctrlRetry

/-- The current request stays, and is one for the memory. -/
structure Stays (k k' : Cursor) : Prop where
  memory : k'.AtMemory
  fetched : k'.fetched = k.fetched
  mshrRetry : k'.mshrRetry = k.mshrRetry
  mctrlRetry : k'.mctrlRetry = k.mctrlRetry

/-- What a retry leaves: the request stays, and is retried no more when the processor goes on. -/
structure Retries (k k' : Cursor) (processed : Bool) : Prop where
  memory : k'.AtMemory
  fetched : k'.fetched = k.fetched
  done : processed = true → k'.retrying = false

/-- What becomes of a request for the memory: it stays, and may be retried, or the next object comes. -/
def Moves (k k' : Cursor) : Prop :=
  k'.AtMemory ∧ k'.fetched = k.fetched ∨ ∃ i, k.Gets k' i

theorem AtMemory.steady (h : k.AtMemory) : k.Steady where
  paired := by
    obtain ⟨ins, req, hins, hmem, hreq, hif⟩ := h
    intro req' hreq'
    obtain rfl := Option.some.inj (hreq.symm.trans hreq')
    exact ⟨ins, hins, hif.trans hmem.symm⟩
  fresh := by
    obtain ⟨-, req, -, -, hreq, -⟩ := h
    intro hnone
    rw [hreq] at hnone
    cases hnone
  retry := fun _ => h

theorem AtMemory.calculates (h : k.AtMemory) (hi : k.ins = some i) : i.calculates = false := by
  obtain ⟨ins, -, hins, hmem, -⟩ := h
  obtain rfl := Option.some.inj (hi.symm.trans hins)
  simp [Instruction.calculates, hmem]

theorem Gets.noRetry (h : k.Gets k' i) (hretry : k.retrying = false) : k'.retrying = false := by
  unfold Cursor.retrying at hretry ⊢
  rw [h.mshrRetry, h.mctrlRetry]
  exact hretry

theorem Gets.steady (h : Gets k k' i) (hretry : k.retrying = false) : k'.Steady where
  paired := by
    obtain ⟨req, hreq, hif⟩ := h.req
    intro req' hreq'
    obtain rfl := Option.some.inj (hreq.symm.trans hreq')
    exact ⟨i, h.ins, hif⟩
  fresh := by
    obtain ⟨req, hreq, -⟩ := h.req
    intro hnone
    rw [hreq] at hnone
    cases hnone
  retry := by
    intro htrue
    rw [h.noRetry hretry] at htrue
    cases htrue

theorem Gets.obtained (h : k.Gets k' i) : k.obtained k' = [.got i] := by
  unfold Cursor.obtained
  rw [if_neg (by rw [h.fetched]; exact Nat.succ_ne_self _), h.ins]
  rfl

theorem obtained_of_eq (h : k'.fetched = k.fetched) : k.obtained k' = [] := if_pos h

/-- The next object behind a request that stayed. -/
theorem Stays.gets (h : k.Stays k₁) (hget : k₁.Gets k' i) : k.Gets k' i where
  ins := hget.ins
  req := hget.req
  ref := hget.ref.trans h.fetched
  fetched := hget.fetched.trans (congrArg (· + 1) h.fetched)
  mshrRetry := hget.mshrRetry.trans h.mshrRetry
  mctrlRetry := hget.mctrlRetry.trans h.mctrlRetry

theorem AtMemory.stays (h : k.AtMemory) : k.Stays k := ⟨h, rfl, rfl, rfl⟩

end Cursor

/-! ### The record -/

/-- The record before the arithmetic unit's part: only the current instruction is still to be given. -/
structure Unfed (k : Cursor) (log : List Feeding) : Prop where
  numbered : ∀ x ∈ log, x.ins.ref < k.fetched
  others : ∀ ins, .got ins ∈ log → ins.calculates = true → k.ins ≠ some ins → log.count (.fed ins) = 1
  current : ∀ ins, k.ins = some ins → ins.calculates = true →
    .got ins ∈ log ∧ log.count (.fed ins) = 0

/-- The record is right, and so is the current request. -/
structure Tracked (k : Cursor) (log : List Feeding) : Prop where
  unfed : Unfed k log
  steady : k.Steady

/-- The record behind it: every instruction to calculate was given. -/
structure Settled (fetched : ℕ) (log : List Feeding) : Prop where
  numbered : ∀ x ∈ log, x.ins.ref < fetched
  fed : ∀ ins, .got ins ∈ log → ins.calculates = true → log.count (.fed ins) = 1

variable {cfg : Config} {k k' : Cursor} {log : List Feeding} {i : Instruction} {n : ℕ}

theorem Unfed.fedOnce (h : Unfed k log) : FedOnce k.ins log := by
  intro ins hgot hcalc
  by_cases hcurr : k.ins = some ins
  · exact Or.inr ⟨hcurr, (h.current ins hcurr hcalc).2⟩
  · exact Or.inl (h.others ins hgot hcalc hcurr)

/-- An instruction that is none to calculate is passed over. -/
theorem Unfed.pass (h : Unfed k log) (hcurr : ∀ ins, k.ins = some ins → ins.calculates = false) :
    Settled k.fetched log where
  numbered := h.numbered
  fed := by
    intro ins hgot hcalc
    apply h.others ins hgot hcalc
    intro heq
    rw [hcurr ins heq] at hcalc
    cases hcalc

/-- The current instruction is given once. -/
theorem Unfed.feed (h : Unfed k log) (hcurr : k.ins = some i) (hcalc : i.calculates = true) :
    Settled k.fetched (log ++ [.fed i]) where
  numbered := by
    intro x hx
    rcases List.mem_append.mp hx with hx | hx
    · exact h.numbered x hx
    · have hgot := h.numbered _ (h.current i hcurr hcalc).1
      rw [List.mem_singleton.mp hx]
      exact hgot
  fed := by
    intro ins hgot hins
    have hmem : .got ins ∈ log := by simpa using hgot
    rw [List.count_append]
    by_cases heq : ins = i
    · rw [heq, (h.current i hcurr hcalc).2]
      simp
    · rw [h.others ins hmem hins fun hsome => heq (Option.some.inj (hsome.symm.trans hcurr))]
      have hne : i ≠ ins := Ne.symm heq
      simp [hne]

/-- **The next object** is still to be given. -/
theorem Settled.got (h : Settled k.fetched log) (hins : k'.ins = some i) (href : i.ref = k.fetched)
    (hfetched : k'.fetched = k.fetched + 1) : Unfed k' (log ++ [.got i]) where
  numbered := by
    intro x hx
    rw [hfetched]
    rcases List.mem_append.mp hx with hx | hx
    · exact Nat.lt_succ_of_lt (h.numbered x hx)
    · rw [List.mem_singleton.mp hx, show (Feeding.got i).ins.ref = k.fetched from href]
      exact Nat.lt_succ_self _
  others := by
    intro ins hgot hcalc hcurr
    have hne : ins ≠ i := by
      rintro rfl
      exact hcurr hins
    have hmem : .got ins ∈ log := by simpa [hne] using hgot
    rw [List.count_append, h.fed ins hmem hcalc]
    simp
  current := by
    intro ins hcurr hcalc
    obtain rfl := Option.some.inj (hins.symm.trans hcurr)
    refine ⟨by simp, ?_⟩
    -- the number of the object is new
    have hnew : Feeding.fed i ∉ log := by
      intro hmem
      have hlt := h.numbered _ hmem
      rw [show (Feeding.fed i).ins.ref = k.fetched from href] at hlt
      exact absurd hlt (lt_irrefl _)
    rw [List.count_append, List.count_eq_zero.mpr hnew]
    simp

theorem Settled.gets (h : Settled k.fetched log) (hget : k.Gets k' i) (hretry : k.retrying = false) :
    Tracked k' (log ++ k.obtained k') := by
  rw [hget.obtained]
  exact ⟨h.got hget.ins hget.ref hget.fetched, hget.steady hretry⟩

/-- A processor that is at no instruction to calculate. -/
theorem Settled.unfed (h : Settled k.fetched log)
    (hcurr : ∀ ins, k.ins = some ins → ins.calculates = false) : Unfed k log where
  numbered := h.numbered
  others := fun ins hgot hcalc _ => h.fed ins hgot hcalc
  current := by
    intro ins heq hcalc
    rw [hcurr ins heq] at hcalc
    cases hcalc

/-- A processor that is at a request for the memory. -/
theorem Settled.atMemory (h : Settled k.fetched log) (hmemory : k.AtMemory) : Tracked k log :=
  ⟨h.unfed fun _ => hmemory.calculates, hmemory.steady⟩

/-- A request for the memory moves on, or stays. -/
theorem Settled.moves (h : Settled k.fetched log) (hmove : k.Moves k') (hretry : k.retrying = false) :
    Tracked k' (log ++ k.obtained k') := by
  rcases hmove with ⟨hmemory, hfetched⟩ | ⟨i, hget⟩
  · rw [Cursor.obtained_of_eq hfetched, List.append_nil]
    exact (hfetched ▸ h).atMemory hmemory
  · exact h.gets hget hretry

/-- A processor before its first cycle. -/
theorem tracked_start (hins : k.ins = none) (hreq : k.req = none) (hretry : k.retrying = false) :
    Tracked k [] where
  unfed := by
    refine ⟨by simp, by simp, ?_⟩
    intro ins hsome
    rw [hins] at hsome
    cases hsome
  steady := by
    refine ⟨?_, ?_, ?_⟩
    · intro req hsome
      rw [hreq] at hsome
      cases hsome
    · intro _ ins hsome
      rw [hins] at hsome
      cases hsome
    · intro htrue
      rw [hretry] at htrue
      cases htrue

/-! ### The arithmetic unit's part -/

theorem feedAlu_nop (hnop : i.type = .nop) : feedAlu i n = [] := by
  induction n with
  | zero => rfl
  | succ n ih => rw [feedAlu, if_pos hnop, ih]

theorem aluTurn_of_not (h : i.calculates = false) : aluTurn cfg i = [] := by
  unfold aluTurn
  split_ifs with htrace hmem
  · have hnop : i.type = .nop := by simpa [Instruction.calculates, hmem] using h
    exact feedAlu_nop hnop
  · rfl
  · rfl

theorem aluTurn_once (h : i.calculates = true) (htrace : cfg.traceType ≠ .pc) (hipc : cfg.ipc = 1) :
    aluTurn cfg i = [.fed i] := by
  obtain ⟨hmem, hnop⟩ : i.isMem = false ∧ i.type ≠ .nop := by simpa [Instruction.calculates] using h
  unfold aluTurn
  rw [if_pos htrace, hmem, hipc]
  simp [feedAlu, hnop]

/-- **The arithmetic unit's part** of a cycle that gives the current instruction once. -/
theorem Unfed.turn (h : Unfed k log) (hins : k.ins = some i) {goesOn : Bool}
    (hgiven : givenOnce cfg goesOn i = true) : Settled k.fetched (log ++ aluTurn cfg i) ∧
      (goesOn = false → ∀ ins, k.ins = some ins → ins.calculates = false) := by
  unfold givenOnce at hgiven
  cases hcalc : i.calculates with
  | false =>
    have hcurr : ∀ ins, k.ins = some ins → ins.calculates = false := by
      intro ins hsome
      rw [Option.some.inj (hsome.symm.trans hins)]
      exact hcalc
    rw [aluTurn_of_not hcalc, List.append_nil]
    exact ⟨h.pass hcurr, fun _ => hcurr⟩
  | true =>
    simp only [hcalc, Bool.not_true, Bool.false_or, Bool.and_eq_true, decide_eq_true_eq] at hgiven
    rw [aluTurn_once hcalc hgiven.1.2 hgiven.1.1]
    refine ⟨h.feed hins hcalc, fun hstall => ?_⟩
    rw [hgiven.2] at hstall
    cases hstall

end PIMSim
