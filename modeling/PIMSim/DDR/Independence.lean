import PIMSim.DDR.Pop
import PIMSim.Library.Run

/-!
# Independence of the command queues

The constructor adds the same list of queues for every rank. With one rank the queues are
independent: a packet enters and leaves the queue of its own rank and bank only. With more ranks
every queue is shared by all of them.

## Main definitions

* `QueueEvent`, `CommandQueue.step`: the calls of a command queue
* `Frames`: a call changes no queue but that of its packet
* `Independent`: every call after every run does

## Main results

* `independent_iff`: the queues are independent exactly with at most one rank, or when no packet can
  enter them
-/

namespace PIMSim.DDR

open CSharp Transition

/-- The calls of a command queue. The states of the banks are those at the time of the call. -/
inductive QueueEvent
  | enqueue (p : BusPacket)
  | pop (bankStates : List (List BankState))
  | needRefresh (rank : ℕ)
  | step

namespace CommandQueue

def step (cfg : DRAMConfig) (cq : CommandQueue) : QueueEvent → Outcome CommandQueue
  | .enqueue p => cq.enqueue cfg p
  | .pop bankStates => do
    let (_, cq) ← cq.pop cfg bankStates
    return cq
  | .needRefresh rank => return cq.needRefresh rank
  | .step => return { cq with currentClockCycle := cq.currentClockCycle + 1 }

/-- What the queue of a rank and a bank holds. -/
def contents (cfg : DRAMConfig) (cq : CommandQueue) (rank bank : ℕ) : Option (List BusPacket) :=
  (cq.getCommandQueue cfg rank bank).toOption.map cq.cell

end CommandQueue

open CommandQueue

/-- The packet belongs to the queue of the rank and the bank. -/
def BelongsTo (cfg : DRAMConfig) (p : BusPacket) (rank bank : ℕ) : Prop :=
  rank = p.rank ∧ (cfg.queuingStructure = .perRankPerBank → bank = p.bank)

/-- A call changes no queue but that of the packet that enters or leaves. -/
def Frames (cfg : DRAMConfig) (cq : CommandQueue) (e : QueueEvent) (cq' : CommandQueue) : Prop :=
  match e with
  | .enqueue p => ∀ rank bank, ¬BelongsTo cfg p rank bank →
      cq'.contents cfg rank bank = cq.contents cfg rank bank
  | .pop bankStates => ∀ found, cq.pop cfg bankStates = .ok (found, cq') →
      ∀ rank bank, (∀ p, found = some p → ¬BelongsTo cfg p rank bank) →
        cq'.contents cfg rank bank = cq.contents cfg rank bank
  | .needRefresh _ => ∀ rank bank, cq'.contents cfg rank bank = cq.contents cfg rank bank
  | .step => ∀ rank bank, cq'.contents cfg rank bank = cq.contents cfg rank bank

/-- **Independent queues**: after every sequence of calls, every call changes no queue but that of
its packet. -/
def Independent (cfg : DRAMConfig) : Prop :=
  ∀ events cq, exec (CommandQueue.step cfg) (CommandQueue.init cfg) events = .ok cq →
    ∀ e cq', cq.step cfg e = .ok cq' → Frames cfg cq e cq'

variable {cfg : DRAMConfig} {bankStates : List (List BankState)} {cq cq' : CommandQueue}
  {p : BusPacket}

/-- A packet that is taken was in its queue, and only packets of the queue stay. -/
theorem Takes.subset {queue queue' : List BusPacket} {i : ℕ} (h : Takes cfg queue i p queue') :
    queue' ⊆ queue := by
  cases h with
  | head => exact (List.eraseIdx_sublist _ _).subset
  | unpaired => exact (List.eraseIdx_sublist _ _).subset
  | first => exact (List.eraseIdx_sublist _ _).subset
  | single => exact (List.eraseIdx_sublist _ _).subset
  | both => exact ((List.eraseIdx_sublist _ _).trans (List.eraseIdx_sublist _ _)).subset

namespace CommandQueue

/-- What the constructor builds and no call changes; every packet is in its own queue. -/
structure Built (cfg : DRAMConfig) (cq : CommandQueue) : Prop where
  queues : cq.queues = List.replicate cfg.numRanks 0
  rows : cq.rows = [List.range (cfg.numRanks * cfg.numBankQueues)]
  placed : ∀ ref p, p ∈ cq.cell ref → cq.getCommandQueue cfg p.rank p.bank = .ok ref

theorem getCommandQueue_congr (hqueues : cq'.queues = cq.queues) (hrows : cq'.rows = cq.rows)
    (rank bank : Int) : cq'.getCommandQueue cfg rank bank = cq.getCommandQueue cfg rank bank := by
  unfold getCommandQueue
  rw [hqueues, hrows]

theorem listAt_replicate {n x y : ℕ} {i : Int} :
    listAt (List.replicate n x) i = .ok y ↔ 0 ≤ i ∧ i < n ∧ y = x := by
  rw [listAt_eq_ok, List.getElem?_replicate]
  constructor
  · rintro ⟨hi, h⟩
    split_ifs at h with hlt
    cases h
    exact ⟨hi, by omega, rfl⟩
  · rintro ⟨hi, hlt, rfl⟩
    exact ⟨hi, by rw [if_pos (by omega)]⟩

theorem listAt_range {n y : ℕ} {i : Int} :
    listAt (List.range n) i = .ok y ↔ 0 ≤ i ∧ i < n ∧ (y : Int) = i := by
  rw [listAt_eq_ok]
  constructor
  · rintro ⟨hi, h⟩
    obtain ⟨hlt, hget⟩ := List.getElem?_eq_some_iff.mp h
    rw [List.getElem_range] at hget
    rw [List.length_range] at hlt
    omega
  · rintro ⟨hi, hlt, hy⟩
    have hy' : y = i.toNat := by omega
    rw [hy', List.getElem?_range (by omega)]
    exact ⟨hi, rfl⟩

/-- **The references of the queues**: that of a rank and a bank does not depend on the rank. -/
theorem Built.getCommandQueue (h : Built cfg cq) {rank bank : Int} {ref : ℕ} :
    cq.getCommandQueue cfg rank bank = .ok ref ↔ 0 ≤ rank ∧ rank < cfg.numRanks ∧
      match cfg.queuingStructure with
      | .perRankPerBank => 0 ≤ bank ∧ bank < cfg.numRanks * cfg.numBankQueues ∧ (ref : Int) = bank
      | .perRank => 0 < cfg.numRanks * cfg.numBankQueues ∧ ref = 0 := by
  unfold CommandQueue.getCommandQueue
  rw [h.queues, h.rows]
  constructor
  · intro hok
    obtain ⟨row, hrow, hok⟩ := Outcome.bind_eq_ok.mp hok
    obtain ⟨hlo, hhi, rfl⟩ := listAt_replicate.mp hrow
    obtain ⟨perBank, hper, hok⟩ := Outcome.bind_eq_ok.mp hok
    cases hper
    refine ⟨hlo, hhi, ?_⟩
    cases hq : cfg.queuingStructure <;> rw [hq] at hok
    · obtain ⟨-, hlt, href⟩ := listAt_range.mp hok
      exact ⟨by exact_mod_cast hlt, by exact_mod_cast href⟩
    · exact_mod_cast listAt_range.mp hok
  · rintro ⟨hlo, hhi, href⟩
    refine Outcome.bind_eq_ok.mpr ⟨0, listAt_replicate.mpr ⟨hlo, hhi, rfl⟩, ?_⟩
    refine Outcome.bind_eq_ok.mpr ⟨_, rfl, ?_⟩
    cases hq : cfg.queuingStructure <;> rw [hq] at href
    · exact listAt_range.mpr ⟨le_rfl, by exact_mod_cast href.1, by exact_mod_cast href.2⟩
    · exact listAt_range.mpr (by exact_mod_cast href)

/-- With one rank, a reference tells its rank and bank. -/
theorem Built.belongsTo (h : Built cfg cq) (hranks : cfg.numRanks ≤ 1) {rank bank ref : ℕ}
    (href : cq.getCommandQueue cfg rank bank = .ok ref)
    (hp : cq.getCommandQueue cfg p.rank p.bank = .ok ref) : BelongsTo cfg p rank bank := by
  obtain ⟨-, hr, hb⟩ := h.getCommandQueue.mp href
  obtain ⟨-, hr', hb'⟩ := h.getCommandQueue.mp hp
  refine ⟨by omega, fun hq => ?_⟩
  rw [hq] at hb hb'
  have := hb.2.2
  have := hb'.2.2
  omega

theorem cell_setCell_self {ref : ℕ} {queue : List BusPacket} (h : ref < cq.cells.length) :
    (cq.setCell ref queue).cell ref = queue := by
  unfold cell setCell
  rw [List.getD_eq_getElem?_getD, List.getElem?_set_self h, Option.getD_some]

theorem cell_setCell_ne {ref ref' : ℕ} {queue : List BusPacket} (h : ref' ≠ ref) :
    (cq.setCell ref queue).cell ref' = cq.cell ref' := by
  unfold cell setCell
  rw [List.getD_eq_getElem?_getD, List.getElem?_set_ne (Ne.symm h), List.getD_eq_getElem?_getD]

/-- A set cell holds the new queue, if it holds anything. -/
theorem mem_cell_setCell {ref ref' : ℕ} {queue : List BusPacket}
    (h : p ∈ (cq.setCell ref queue).cell ref') :
    (ref' = ref ∧ p ∈ queue) ∨ p ∈ cq.cell ref' := by
  by_cases href : ref' = ref
  · subst href
    by_cases hlt : ref' < cq.cells.length
    · rw [cell_setCell_self hlt] at h
      exact .inl ⟨rfl, h⟩
    · have hout : (cq.setCell ref' queue).cell ref' = cq.cell ref' := by
        unfold cell setCell
        rw [List.set_eq_of_length_le (Nat.not_lt.mp hlt)]
      exact .inr (hout ▸ h)
  · exact .inr (cell_setCell_ne href ▸ h)

theorem contents_congr (hqueues : cq'.queues = cq.queues) (hrows : cq'.rows = cq.rows)
    {rank bank : ℕ}
    (hcell : ∀ ref, cq.getCommandQueue cfg rank bank = .ok ref → cq'.cell ref = cq.cell ref) :
    cq'.contents cfg rank bank = cq.contents cfg rank bank := by
  unfold contents
  rw [getCommandQueue_congr hqueues hrows]
  cases h : cq.getCommandQueue cfg rank bank with
  | error e => rfl
  | ok ref => exact congrArg some (hcell ref h)

@[simp] theorem getCommandQueue_setCell (ref : ℕ) (queue : List BusPacket) (rank bank : Int) :
    (cq.setCell ref queue).getCommandQueue cfg rank bank = cq.getCommandQueue cfg rank bank := rfl

theorem contents_setCell {ref : ℕ} (queue : List BusPacket) {rank bank : ℕ}
    (h : cq.getCommandQueue cfg rank bank ≠ .ok ref) :
    (cq.setCell ref queue).contents cfg rank bank = cq.contents cfg rank bank := by
  have hcell : ∀ ref', cq.getCommandQueue cfg rank bank = .ok ref' →
      (cq.setCell ref queue).cell ref' = cq.cell ref' := by
    rintro ref' href'
    refine cell_setCell_ne ?_
    rintro rfl
    exact h href'
  apply contents_congr _ _ hcell
  · rfl
  · rfl

theorem Same.contents (h : Same cq cq') (rank bank : ℕ) :
    cq'.contents cfg rank bank = cq.contents cfg rank bank := by
  refine contents_congr h.queues h.rows fun ref _ => ?_
  unfold cell
  rw [h.cells]

theorem enqueue_eq_ok (h : cq.enqueue cfg p = .ok cq') :
    ∃ ref, cq.getCommandQueue cfg p.rank p.bank = .ok ref ∧
      (cq.cell ref).length < cfg.cmdQueueDepth ∧ cq' = cq.setCell ref (cq.cell ref ++ [p]) := by
  obtain ⟨ref, href, h⟩ := Outcome.bind_eq_ok.mp h
  dsimp only at h
  split_ifs at h with hfull
  cases h
  rw [List.length_append, List.length_singleton] at hfull
  exact ⟨ref, href, by omega, rfl⟩

/-- Queues that hold what they held stay built. -/
theorem Built.of_subset (h : Built cfg cq) (hqueues : cq'.queues = cq.queues)
    (hrows : cq'.rows = cq.rows)
    (hmem : ∀ ref p, p ∈ cq'.cell ref →
      p ∈ cq.cell ref ∨ cq.getCommandQueue cfg p.rank p.bank = .ok ref) :
    Built cfg cq' := by
  refine ⟨hqueues.trans h.queues, hrows.trans h.rows, fun ref p hp => ?_⟩
  rw [getCommandQueue_congr hqueues hrows]
  rcases hmem ref p hp with hp | hp
  · exact h.placed ref p hp
  · exact hp

theorem Built.same (h : Built cfg cq) (hsame : Same cq cq') : Built cfg cq' := by
  refine h.of_subset hsame.queues hsame.rows fun ref p hp => .inl ?_
  unfold cell at hp ⊢
  rwa [hsame.cells] at hp

theorem Built.setCell (h : Built cfg cq) {ref : ℕ} {queue : List BusPacket}
    (hmem : ∀ p ∈ queue, p ∈ cq.cell ref ∨ cq.getCommandQueue cfg p.rank p.bank = .ok ref) :
    Built cfg (cq.setCell ref queue) := by
  refine h.of_subset rfl rfl fun ref' p hp => ?_
  rcases mem_cell_setCell hp with ⟨href, hqueue⟩ | hcell
  · exact href ▸ hmem p hqueue
  · exact .inl hcell

theorem Built.pops {found : Option BusPacket} (h : Built cfg cq)
    (hpops : Pops cfg bankStates cq found cq') : Built cfg cq' := by
  cases hpops with
  | nothing hsame => exact h.same hsame
  | refresh _ _ _ hsame =>
    have hsend : Built cfg cq.sendRefresh.2 := ⟨h.queues, h.rows, h.placed⟩
    exact hsend.same hsame
  | precharge _ _ _ _ hsame => exact h.same hsame
  | queued ref i p hget _ htakes hsame =>
    exact (h.setCell fun q hq => .inl (htakes.subset hq)).same hsame

theorem Built.step {e : QueueEvent} (h : Built cfg cq) (hstep : cq.step cfg e = .ok cq') :
    Built cfg cq' := by
  cases e with
  | enqueue p =>
    obtain ⟨ref, href, -, rfl⟩ := enqueue_eq_ok hstep
    refine h.setCell fun q hq => ?_
    rcases List.mem_append.mp hq with hq | hq
    · exact .inl hq
    · cases List.mem_singleton.mp hq
      exact .inr href
  | pop bankStates =>
    obtain ⟨⟨found, cq₁⟩, hpop, heq⟩ := Outcome.bind_eq_ok.mp hstep
    cases heq
    exact h.pops (pop_spec hpop)
  | needRefresh rank =>
    cases hstep
    exact ⟨h.queues, h.rows, h.placed⟩
  | step =>
    cases hstep
    exact ⟨h.queues, h.rows, h.placed⟩

theorem cell_init (cfg : DRAMConfig) (ref : ℕ) : (init cfg).cell ref = [] := by
  unfold cell init
  rw [List.getD_eq_getElem?_getD, List.getElem?_replicate]
  split_ifs <;> rfl

theorem built_init (cfg : DRAMConfig) : Built cfg (init cfg) := by
  refine ⟨rfl, rfl, fun ref p hp => ?_⟩
  rw [cell_init] at hp
  cases hp

/-- `pop` keeps the queues behind other references. -/
theorem contents_pops {found : Option BusPacket}
    (hpops : Pops cfg bankStates cq found cq') {rank bank : ℕ}
    (hother : ∀ ref p, found = some p → p ∈ cq.cell ref →
      cq.getCommandQueue cfg rank bank ≠ .ok ref) :
    cq'.contents cfg rank bank = cq.contents cfg rank bank := by
  cases hpops with
  | nothing hsame => exact hsame.contents rank bank
  | refresh _ _ _ hsame => exact hsame.contents rank bank
  | precharge _ _ _ _ hsame => exact hsame.contents rank bank
  | queued ref i p hget _ _ hsame =>
    rw [hsame.contents]
    exact contents_setCell _ (hother ref p rfl (List.mem_of_getElem? hget))

/-- A call keeps the queues of other packets, if references tell rank and bank. -/
theorem frames_of_belongsTo (h : Built cfg cq)
    (hbelongs : ∀ (p : BusPacket) (rank bank ref : ℕ), cq.getCommandQueue cfg rank bank = .ok ref →
      cq.getCommandQueue cfg p.rank p.bank = .ok ref → BelongsTo cfg p rank bank)
    {e : QueueEvent} (hstep : cq.step cfg e = .ok cq') : Frames cfg cq e cq' := by
  cases e with
  | enqueue p =>
    intro rank bank hother
    obtain ⟨ref, href, -, rfl⟩ := enqueue_eq_ok hstep
    exact contents_setCell _ fun href' => hother (hbelongs p rank bank ref href' href)
  | pop bankStates =>
    intro found hpop rank bank hother
    refine contents_pops (pop_spec hpop) fun ref p hfound hp href => ?_
    exact hother p hfound (hbelongs p rank bank ref href (h.placed ref p hp))
  | needRefresh rank =>
    cases hstep
    exact fun _ _ => rfl
  | step =>
    cases hstep
    exact fun _ _ => rfl

theorem Built.run {events : List QueueEvent}
    (h : exec (CommandQueue.step cfg) (CommandQueue.init cfg) events = .ok cq) : Built cfg cq :=
  exec_invariant (fun _ _ _ hbuilt hstep => hbuilt.step hstep) (built_init cfg) h

/-- With at most one rank every queue is one of one rank and bank. -/
theorem independent_of_one_rank (hranks : cfg.numRanks ≤ 1) : Independent cfg := by
  intro events cq h e cq' hstep
  have hbuilt := Built.run h
  exact frames_of_belongsTo hbuilt
    (fun p rank bank ref href hp => hbuilt.belongsTo hranks href hp) hstep

/-- No packet can enter when the ranks have no queues, or when the queues have no room. -/
theorem enqueue_ne_ok (h : Built cfg cq) (hno : cfg.numBankQueues = 0 ∨ cfg.cmdQueueDepth = 0) :
    cq.enqueue cfg p ≠ .ok cq' := by
  intro henqueue
  obtain ⟨ref, href, hroom, -⟩ := enqueue_eq_ok henqueue
  rcases hno with hno | hno
  · obtain ⟨-, -, href⟩ := h.getCommandQueue.mp href
    rw [hno, Nat.mul_zero] at href
    cases hq : cfg.queuingStructure <;> rw [hq] at href <;> omega
  · omega

theorem independent_of_no_room (hno : cfg.numBankQueues = 0 ∨ cfg.cmdQueueDepth = 0) :
    Independent cfg := by
  intro events cq h e cq' hstep
  -- Without room every `enqueue` stops the program, so that all queues stay empty in a run that
  -- goes on.
  have hkept : Built cfg cq ∧ ∀ ref, cq.cell ref = [] := by
    refine exec_invariant (I := fun cq => Built cfg cq ∧ ∀ ref, cq.cell ref = []) ?_
      ⟨built_init cfg, cell_init cfg⟩ h
    rintro cq e cq' ⟨hbuilt, hempty⟩ hstep
    refine ⟨hbuilt.step hstep, fun ref => ?_⟩
    cases e with
    | enqueue p => exact absurd hstep (enqueue_ne_ok hbuilt hno)
    | pop bankStates =>
      obtain ⟨⟨found, cq₁⟩, hpop, heq⟩ := Outcome.bind_eq_ok.mp hstep
      cases heq
      cases pop_spec hpop with
      | nothing hsame =>
        unfold cell
        rw [hsame.cells]
        exact hempty ref
      | refresh _ _ _ hsame =>
        unfold cell
        rw [hsame.cells]
        exact hempty ref
      | precharge _ _ _ _ hsame =>
        unfold cell
        rw [hsame.cells]
        exact hempty ref
      | queued ref' i p hget =>
        rw [hempty ref'] at hget
        cases hget
    | needRefresh rank =>
      cases hstep
      exact hempty ref
    | step =>
      cases hstep
      exact hempty ref
  obtain ⟨hbuilt, hempty⟩ := hkept
  cases e with
  | enqueue p => exact absurd hstep (enqueue_ne_ok hbuilt hno)
  | pop bankStates =>
    intro found hpop rank bank _
    refine contents_pops (pop_spec hpop) fun ref p _ hp _ => ?_
    rw [hempty ref] at hp
    cases hp
  | needRefresh rank =>
    cases hstep
    exact fun _ _ => rfl
  | step =>
    cases hstep
    exact fun _ _ => rfl

/-- With two ranks, a packet of the first one enters the queue of the second one too. -/
theorem not_independent (hranks : 2 ≤ cfg.numRanks) (hqueues : 0 < cfg.numBankQueues)
    (hdepth : 0 < cfg.cmdQueueDepth) : ¬Independent cfg := by
  intro hindependent
  have hbuilt := built_init cfg
  have hpos : 0 < cfg.numRanks * cfg.numBankQueues := Nat.mul_pos (by omega) hqueues
  have href : ∀ rank : ℕ, rank < 2 → (init cfg).getCommandQueue cfg rank (0 : ℕ) = .ok 0 := by
    intro rank hrank
    refine hbuilt.getCommandQueue.mpr ⟨by omega, by omega, ?_⟩
    cases cfg.queuingStructure with
    | perRank => exact ⟨hpos, rfl⟩
    | perRankPerBank => exact ⟨le_rfl, by exact_mod_cast hpos, rfl⟩
  let p := BusPacket.new .activate 0 0 0 0 0 0 none
  have henqueue : (init cfg).enqueue cfg p = .ok ((init cfg).setCell 0 [p]) := by
    have hp : (init cfg).getCommandQueue cfg p.rank p.bank = .ok 0 := href 0 (by omega)
    have hroom : ¬cfg.cmdQueueDepth < [p].length := by
      rw [List.length_singleton]
      omega
    unfold enqueue
    rw [hp, Outcome.ok_bind, cell_init, List.nil_append, if_neg hroom]
    rfl
  have hframes := hindependent [] (init cfg) rfl (.enqueue p) _ henqueue 1 0 (fun h => by cases h.1)
  have hlt : 0 < (init cfg).cells.length := by simpa [init] using hpos
  unfold contents at hframes
  rw [getCommandQueue_setCell, href 1 (by omega)] at hframes
  have hcell : ((init cfg).setCell 0 [p]).cell 0 = (init cfg).cell 0 := Option.some.inj hframes
  rw [cell_setCell_self hlt, cell_init] at hcell
  cases hcell

end CommandQueue

/-- **Independence of the command queues**: exactly with at most one rank, or when no packet can
enter the queues. -/
theorem independent_iff (cfg : DRAMConfig) :
    Independent cfg ↔ cfg.numRanks ≤ 1 ∨ cfg.numBankQueues = 0 ∨ cfg.cmdQueueDepth = 0 := by
  constructor
  · intro h
    by_contra hno
    push Not at hno
    exact not_independent (by omega) (by omega) (by omega) h
  · rintro (hranks | hno)
    · exact independent_of_one_rank hranks
    · exact independent_of_no_room hno

/-- Two ranks of one bank each: after a packet for rank 0 is enqueued, the queue of rank 1 holds
it. -/
theorem not_independent_two_ranks :
    ¬Independent { numRanks := 2, numBanks := 1, cmdQueueDepth := 8 } := by
  intro hindependent
  have hframes := hindependent [] _ rfl (.enqueue (BusPacket.new .activate 64 0 0 0 0 0 none)) _ rfl
    1 0 (fun h => by cases h.1)
  revert hframes
  decide

end PIMSim.DDR
