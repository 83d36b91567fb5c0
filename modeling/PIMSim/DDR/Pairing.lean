import PIMSim.DDR.BankTable
import PIMSim.DDR.Independence

/-!
# Activates and their column accesses

A transaction enters a queue as an activate and a column access behind it. With closed pages the
column access closes the bank, so it may only go on the bus after its own activate: the queues hold
pairs, and column accesses whose activate has been issued and whose bank is still open for them.

## Main definitions

* `Paired queue loose`: the queue consists of pairs and of the column accesses `loose`
* `Fits cfg cs queue`: what a queue holds fits the bank table `cs` of the controller
* `Queued cfg cs cq`: all queues of a command queue fit

## Main results

* `Queued.pops`: what is popped was tested as the rank will test it, and the queues fit the table after
  the command
* `Queued.enqueue`: the queues fit when a transaction enters
-/

namespace PIMSim.DDR

open CSharp

/-- A column access with automatic precharge. -/
def Column (p : BusPacket) : Prop := p.busPacketType = .readP ∨ p.busPacketType = .writeP

/-- A queue of pairs, and of column accesses whose activate has left the queue. -/
inductive Paired : List BusPacket → List BusPacket → Prop
  | nil : Paired [] []
  | pair {act col : BusPacket} {queue loose : List BusPacket} (hact : act.busPacketType = .activate)
      (hcol : Column col) (haddress : act.physicalAddress = col.physicalAddress)
      (hbank : act.bank = col.bank) (hrow : act.row = col.row) (h : Paired queue loose) :
      Paired (act :: col :: queue) loose
  | loose {col : BusPacket} {queue loose : List BusPacket} (hcol : Column col)
      (h : Paired queue loose) : Paired (col :: queue) (col :: loose)

namespace Paired

variable {queue loose : List BusPacket} {p : BusPacket}

theorem subset (h : Paired queue loose) : loose ⊆ queue := by
  induction h with
  | nil => exact List.Subset.refl []
  | pair _ _ _ _ _ _ ih =>
    exact List.subset_cons_of_subset _ (List.subset_cons_of_subset _ ih)
  | loose _ _ ih => exact List.cons_subset_cons _ ih

theorem append_pair {act col : BusPacket} (hact : act.busPacketType = .activate)
    (hcol : Column col) (haddress : act.physicalAddress = col.physicalAddress)
    (hbank : act.bank = col.bank) (hrow : act.row = col.row) (h : Paired queue loose) :
    Paired (queue ++ [act, col]) loose := by
  induction h with
  | nil => exact .pair hact hcol haddress hbank hrow .nil
  | pair hact' hcol' haddress' hbank' hrow' _ ih =>
    exact .pair hact' hcol' haddress' hbank' hrow' ih
  | loose hcol' _ ih => exact .loose hcol' ih

/-- What leaves a queue of pairs: an activate, whose column access becomes loose, or a loose column
access. -/
theorem eraseIdx (h : Paired queue loose) {i : ℕ} (hget : queue[i]? = some p)
    (hfree : ∀ a, 0 < i → queue[i - 1]? = some a → a.busPacketType = .activate →
      ¬(a.physicalAddress = p.physicalAddress ∧ a.bank = p.bank ∧ a.row = p.row)) :
    (p.busPacketType = .activate ∧ ∃ l₁ l₂ col, loose = l₁ ++ l₂ ∧ col.bank = p.bank ∧
      Paired (queue.eraseIdx i) (l₁ ++ col :: l₂)) ∨
    (Column p ∧ ∃ l₁ l₂, loose = l₁ ++ p :: l₂ ∧ Paired (queue.eraseIdx i) (l₁ ++ l₂)) := by
  induction h generalizing i with
  | nil => cases hget
  | @pair act col queue loose hact hcol haddress hbank hrow h ih =>
    match i with
    | 0 =>
      cases hget
      exact .inl ⟨hact, [], loose, col, rfl, hbank.symm, .loose hcol h⟩
    | 1 =>
      cases hget
      exact absurd ⟨haddress, hbank, hrow⟩ (hfree act Nat.one_pos rfl hact)
    | i + 2 =>
      have hfree' : ∀ a, 0 < i → queue[i - 1]? = some a → a.busPacketType = .activate →
          ¬(a.physicalAddress = p.physicalAddress ∧ a.bank = p.bank ∧ a.row = p.row) := by
        intro a hi ha
        refine hfree a (by omega) ?_
        obtain ⟨k, rfl⟩ := Nat.exists_eq_succ_of_ne_zero hi.ne'
        exact ha
      rcases ih hget hfree' with ⟨hp, l₁, l₂, col', rfl, hcol', h'⟩ | ⟨hp, l₁, l₂, rfl, h'⟩
      · exact .inl ⟨hp, l₁, l₂, col', rfl, hcol', .pair hact hcol haddress hbank hrow h'⟩
      · exact .inr ⟨hp, l₁, l₂, rfl, .pair hact hcol haddress hbank hrow h'⟩
  | @loose col queue loose hcol h ih =>
    match i with
    | 0 =>
      cases hget
      exact .inr ⟨hcol, [], loose, rfl, h⟩
    | i + 1 =>
      have hfree' : ∀ a, 0 < i → queue[i - 1]? = some a → a.busPacketType = .activate →
          ¬(a.physicalAddress = p.physicalAddress ∧ a.bank = p.bank ∧ a.row = p.row) := by
        intro a hi ha
        refine hfree a (by omega) ?_
        obtain ⟨k, rfl⟩ := Nat.exists_eq_succ_of_ne_zero hi.ne'
        exact ha
      rcases ih hget hfree' with ⟨hp, l₁, l₂, col', rfl, hcol', h'⟩ | ⟨hp, l₁, l₂, rfl, h'⟩
      · exact .inl ⟨hp, col :: l₁, l₂, col', rfl, hcol', .loose hcol h'⟩
      · exact .inr ⟨hp, col :: l₁, l₂, rfl, .loose hcol h'⟩

end Paired

/-- The bank of the packet is open since its activate. -/
def Loose (cs : List BankState) (p : BusPacket) : Prop :=
  ∃ s, cs[p.bank]? = some s ∧ s.currentBankState = .rowActive ∧ s.lastCommand = .activate

/-- What a queue holds fits the bank table of the controller. -/
def Fits (cfg : DRAMConfig) (cs : List BankState) (queue : List BusPacket) : Prop :=
  match cfg.rowBufferPolicy with
  | .openPage => ∀ p ∈ queue, p.busPacketType ≠ .readP ∧ p.busPacketType ≠ .writeP
  | .closePage => ∃ loose, Paired queue loose ∧ (loose.map BusPacket.bank).Nodup ∧
      ∀ p ∈ loose, Loose cs p

/-- All queues fit the bank table of the controller. -/
structure Queued (cfg : DRAMConfig) (cs : List BankState) (cq : CommandQueue) : Prop where
  built : cq.Built cfg
  fits : ∀ ref, Fits cfg cs (cq.cell ref)

variable {cfg : DRAMConfig} {cs cs' : List BankState} {cq cq' : CommandQueue} {t : UInt64}
  {p : BusPacket}

theorem fits_nil (cfg : DRAMConfig) (cs : List BankState) : Fits cfg cs [] := by
  unfold Fits
  cases cfg.rowBufferPolicy with
  | openPage => exact fun p hp => absurd hp List.not_mem_nil
  | closePage => exact ⟨[], .nil, List.nodup_nil, fun p hp => absurd hp List.not_mem_nil⟩

/-- A queue fits another table in which the banks of its column accesses are open too. -/
theorem Fits.congr {queue : List BusPacket} (h : Fits cfg cs queue)
    (hloose : ∀ q ∈ queue, Loose cs q → Loose cs' q) : Fits cfg cs' queue := by
  unfold Fits at h ⊢
  cases hpolicy : cfg.rowBufferPolicy <;> rw [hpolicy] at h
  · exact h
  · obtain ⟨loose, hpaired, hnodup, hopen⟩ := h
    exact ⟨loose, hpaired, hnodup, fun q hq => hloose q (hpaired.subset hq) (hopen q hq)⟩

theorem Queued.congr (h : Queued cfg cs cq) (hloose : ∀ q, Loose cs q → Loose cs' q) :
    Queued cfg cs' cq :=
  ⟨h.built, fun ref => (h.fits ref).congr fun q _ => hloose q⟩

theorem Queued.same (h : Queued cfg cs cq) (hsame : cq.Same cq') : Queued cfg cs cq' := by
  refine ⟨h.built.same hsame, fun ref => ?_⟩
  unfold CommandQueue.cell
  rw [hsame.cells]
  exact h.fits ref

theorem Queued.init (cfg : DRAMConfig) (cs : List BankState) :
    Queued cfg cs (CommandQueue.init cfg) := by
  refine ⟨CommandQueue.built_init cfg, fun ref => ?_⟩
  rw [CommandQueue.cell_init]
  exact fits_nil cfg cs

/-- The countdowns of the banks keep the banks open. -/
theorem Loose.tick (h : Loose cs p) : Loose (cs.map (BankState.tick cfg)) p := by
  obtain ⟨s, hs, hstate, hlast⟩ := h
  obtain ⟨hstate', hlast'⟩ := @tick_active cfg s hlast
  refine ⟨s.tick cfg, ?_, hstate'.trans hstate, hlast'⟩
  rw [List.getElem?_map, hs]
  rfl

/-! ### What is popped -/

theorem bankAt_singleton {r b : Int} {s : BankState} (h : bankAt [cs] r b = .ok s) :
    r = 0 ∧ listAt cs b = .ok s := by
  obtain ⟨row, hrow, h⟩ := Outcome.bind_eq_ok.mp h
  obtain ⟨hr, hrow⟩ := listAt_eq_ok.mp hrow
  have hlt := (List.getElem?_eq_some_iff.mp hrow).1
  rw [List.length_singleton, Nat.lt_one_iff] at hlt
  have hr' : r = 0 := by omega
  rw [hlt] at hrow
  cases hrow
  exact ⟨hr', h⟩

/-- A command keeps the other banks open. -/
theorem Loose.other {q : BusPacket} (hrank : p.rank = 0) (hrefresh : p.busPacketType ≠ .refresh)
    (hbank : q.bank ≠ p.bank) (h : Loose cs q) :
    Loose (cs.mapIdx fun j s => s.afterCommand cfg t p 0 j) q := by
  obtain ⟨s, hs, hstate, hlast⟩ := h
  obtain ⟨hstate', hlast', -⟩ := @afterCommand_other cfg s t p q.bank hrank hbank hrefresh
  refine ⟨s.afterCommand cfg t p 0 q.bank, ?_, hstate'.trans hstate, hlast'.trans hlast⟩
  rw [List.getElem?_mapIdx, hs]
  rfl

/-- An activate opens its bank. -/
theorem loose_after_activate {s : BankState} {col : BusPacket} (hrank : p.rank = 0)
    (hact : p.busPacketType = .activate) (hs : cs[p.bank]? = some s) (hadmitted : Admitted cs t p)
    (hbank : col.bank = p.bank) :
    Loose (cs.mapIdx fun j s => s.afterCommand cfg t p 0 j) col := by
  have hrefresh : p.busPacketType ≠ .refresh := by
    rw [hact]
    nofun
  obtain ⟨hlast, hstate⟩ := @afterCommand_own cfg s t p cs hrank hs hadmitted hrefresh
  rw [hact, if_neg nofun] at hstate
  rw [hact] at hlast
  refine ⟨s.afterCommand cfg t p 0 p.bank, ?_, hstate, hlast⟩
  rw [hbank, List.getElem?_mapIdx, hs]
  rfl

/-- The test of the command queue, for a bank that is open for its column accesses. -/
theorem admitted_of_allowed (hallowed : Allowed [cs] t p)
    (hopen : ∀ s, cs[p.bank]? = some s → s.currentBankState = .rowActive →
      s.lastCommand ≠ .readP ∧ s.lastCommand ≠ .writeP) :
    p.rank = 0 ∧ p.busPacketType ≠ .refresh ∧ (∃ s, cs[p.bank]? = some s) ∧ Admitted cs t p := by
  obtain ⟨s, hs, hallowed⟩ := hallowed
  obtain ⟨hrank, hs⟩ := bankAt_singleton hs
  have hs := listAt_natCast.mp hs
  have hopen' : s.currentBankState = .rowActive → Open s := fun hactive =>
    ⟨hactive, hopen s hs hactive⟩
  refine ⟨by exact_mod_cast hrank, ?_, ⟨s, hs⟩, ?_⟩
  · intro hrefresh
    rw [hrefresh] at hallowed
    exact hallowed
  · unfold Admitted
    cases htype : p.busPacketType <;> rw [htype] at hallowed <;> dsimp only at hallowed ⊢
    case activate => exact ⟨s, hs, hallowed⟩
    case precharge => exact ⟨s, hs, hopen' hallowed.1, hallowed.2⟩
    all_goals exact ⟨s, hs, hopen' hallowed.1, hallowed.2⟩

/-- The references of two packets of one bank are the same. -/
theorem Queued.ref_eq (h : Queued cfg cs cq) {q : BusPacket} {ref ref' : ℕ} (hp : p ∈ cq.cell ref)
    (hq : q ∈ cq.cell ref') (hbank : q.bank = p.bank) : ref' = ref := by
  obtain ⟨-, -, href⟩ := h.built.getCommandQueue.mp (h.built.placed ref p hp)
  obtain ⟨-, -, href'⟩ := h.built.getCommandQueue.mp (h.built.placed ref' q hq)
  cases hq : cfg.queuingStructure <;> rw [hq] at href href'
  · exact href'.2.trans href.2.symm
  · have := href.2.2
    have := href'.2.2
    omega

/-- The other queues fit after a command, when they have no column access for its bank. -/
theorem Queued.setCell (h : Queued cfg cs cq) {ref : ℕ} {queue : List BusPacket}
    (hsubset : queue ⊆ cq.cell ref) (hown : Fits cfg cs' queue)
    (hother : ∀ ref', ref' ≠ ref → ∀ q ∈ cq.cell ref', Loose cs q → Loose cs' q) :
    Queued cfg cs' (cq.setCell ref queue) := by
  refine ⟨h.built.setCell fun q hq => .inl (hsubset hq), fun ref' => ?_⟩
  by_cases href : ref' = ref
  · subst href
    by_cases hlt : ref' < cq.cells.length
    · rw [CommandQueue.cell_setCell_self hlt]
      exact hown
    · have hnil : (cq.setCell ref' queue).cell ref' = [] := by
        unfold CommandQueue.cell CommandQueue.setCell
        rw [List.set_eq_of_length_le (Nat.not_lt.mp hlt), List.getD_eq_getElem?_getD,
          List.getElem?_eq_none (Nat.not_lt.mp hlt), Option.getD_none]
      rw [hnil]
      exact fits_nil cfg cs'
  · rw [CommandQueue.cell_setCell_ne href]
    exact (h.fits ref').congr (hother ref' href)

/-- With open pages a packet that leaves its queue was tested as the rank will test it. -/
theorem Queued.pops_open (h : Queued cfg cs cq) (hpolicy : cfg.rowBufferPolicy = .openPage)
    (hsane : ∀ s ∈ cs, Sane cfg s) {ref i : ℕ} {queue : List BusPacket}
    (hget : (cq.cell ref)[i]? = some p) (hallowed : Allowed [cs] t p)
    (htakes : Takes cfg (cq.cell ref) i p queue) :
    p.rank = 0 ∧ p.busPacketType ≠ .refresh ∧ (∃ s, cs[p.bank]? = some s) ∧ Admitted cs t p ∧
      (p.busPacketType ≠ .readP ∧ p.busPacketType ≠ .writeP) ∧
      Queued cfg cs' (cq.setCell ref queue) := by
  have hfits : ∀ ref, ∀ q ∈ cq.cell ref, q.busPacketType ≠ .readP ∧ q.busPacketType ≠ .writeP := by
    intro ref
    have hfits := h.fits ref
    unfold Fits at hfits
    rwa [hpolicy] at hfits
  have hfit' : ∀ queue : List BusPacket,
      (∀ q ∈ queue, q.busPacketType ≠ .readP ∧ q.busPacketType ≠ .writeP) →
        Fits cfg cs' queue := by
    intro queue hqueue
    unfold Fits
    rw [hpolicy]
    exact hqueue
  obtain ⟨hrank, hrefresh, hbank, hadmitted⟩ := admitted_of_allowed hallowed fun s hs _ =>
    (hsane s (List.mem_of_getElem? hs)).auto hpolicy
  refine ⟨hrank, hrefresh, hbank, hadmitted, hfits ref p (List.mem_of_getElem? hget), ?_⟩
  have hqueued : Queued cfg cs' cq := ⟨h.built, fun ref => hfit' _ (hfits ref)⟩
  exact hqueued.setCell htakes.subset (hfit' _ fun q hq => hfits ref q (htakes.subset hq))
    fun _ _ _ _ => id

/-- A packet that leaves a queue of pairs is not behind its own activate. -/
theorem Takes.free {queue queue' : List BusPacket} {i : ℕ}
    (hpolicy : cfg.rowBufferPolicy = .closePage) (h : Takes cfg queue i p queue') :
    queue' = queue.eraseIdx i ∧
      ∀ a, 0 < i → queue[i - 1]? = some a → a.busPacketType = .activate →
        ¬(a.physicalAddress = p.physicalAddress ∧ a.bank = p.bank ∧ a.row = p.row) := by
  cases h with
  | head _ hi => exact ⟨rfl, fun a hpos => absurd hi hpos.ne'⟩
  | unpaired _ hprev =>
    exact ⟨rfl, fun a hi ha hact hsame => hprev ⟨a, hi, ha, hact, hsame.1⟩⟩
  | first _ hfirst =>
    exact ⟨rfl, fun a hi ha _ hsame => hfirst (i - 1) a (by omega) ha ⟨hsame.2.2, hsame.2.1⟩⟩
  | single hopen => cases hpolicy.symm.trans hopen
  | both hopen => cases hpolicy.symm.trans hopen

/-- With closed pages a packet that leaves its queue was tested as the rank will test it. -/
theorem Queued.pops_close (h : Queued cfg cs cq) (hpolicy : cfg.rowBufferPolicy = .closePage)
    {ref i : ℕ} {queue : List BusPacket} (hget : (cq.cell ref)[i]? = some p)
    (hallowed : Allowed [cs] t p) (htakes : Takes cfg (cq.cell ref) i p queue) :
    p.rank = 0 ∧ p.busPacketType ≠ .refresh ∧ (∃ s, cs[p.bank]? = some s) ∧ Admitted cs t p ∧
      Queued cfg (cs.mapIdx fun j s => s.afterCommand cfg t p 0 j) (cq.setCell ref queue) := by
  obtain ⟨rfl, hfree⟩ := htakes.free hpolicy
  have hp := List.mem_of_getElem? hget
  -- the other queues have no packet of the bank
  have hother : p.rank = 0 → p.busPacketType ≠ .refresh →
      ∀ ref', ref' ≠ ref → ∀ q ∈ cq.cell ref', Loose cs q →
        Loose (cs.mapIdx fun j s => s.afterCommand cfg t p 0 j) q := by
    intro hrank hrefresh ref' href q hq hloose
    exact hloose.other hrank hrefresh fun hbank => href (h.ref_eq hp hq hbank)
  have hfit : ∀ cs' loose, Paired ((cq.cell ref).eraseIdx i) loose →
      (loose.map BusPacket.bank).Nodup → (∀ q ∈ loose, Loose cs' q) →
        Fits cfg cs' ((cq.cell ref).eraseIdx i) := by
    intro cs' loose hpaired hnodup hloose
    unfold Fits
    rw [hpolicy]
    exact ⟨loose, hpaired, hnodup, hloose⟩
  have hfits := h.fits ref
  unfold Fits at hfits
  rw [hpolicy] at hfits
  obtain ⟨loose, hpaired, hnodup, hopen⟩ := hfits
  have hsubset : (cq.cell ref).eraseIdx i ⊆ cq.cell ref := (List.eraseIdx_sublist _ _).subset
  rcases hpaired.eraseIdx hget hfree with ⟨hact, l₁, l₂, col, rfl, hbank, hpaired'⟩ |
    ⟨hcol, l₁, l₂, rfl, hpaired'⟩
  · -- an activate: no column access of its bank is loose, since the bank is closed
    have hclosed : ∀ s, cs[p.bank]? = some s → s.currentBankState ≠ .rowActive := by
      intro s hs hactive
      obtain ⟨s', hs', hallowed⟩ := hallowed
      cases hs.symm.trans (listAt_natCast.mp (bankAt_singleton hs').2)
      rw [hact] at hallowed
      rcases hallowed.1 with hidle | hrefreshing
      · cases hactive.symm.trans hidle
      · cases hactive.symm.trans hrefreshing
    obtain ⟨hrank, hrefresh, ⟨s, hs⟩, hadmitted⟩ := admitted_of_allowed hallowed
      fun s hs hactive => absurd hactive (hclosed s hs)
    have hbanks : ∀ q ∈ l₁ ++ l₂, q.bank ≠ p.bank := by
      rintro q hq hqbank
      obtain ⟨s', hs', hactive, -⟩ := hopen q hq
      rw [hqbank] at hs'
      exact hclosed s' hs' hactive
    refine ⟨hrank, hrefresh, ⟨s, hs⟩, hadmitted, h.setCell hsubset ?_ (hother hrank hrefresh)⟩
    refine hfit _ _ hpaired' ?_ fun q hq => ?_
    · rw [List.map_append, List.map_cons, List.nodup_middle, List.nodup_cons, ← List.map_append]
      refine ⟨fun hmem => ?_, hnodup⟩
      obtain ⟨q, hq, hqbank⟩ := List.mem_map.mp hmem
      exact hbanks q hq (hqbank.trans hbank)
    · rcases List.mem_append.mp hq with hq | hq
      · exact (hopen q (List.mem_append_left _ hq)).other hrank hrefresh
          (hbanks q (List.mem_append_left _ hq))
      · rcases List.mem_cons.mp hq with rfl | hq
        · exact loose_after_activate hrank hact hs hadmitted hbank
        · exact (hopen q (List.mem_append_right _ hq)).other hrank hrefresh
            (hbanks q (List.mem_append_right _ hq))
  · -- a loose column access: its bank is open since its activate
    obtain ⟨s, hs, hactive, hlast⟩ := hopen p (List.mem_append_right _ List.mem_cons_self)
    have hopened : ∀ s, cs[p.bank]? = some s → s.currentBankState = .rowActive →
        s.lastCommand ≠ .readP ∧ s.lastCommand ≠ .writeP := by
      intro s' hs' _
      cases hs.symm.trans hs'
      rw [hlast]
      exact ⟨nofun, nofun⟩
    obtain ⟨hrank, hrefresh, hbank, hadmitted⟩ := admitted_of_allowed hallowed hopened
    refine ⟨hrank, hrefresh, hbank, hadmitted, h.setCell hsubset ?_ (hother hrank hrefresh)⟩
    rw [List.map_append, List.map_cons, List.nodup_middle, List.nodup_cons, ← List.map_append]
      at hnodup
    refine hfit _ _ hpaired' hnodup.2 fun q hq => ?_
    have hmem : q ∈ l₁ ++ p :: l₂ := by
      rcases List.mem_append.mp hq with hq | hq
      · exact List.mem_append_left _ hq
      · exact List.mem_append_right _ (List.mem_cons_of_mem _ hq)
    refine (hopen q hmem).other hrank hrefresh fun hqbank => hnodup.1 ?_
    exact hqbank ▸ List.mem_map_of_mem hq

/-- What is known of a command that is popped at the time `t`. -/
structure Popped (cfg : DRAMConfig) (cs : List BankState) (t : UInt64) (p : BusPacket)
    (cq : CommandQueue) : Prop where
  rank : p.rank = 0
  bank : ∃ s, cs[p.bank]? = some s
  admitted : Admitted cs t p
  auto : cfg.rowBufferPolicy = .openPage → p.busPacketType ≠ .readP ∧ p.busPacketType ≠ .writeP
  queued : Queued cfg (cs.mapIdx fun j s => s.afterCommand cfg t p 0 j) cq

/-- A refresh is popped when no bank is open. -/
theorem Queued.pops_refresh (h : Queued cfg cs cq) (hlength : cs.length = cfg.numBanks)
    (hpower : ∀ s, cs[0]? = some s → s.currentBankState ≠ .powerDown →
      ∀ s ∈ cs, s.currentBankState ≠ .powerDown)
    (hclosed : ∀ b : ℕ, b < cfg.numBanks → ∃ s, bankAt [cs] cq.refreshRank b = .ok s ∧
      s.currentBankState ≠ .rowActive ∧ s.nextActivate ≤ cq.currentClockCycle)
    (hup : ∃ s, bankAt [cs] cq.refreshRank 0 = .ok s ∧ s.currentBankState ≠ .powerDown) :
    Popped cfg cs cq.currentClockCycle cq.sendRefresh.1 cq.sendRefresh.2 := by
  obtain ⟨s₀, hs₀, hup⟩ := hup
  have hs₀ : cs[0]? = some s₀ := listAt_natCast.mp (bankAt_singleton hs₀).2
  have hbanks : ∀ s ∈ cs, s.currentBankState ≠ .rowActive ∧
      s.nextActivate ≤ cq.currentClockCycle := by
    intro s hs
    obtain ⟨j, hj⟩ := List.getElem?_of_mem hs
    have hlt := (List.getElem?_eq_some_iff.mp hj).1
    obtain ⟨s', hs', hstate⟩ := hclosed j (by omega)
    cases hj.symm.trans (listAt_natCast.mp (bankAt_singleton hs').2)
    exact hstate
  refine ⟨rfl, ⟨s₀, hs₀⟩, fun s hs => ?_, fun _ => ⟨nofun, nofun⟩, ?_⟩
  · exact ⟨(hbanks s hs).1, hpower s₀ hs₀ hup s hs, (hbanks s hs).2⟩
  · -- no column access is loose
    refine Queued.congr ⟨⟨h.built.queues, h.built.rows, h.built.placed⟩, h.fits⟩ ?_
    rintro q ⟨s, hs, hactive, -⟩
    exact absurd hactive (hbanks s (List.mem_of_getElem? hs)).1

/-- **What is popped** was tested as the rank will test it, and the queues fit the table after it. -/
theorem Queued.pops (h : Queued cfg cs cq) (hlength : cs.length = cfg.numBanks)
    (hsane : ∀ s ∈ cs, Sane cfg s)
    (hpower : ∀ s, cs[0]? = some s → s.currentBankState ≠ .powerDown →
      ∀ s ∈ cs, s.currentBankState ≠ .powerDown)
    (hpops : cq.Pops cfg [cs] (some p) cq') : Popped cfg cs cq.currentClockCycle p cq' := by
  cases hpops with
  | refresh _ hclosed hup hsame =>
    obtain ⟨hrank, hbank, hadmitted, hauto, hqueued⟩ := h.pops_refresh hlength hpower hclosed hup
    exact ⟨hrank, hbank, hadmitted, hauto, hqueued.same hsame⟩
  | precharge rank bank hpolicy hbank hsame =>
    obtain ⟨s, hs, hactive, htime⟩ := hbank
    have hs := listAt_natCast.mp (bankAt_singleton hs).2
    have hopen : Open s := ⟨hactive, (hsane s (List.mem_of_getElem? hs)).auto hpolicy⟩
    refine ⟨rfl, ⟨s, hs⟩, ⟨s, hs, hopen, htime⟩, fun _ => ⟨nofun, nofun⟩, ?_⟩
    -- with open pages the table does not matter to the queues
    refine Queued.same ⟨h.built, fun ref => ?_⟩ hsame
    have hfits := h.fits ref
    unfold Fits at hfits ⊢
    rw [hpolicy] at hfits ⊢
    exact hfits
  | queued ref i _ hget hallowed htakes hsame =>
    cases hpolicy : cfg.rowBufferPolicy with
    | openPage =>
      obtain ⟨hrank, -, hbank, hadmitted, hauto, hqueued⟩ :=
        h.pops_open hpolicy hsane hget hallowed htakes
      exact ⟨hrank, hbank, hadmitted, fun _ => hauto, hqueued.same hsame⟩
    | closePage =>
      obtain ⟨hrank, -, hbank, hadmitted, hqueued⟩ := h.pops_close hpolicy hget hallowed htakes
      exact ⟨hrank, hbank, hadmitted, fun hopen => (nomatch hpolicy.symm.trans hopen),
        hqueued.same hsame⟩

/-! ### What enters -/

theorem enqueue_setCell {ref : ℕ} {queue : List BusPacket}
    (h : (cq.setCell ref queue).enqueue cfg p = .ok cq')
    (href : cq.getCommandQueue cfg p.rank p.bank = .ok ref) (hlt : ref < cq.cells.length) :
    cq' = cq.setCell ref (queue ++ [p]) := by
  obtain ⟨ref', href', -, rfl⟩ := CommandQueue.enqueue_eq_ok h
  rw [CommandQueue.getCommandQueue_setCell, href] at href'
  cases href'
  rw [CommandQueue.cell_setCell_self hlt]
  unfold CommandQueue.setCell
  rw [List.set_set]

/-- An activate and its column access enter one queue. -/
theorem Queued.enqueue {cq₁ cq₂ : CommandQueue} {act col : BusPacket} (h : Queued cfg cs cq)
    (hact : act.busPacketType = .activate)
    (hcol : if cfg.rowBufferPolicy = .closePage then Column col
      else col.busPacketType ≠ .readP ∧ col.busPacketType ≠ .writeP)
    (haddress : act.physicalAddress = col.physicalAddress) (hrank : act.rank = col.rank)
    (hbank : act.bank = col.bank) (hrow : act.row = col.row)
    (hfirst : cq.enqueue cfg act = .ok cq₁) (hsecond : cq₁.enqueue cfg col = .ok cq₂) :
    Queued cfg cs cq₂ := by
  obtain ⟨ref, href, -, rfl⟩ := CommandQueue.enqueue_eq_ok hfirst
  have href' : cq.getCommandQueue cfg col.rank col.bank = .ok ref := by
    rw [← hrank, ← hbank]
    exact href
  have hfits := h.fits ref
  by_cases hlt : ref < cq.cells.length
  · have heq := enqueue_setCell hsecond href' hlt
    rw [List.append_assoc, List.cons_append, List.nil_append] at heq
    rw [heq]
    refine ⟨h.built.setCell fun q hq => ?_, fun ref' => ?_⟩
    · rcases List.mem_append.mp hq with hq | hq
      · exact .inl hq
      · rcases List.mem_cons.mp hq with rfl | hq
        · exact .inr href
        · cases List.mem_singleton.mp hq
          exact .inr href'
    by_cases hne : ref' = ref
    · subst hne
      rw [CommandQueue.cell_setCell_self hlt]
      unfold Fits at hfits ⊢
      cases hpolicy : cfg.rowBufferPolicy <;> rw [hpolicy] at hfits hcol
      · intro q hq
        rcases List.mem_append.mp hq with hq | hq
        · exact hfits q hq
        · rcases List.mem_cons.mp hq with rfl | hq
          · rw [hact]
            exact ⟨nofun, nofun⟩
          · cases List.mem_singleton.mp hq
            exact hcol
      · obtain ⟨loose, hpaired, hloose⟩ := hfits
        exact ⟨loose, hpaired.append_pair hact hcol haddress hbank hrow, hloose⟩
    · rw [CommandQueue.cell_setCell_ne hne]
      exact h.fits ref'
  · -- a reference to no queue: nothing enters
    have hout : ∀ cq : CommandQueue, ∀ queue, cq.cells.length ≤ ref → cq.setCell ref queue = cq := by
      intro cq queue hle
      unfold CommandQueue.setCell
      rw [List.set_eq_of_length_le hle]
    rw [hout cq _ (Nat.not_lt.mp hlt)] at hsecond
    obtain ⟨ref', href'', -, rfl⟩ := CommandQueue.enqueue_eq_ok hsecond
    cases href'.symm.trans href''
    rw [hout cq _ (Nat.not_lt.mp hlt)]
    exact h

end PIMSim.DDR
