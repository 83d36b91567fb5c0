import PIMSim.DDR.MemoryController
import PIMSim.DDR.Pop

/-!
# The two bank tables

The controller and the rank keep a table of the states of the banks each. The controller's runs one
cycle ahead, since a command takes one cycle on the bus, and it keeps a bank open for a while after a
column access with automatic precharge. The times of both are 64-bit numbers, and the tables fit as
long as no time wraps around.

## Main definitions

* `BelowWrap cfg n`: no time that is set up to the time `n` wraps around
* `Sync s u`: the bank `u` of the rank allows what the bank `s` of the controller allows, one cycle
  later
* `Sane cfg s`: the countdown of a bank fits its state
* `InSync cs us`: the tables fit in every bank

## Main results

* `InSync.issue`: a command that the table of the controller allows is accepted by the rank one cycle
  later, and the tables fit again
* `InSync.tick`: the implicit changes of state keep the tables in step
-/

namespace PIMSim.DDR

open CSharp

/-- The delays that commands and the power management add to the clock, when there is one rank. -/
def DRAMConfig.delays (cfg : DRAMConfig) : List UInt32 :=
  [cfg.tRC, cfg.tRAS, cfg.tRCD - cfg.al, cfg.tRRD, cfg.tRP, cfg.tRFC, cfg.tCKE, cfg.tXP, cfg.tCCD,
    cfg.bl / 2, cfg.readToPreDelay, cfg.readAutopreDelay, cfg.readToWriteDelay, cfg.writeToPreDelay,
    cfg.writeAutopreDelay, cfg.writeToReadDelayB]

/-- No time that is set up to the time `n` wraps around. -/
def BelowWrap (cfg : DRAMConfig) (n : ℕ) : Prop := ∀ delay ∈ cfg.delays, n + delay.toNat < 2 ^ 64

instance (cfg : DRAMConfig) (n : ℕ) : Decidable (BelowWrap cfg n) :=
  List.decidableBAll (fun delay : UInt32 => n + delay.toNat < 2 ^ 64) cfg.delays

/-- The row of the bank is open and no automatic precharge is under way. -/
def Open (s : BankState) : Prop :=
  s.currentBankState = .rowActive ∧ s.lastCommand ≠ .readP ∧ s.lastCommand ≠ .writeP

/-- The bank `u` of the rank follows the bank `s` of the controller. -/
structure Sync (s u : BankState) : Prop where
  activate : u.nextActivate.toNat ≤ s.nextActivate.toNat + 1
  closed : ¬Open s → s.currentBankState ≠ .powerDown → u.currentBankState = .idle
  down : s.currentBankState = .powerDown → u.currentBankState = .powerDown
  opened : Open s → u.currentBankState = .rowActive ∧ u.openRowAddress = s.openRowAddress ∧
    u.nextRead.toNat ≤ s.nextRead.toNat + 1 ∧ u.nextWrite.toNat ≤ s.nextWrite.toNat + 1 ∧
    u.nextPrecharge.toNat ≤ s.nextPrecharge.toNat + 1

/-- The countdown of a bank of the controller fits its state. -/
structure Sane (cfg : DRAMConfig) (s : BankState) : Prop where
  still : s.currentBankState = .idle ∨ s.currentBankState = .powerDown → s.stateChangeCountdown ≤ 0
  active : s.currentBankState = .rowActive → s.lastCommand ≠ .refresh ∧ s.lastCommand ≠ .precharge
  auto : cfg.rowBufferPolicy = .openPage → s.lastCommand ≠ .readP ∧ s.lastCommand ≠ .writeP

variable {cfg : DRAMConfig} {s u : BankState} {t : UInt64} {p : BusPacket}

theorem Open.not_down (h : Open s) : s.currentBankState ≠ .powerDown := by
  rw [h.1]
  nofun

/-- A closed bank of the controller is an idle one of the rank. -/
theorem sync_of_closed (hactivate : u.nextActivate.toNat ≤ s.nextActivate.toNat + 1)
    (hopen : ¬Open s) (hdown : s.currentBankState ≠ .powerDown) (hidle : u.currentBankState = .idle) :
    Sync s u :=
  ⟨hactivate, fun _ _ => hidle, fun h => absurd h hdown, fun h => absurd h hopen⟩

/-! ### The countdown -/

theorem tick_cases (cfg : DRAMConfig) (s : BankState) :
    (∃ n, s.tick cfg = { s with stateChangeCountdown := n } ∧
      (s.stateChangeCountdown ≤ 0 → n ≤ 0)) ∨
    (0 < s.stateChangeCountdown ∧
      s.tick cfg = { s with stateChangeCountdown := 0 }.changeState cfg) := by
  unfold BankState.tick
  split_ifs with hpos
  · dsimp only
    split_ifs with hzero
    · exact .inr ⟨hpos, by rw [hzero]⟩
    · exact .inl ⟨_, rfl, fun h => absurd hpos (Int.not_lt.mpr h)⟩
  · exact .inl ⟨s.stateChangeCountdown, rfl, id⟩

/-- The implicit state change closes a bank that is closed for the rank already. -/
theorem changeState_cases (cfg : DRAMConfig) (s : BankState) :
    (s.changeState cfg = s ∧ s.lastCommand ≠ .readP ∧ s.lastCommand ≠ .writeP ∧
      s.lastCommand ≠ .refresh ∧ s.lastCommand ≠ .precharge) ∨
    ((s.lastCommand = .readP ∨ s.lastCommand = .writeP) ∧ s.changeState cfg = { s with
      currentBankState := .precharging
      lastCommand := .precharge
      stateChangeCountdown := toInt cfg.tRP.toNat }) ∨
    ((s.lastCommand = .refresh ∨ s.lastCommand = .precharge) ∧
      s.changeState cfg = { s with currentBankState := .idle }) := by
  unfold BankState.changeState
  cases hcommand : s.lastCommand <;> simp

theorem Sane.tick (h : Sane cfg s) : Sane cfg (s.tick cfg) := by
  obtain ⟨n, hn, hle⟩ | ⟨hpos, hs⟩ := tick_cases cfg s
  · rw [hn]
    exact ⟨fun hstate => hle (h.still hstate), h.active, h.auto⟩
  · rw [hs]
    obtain ⟨heq, -⟩ | ⟨-, heq⟩ | ⟨hlast, heq⟩ :=
      changeState_cases cfg { s with stateChangeCountdown := 0 } <;> rw [heq]
    · exact ⟨fun _ => le_rfl, h.active, h.auto⟩
    · exact ⟨fun hstate => hstate.elim nofun nofun, nofun, fun _ => ⟨nofun, nofun⟩⟩
    · exact ⟨fun _ => le_rfl, nofun, h.auto⟩

theorem Sync.tick (hsane : Sane cfg s) (h : Sync s u) : Sync (s.tick cfg) u := by
  obtain ⟨n, hn, -⟩ | ⟨hpos, hs⟩ := tick_cases cfg s
  · rw [hn]
    exact ⟨h.activate, h.closed, h.down, h.opened⟩
  rw [hs]
  -- a countdown is under way, so the bank is not powered down
  have hdown : s.currentBankState ≠ .powerDown := fun hdown => by
    have := hsane.still (.inr hdown)
    omega
  obtain ⟨heq, -⟩ | ⟨hlast, heq⟩ | ⟨hlast, heq⟩ :=
    changeState_cases cfg { s with stateChangeCountdown := 0 } <;> rw [heq]
  · exact ⟨h.activate, h.closed, h.down, h.opened⟩
  · have hopen : ¬Open s := by
      rintro ⟨-, hread, hwrite⟩
      rcases hlast with hlast | hlast
      · exact hread hlast
      · exact hwrite hlast
    exact sync_of_closed h.activate (fun hopen => by cases hopen.1) nofun (h.closed hopen hdown)
  · have hopen : ¬Open s := by
      rintro ⟨hactive, -⟩
      have := hsane.active hactive
      rcases hlast with hlast | hlast
      · exact this.1 hlast
      · exact this.2 hlast
    exact sync_of_closed h.activate (fun hopen => by cases hopen.1) nofun (h.closed hopen hdown)

theorem tick_active (hlast : s.lastCommand = .activate) :
    (s.tick cfg).currentBankState = s.currentBankState ∧ (s.tick cfg).lastCommand = .activate := by
  obtain ⟨n, hn, -⟩ | ⟨-, hs⟩ := tick_cases cfg s
  · rw [hn]
    exact ⟨rfl, hlast⟩
  · rw [hs]
    obtain ⟨heq, -⟩ | ⟨hlast', -⟩ | ⟨hlast', -⟩ :=
      changeState_cases cfg { s with stateChangeCountdown := 0 }
    · rw [heq]
      exact ⟨rfl, hlast⟩
    · rcases hlast' with h | h <;> cases hlast.symm.trans h
    · rcases hlast' with h | h <;> cases hlast.symm.trans h

/-! ### Commands -/

theorem toNat_max (a b : UInt32) : (max a b).toNat = max a.toNat b.toNat := by
  change (if a ≤ b then b else a).toNat = _
  split_ifs with h
  · exact (max_eq_right (UInt32.le_iff_toNat_le.mp h)).symm
  · have := mt UInt32.le_iff_toNat_le.mpr h
    exact (max_eq_left (by omega)).symm

theorem time_max (a b : UInt64) : (max a b).toNat = max a.toNat b.toNat := by
  change (if a ≤ b then b else a).toNat = _
  split_ifs with h
  · exact (max_eq_right (UInt64.le_iff_toNat_le.mp h)).symm
  · have := mt UInt64.le_iff_toNat_le.mpr h
    exact (max_eq_left (by omega)).symm

theorem max_comm32 (a b : UInt32) : max a b = max b a :=
  UInt32.toNat_inj.mp (by rw [toNat_max, toNat_max, max_comm])

theorem BelowWrap.now {n : ℕ} (h : BelowWrap cfg n) : n < 2 ^ 64 := by
  have := h cfg.tRC (by simp [DRAMConfig.delays])
  omega

theorem BelowWrap.mono {m n : ℕ} (h : BelowWrap cfg n) (hmn : m ≤ n) : BelowWrap cfg m :=
  fun delay hdelay => lt_of_le_of_lt (Nat.add_le_add_right hmn _) (h delay hdelay)

/-- The delay between two column accesses. -/
theorem BelowWrap.column {n : ℕ} (h : BelowWrap cfg n) :
    n + (max cfg.tCCD (cfg.bl / 2)).toNat < 2 ^ 64 := by
  have htCCD := h cfg.tCCD (by simp [DRAMConfig.delays])
  have hbl := h (cfg.bl / 2) (by simp [DRAMConfig.delays])
  rw [toNat_max]
  omega

/-- A delay after a time that fits. -/
theorem later_toNat {delay : UInt32} (h : t.toNat + delay.toNat < 2 ^ 64) :
    (t + delay.toUInt64).toNat = t.toNat + delay.toNat := by
  rw [UInt64.toNat_add, UInt32.toNat_toUInt64, Nat.mod_eq_of_lt h]

/-- The clock of the rank, when the command arrives. -/
theorem next_toNat (h : t.toNat + 1 < 2 ^ 64) : (t + 1).toNat = t.toNat + 1 := by
  rw [UInt64.toNat_add, UInt64.toNat_one, Nat.mod_eq_of_lt h]

/-- A time that the rank sets one cycle after the controller. -/
theorem set_later {delay : UInt32} (hwrap : t.toNat + 1 + delay.toNat < 2 ^ 64) :
    (t + 1 + delay.toUInt64).toNat = (t + delay.toUInt64).toNat + 1 := by
  have hnext : (t + 1).toNat = t.toNat + 1 := next_toNat (by omega)
  rw [later_toNat (by omega), later_toNat (by omega), hnext]
  omega

/-- A time that the rank sets and the controller puts off. -/
theorem set_put {delay : UInt32} (hwrap : t.toNat + 1 + delay.toNat < 2 ^ 64) (b : UInt64) :
    (t + 1 + delay.toUInt64).toNat ≤ (max (t + delay.toUInt64) b).toNat + 1 := by
  rw [time_max, set_later hwrap]
  omega

/-- A time that rank and controller put off, the rank one cycle after the controller. -/
theorem put_off {a b : UInt64} {delay : UInt32} (hwrap : t.toNat + 1 + delay.toNat < 2 ^ 64)
    (h : a.toNat ≤ b.toNat + 1) :
    (max a (t + 1 + delay.toUInt64)).toNat ≤ (max (t + delay.toUInt64) b).toNat + 1 := by
  rw [time_max, time_max, set_later hwrap]
  omega

/-- The times after a column access, one cycle later in the rank. -/
theorem Sync.afterColumn {a b : UInt32} (ha : t.toNat + 1 + a.toNat < 2 ^ 64)
    (hb : t.toNat + 1 + b.toNat < 2 ^ 64) (h : Sync s u) :
    Sync (s.afterColumn t a.toUInt64 b.toUInt64) (Rank.afterColumn (t + 1) a b u) := by
  refine ⟨h.activate, h.closed, h.down, fun hopen => ?_⟩
  obtain ⟨hstate, hrow, hread, hwrite, hpre⟩ := h.opened hopen
  exact ⟨hstate, hrow, put_off ha hread, put_off hb hwrite, hpre⟩

/-- An access of an open row keeps it open. -/
theorem Sync.accessAt {a b : UInt32} {last : BusPacketType} {toPre : UInt32}
    (ha : t.toNat + 1 + a.toNat < 2 ^ 64) (hb : t.toNat + 1 + b.toNat < 2 ^ 64)
    (hpre : t.toNat + 1 + toPre.toNat < 2 ^ 64) (hread : last ≠ .readP) (hwrite : last ≠ .writeP)
    (hopen : Open s) (h : Sync s u) :
    Sync ((s.accessAt t last toPre).afterColumn t a.toUInt64 b.toUInt64)
      (Rank.afterColumn (t + 1) a b
        { u with nextPrecharge := max u.nextPrecharge (t + 1 + toPre.toUInt64) }) := by
  obtain ⟨hstate, hrow, hnextRead, hnextWrite, hnextPre⟩ := h.opened hopen
  refine Sync.afterColumn ha hb ⟨h.activate, fun hclosed => ?_, fun hdown => ?_, fun _ => ?_⟩
  · exact absurd ⟨hopen.1, hread, hwrite⟩ hclosed
  · cases hopen.1.symm.trans hdown
  · exact ⟨hstate, hrow, hnextRead, hnextWrite, put_off hpre hnextPre⟩

/-- An access with automatic precharge closes the bank of the rank. -/
theorem Sync.closeAt {a b : UInt64} {a' b' : UInt32} {last : BusPacketType}
    {autopre toPre : UInt32} (hautopre : t.toNat + 1 + autopre.toNat < 2 ^ 64)
    (hlast : last = .readP ∨ last = .writeP) (hactive : s.currentBankState = .rowActive)
    (h : Sync s u) :
    Sync (((s.closeAt t last autopre toPre).afterColumn t a b).holdAt)
      (Rank.afterColumn (t + 1) a' b' (Rank.autoPrecharge (t + 1) autopre u)) := by
  have hopen : ¬Open (((s.closeAt t last autopre toPre).afterColumn t a b).holdAt) := by
    rintro ⟨-, hread, hwrite⟩
    rcases hlast with hlast | hlast
    · exact hread hlast
    · exact hwrite hlast
  refine sync_of_closed (put_off hautopre h.activate) hopen ?_ rfl
  change s.currentBankState ≠ .powerDown
  rw [hactive]
  nofun

/-- What the controller has tested before a command goes on the bus. -/
def Admitted (cs : List BankState) (t : UInt64) (p : BusPacket) : Prop :=
  match p.busPacketType with
  | .read => ∃ s, cs[p.bank]? = some s ∧ Open s ∧ s.nextRead ≤ t ∧ (p.row : Int) = s.openRowAddress
  | .readP => ∃ s, cs[p.bank]? = some s ∧ Open s ∧ s.nextRead ≤ t ∧ (p.row : Int) = s.openRowAddress
  | .write => ∃ s, cs[p.bank]? = some s ∧ Open s ∧ s.nextWrite ≤ t ∧
      (p.row : Int) = s.openRowAddress
  | .writeP => ∃ s, cs[p.bank]? = some s ∧ Open s ∧ s.nextWrite ≤ t ∧
      (p.row : Int) = s.openRowAddress
  | .activate => ∃ s, cs[p.bank]? = some s ∧
      (s.currentBankState = .idle ∨ s.currentBankState = .refreshing) ∧ s.nextActivate ≤ t
  | .precharge => ∃ s, cs[p.bank]? = some s ∧ Open s ∧ s.nextPrecharge ≤ t
  | .refresh => ∀ s ∈ cs, s.currentBankState ≠ .rowActive ∧ s.currentBankState ≠ .powerDown ∧
      s.nextActivate ≤ t
  | .data => False

/-- The tables of the controller and the rank fit in every bank. -/
def InSync (cs us : List BankState) : Prop :=
  us.length = cs.length ∧
    ∀ (j : ℕ) (s u : BankState), cs[j]? = some s → us[j]? = some u → Sync s u

variable {cs us : List BankState}

theorem InSync.mapIdx {f g : ℕ → BankState → BankState} (h : InSync cs us)
    (hstep : ∀ j s u, cs[j]? = some s → Sync s u → Sync (f j s) (g j u)) :
    InSync (cs.mapIdx f) (us.mapIdx g) := by
  refine ⟨by rw [List.length_mapIdx, List.length_mapIdx, h.1], fun j s u hs hu => ?_⟩
  rw [List.getElem?_mapIdx] at hs hu
  obtain ⟨s₀, hs₀, rfl⟩ := Option.map_eq_some_iff.mp hs
  obtain ⟨u₀, hu₀, rfl⟩ := Option.map_eq_some_iff.mp hu
  exact hstep j s₀ u₀ hs₀ (h.2 j s₀ u₀ hs₀ hu₀)

theorem InSync.tick (hsane : ∀ s ∈ cs, Sane cfg s) (h : InSync cs us) :
    InSync (cs.map (BankState.tick cfg)) us := by
  refine ⟨by rw [List.length_map, h.1], fun j s u hs hu => ?_⟩
  rw [List.getElem?_map] at hs
  obtain ⟨s₀, hs₀, rfl⟩ := Option.map_eq_some_iff.mp hs
  exact (h.2 j s₀ u hs₀ hu).tick (hsane s₀ (List.mem_of_getElem? hs₀))

/-- The bank of the rank that a command goes to. -/
theorem InSync.bank (h : InSync cs us) {j : ℕ} (hs : cs[j]? = some s) :
    ∃ u, us[j]? = some u ∧ Sync s u := by
  have hlt := (List.getElem?_eq_some_iff.mp hs).1
  rw [← h.1] at hlt
  exact ⟨us[j], List.getElem?_eq_getElem hlt, h.2 j s _ hs (List.getElem?_eq_getElem hlt)⟩

/-- A time that has come for the controller has come for the rank one cycle later. -/
theorem le_next {a b : UInt64} (hnext : t.toNat + 1 < 2 ^ 64) (hab : a.toNat ≤ b.toNat + 1)
    (hb : b ≤ t) : a ≤ t + 1 := by
  have hb := UInt64.le_iff_toNat_le.mp hb
  rw [UInt64.le_iff_toNat_le, next_toNat hnext]
  omega

/-- **The test of the rank** accepts one cycle later what the controller has tested. -/
theorem InSync.allows (h : InSync cs us) (hnow : t.toNat + 1 < 2 ^ 64) (hadmitted : Admitted cs t p) :
    Rank.allows (t + 1) p us = .ok true := by
  -- The four column accesses differ in the time they ask only.
  have hcolumn : ∀ (next : BankState → UInt64),
      (∃ s, cs[p.bank]? = some s ∧ Open s ∧ next s ≤ t ∧ (p.row : Int) = s.openRowAddress) →
      (∀ s u, Open s → Sync s u → (next u).toNat ≤ (next s).toNat + 1) →
      (do
        let s ← listAt us p.bank
        return Rank.columnAllowed (t + 1) p (next s) s : Outcome Bool) = .ok true := by
    rintro next ⟨s, hs, hopen, htime, hrow⟩ hnext
    obtain ⟨u, hu, hsync⟩ := h.bank hs
    have hopened := hsync.opened hopen
    have hle := le_next hnow (hnext s u hopen hsync) htime
    refine Outcome.bind_eq_ok.mpr ⟨u, listAt_natCast.mpr hu, ?_⟩
    refine congrArg Except.ok (decide_eq_true ⟨hopened.1, hle, ?_⟩)
    rw [hopened.2.1]
    exact hrow
  unfold Rank.allows
  unfold Admitted at hadmitted
  cases htype : p.busPacketType <;> rw [htype] at hadmitted <;> dsimp only at hadmitted ⊢
  case read => exact hcolumn _ hadmitted fun s u ho hsync => (hsync.opened ho).2.2.1
  case readP => exact hcolumn _ hadmitted fun s u ho hsync => (hsync.opened ho).2.2.1
  case write => exact hcolumn _ hadmitted fun s u ho hsync => (hsync.opened ho).2.2.2.1
  case writeP => exact hcolumn _ hadmitted fun s u ho hsync => (hsync.opened ho).2.2.2.1
  case activate =>
    obtain ⟨s, hs, hstate, htime⟩ := hadmitted
    obtain ⟨u, hu, hsync⟩ := h.bank hs
    have hclosed : ¬Open s := fun hopen => by rcases hstate with h | h <;> cases hopen.1.symm.trans h
    have hdown : s.currentBankState ≠ .powerDown := by rcases hstate with h | h <;> rw [h] <;> nofun
    have hactivate := le_next hnow hsync.activate htime
    refine Outcome.bind_eq_ok.mpr ⟨u, listAt_natCast.mpr hu, ?_⟩
    exact congrArg Except.ok (decide_eq_true ⟨hsync.closed hclosed hdown, hactivate⟩)
  case precharge =>
    obtain ⟨s, hs, hopen, htime⟩ := hadmitted
    obtain ⟨u, hu, hsync⟩ := h.bank hs
    have hopened := hsync.opened hopen
    have hprecharge := le_next hnow hopened.2.2.2.2 htime
    refine Outcome.bind_eq_ok.mpr ⟨u, listAt_natCast.mpr hu, ?_⟩
    exact congrArg Except.ok (decide_eq_true ⟨hopened.1, hprecharge⟩)
  case refresh =>
    refine congrArg Except.ok (List.all_eq_true.mpr fun u hu => decide_eq_true ?_)
    obtain ⟨j, hj⟩ := List.getElem?_of_mem hu
    have hlt := (List.getElem?_eq_some_iff.mp hj).1
    rw [h.1] at hlt
    obtain ⟨hactive, hdown, -⟩ := hadmitted cs[j] (List.getElem_mem hlt)
    exact (h.2 j cs[j] u (List.getElem?_eq_getElem hlt) hj).closed (fun ho => hactive ho.1) hdown

/-! ### The tables after a command -/

/-- The other banks of the rank keep their state. -/
theorem afterCommand_other {j : ℕ} (hrank : p.rank = 0) (hj : j ≠ p.bank)
    (hrefresh : p.busPacketType ≠ .refresh) :
    (s.afterCommand cfg t p 0 j).currentBankState = s.currentBankState ∧
      (s.afterCommand cfg t p 0 j).lastCommand = s.lastCommand ∧
      (s.afterCommand cfg t p 0 j).stateChangeCountdown = s.stateChangeCountdown := by
  have hrank' : ¬(0 ≠ p.rank) := fun h => h hrank.symm
  cases htype : p.busPacketType
  case refresh => exact absurd htype hrefresh
  case precharge =>
    have hown : ¬(0 = p.rank ∧ j = p.bank) := fun h => hj h.2
    simp only [BankState.afterCommand, htype, if_neg hown, and_self]
  case activate =>
    simp only [BankState.afterCommand, htype, if_neg hrank', if_pos hj, and_self]
  case data => simp only [BankState.afterCommand, htype, and_self]
  all_goals
    simp only [BankState.afterCommand, BankState.afterRead, BankState.afterWrite, htype,
      if_neg hrank', if_pos hj]
    exact ⟨rfl, rfl, rfl⟩

/-- The other banks stay in step. -/
theorem Sync.other {j : ℕ} (hwrap : BelowWrap cfg (t.toNat + 1)) (hrank : p.rank = 0)
    (hj : j ≠ p.bank) (hrefresh : p.busPacketType ≠ .refresh) (h : Sync s u) :
    Sync (s.afterCommand cfg t p 0 j) (Rank.bankAfter cfg (t + 1) p j u) := by
  have hrank' : ¬(0 ≠ p.rank) := fun h => h hrank.symm
  cases htype : p.busPacketType
  case refresh => exact absurd htype hrefresh
  case data =>
    simp only [BankState.afterCommand, Rank.bankAfter, htype]
    exact h
  case precharge =>
    have hown : ¬(0 = p.rank ∧ j = p.bank) := fun h => hj h.2
    simp only [BankState.afterCommand, Rank.bankAfter, htype, if_neg hown, if_neg hj]
    exact h
  case activate =>
    simp only [BankState.afterCommand, Rank.bankAfter, htype, if_neg hrank', if_pos hj, if_neg hj]
    exact ⟨put_off (hwrap _ (by simp [DRAMConfig.delays])) h.activate, h.closed, h.down, h.opened⟩
  all_goals
    simp only [BankState.afterCommand, BankState.afterRead, BankState.afterWrite, Rank.bankAfter,
      htype, if_neg hrank', if_pos hj, if_neg hj, max_comm32 (cfg.bl / 2)]
    refine Sync.afterColumn ?_ ?_ h <;> first
      | exact hwrap.column
      | exact hwrap _ (by simp [DRAMConfig.delays])

/-- The bank of the command stays in step. -/
theorem Sync.own (hwrap : BelowWrap cfg (t.toNat + 1)) (hrank : p.rank = 0)
    (hs : cs[p.bank]? = some s) (hadmitted : Admitted cs t p)
    (hrefresh : p.busPacketType ≠ .refresh) (h : Sync s u) :
    Sync (s.afterCommand cfg t p 0 p.bank) (Rank.bankAfter cfg (t + 1) p p.bank u) := by
  have hrank' : ¬(0 ≠ p.rank) := fun h => h hrank.symm
  have hbank : ¬(p.bank ≠ p.bank) := fun h => h rfl
  unfold Admitted at hadmitted
  cases htype : p.busPacketType <;> rw [htype] at hadmitted <;> dsimp only at hadmitted
  case refresh => exact absurd htype hrefresh
  -- The rank takes the command one cycle later and adds the same delay, so that its times are later
  -- by one.
  case read =>
    obtain ⟨s', hs', hopen, -⟩ := hadmitted
    cases hs.symm.trans hs'
    simp only [BankState.afterCommand, BankState.afterRead, Rank.bankAfter, htype, if_neg hrank',
      if_neg hbank, if_true]
    rw [if_neg nofun]
    exact Sync.accessAt hwrap.column (hwrap _ (by simp [DRAMConfig.delays]))
      (hwrap _ (by simp [DRAMConfig.delays])) nofun nofun hopen h
  case write =>
    obtain ⟨s', hs', hopen, -⟩ := hadmitted
    cases hs.symm.trans hs'
    simp only [BankState.afterCommand, BankState.afterWrite, Rank.bankAfter, htype, if_neg hrank',
      if_neg hbank, if_true, max_comm32 (cfg.bl / 2)]
    rw [if_neg nofun]
    exact Sync.accessAt (hwrap _ (by simp [DRAMConfig.delays])) hwrap.column
      (hwrap _ (by simp [DRAMConfig.delays])) nofun nofun hopen h
  case readP =>
    obtain ⟨s', hs', hopen, -⟩ := hadmitted
    cases hs.symm.trans hs'
    simp only [BankState.afterCommand, BankState.afterRead, Rank.bankAfter, htype, if_neg hrank',
      if_neg hbank, if_true]
    exact Sync.closeAt (hwrap _ (by simp [DRAMConfig.delays])) (.inl rfl) hopen.1 h
  case writeP =>
    obtain ⟨s', hs', hopen, -⟩ := hadmitted
    cases hs.symm.trans hs'
    simp only [BankState.afterCommand, BankState.afterWrite, Rank.bankAfter, htype, if_neg hrank',
      if_neg hbank, if_true]
    exact Sync.closeAt (hwrap _ (by simp [DRAMConfig.delays])) (.inr rfl) hopen.1 h
  case activate =>
    simp only [BankState.afterCommand, Rank.bankAfter, htype, if_neg hrank', if_neg hbank, if_true]
    refine ⟨set_put (hwrap _ (by simp [DRAMConfig.delays])) _,
      fun hclosed => absurd ⟨rfl, nofun, nofun⟩ hclosed, nofun, fun _ => ⟨rfl, rfl, ?_, ?_, ?_⟩⟩
    all_goals exact set_put (hwrap _ (by simp [DRAMConfig.delays])) _
  -- The rank is idle at once while the controller counts the precharge down: closed in both tables.
  case precharge =>
    simp only [BankState.afterCommand, Rank.bankAfter, htype, hrank, true_and, if_true]
    exact sync_of_closed (put_off (hwrap _ (by simp [DRAMConfig.delays])) h.activate)
      (fun hopen => by cases hopen.1) nofun rfl

/-- **The lockstep of a command**: what the controller has tested is accepted by the rank one cycle
later, and the tables fit again. -/
theorem InSync.issue (h : InSync cs us) (hwrap : BelowWrap cfg (t.toNat + 1)) (hrank : p.rank = 0)
    (hadmitted : Admitted cs t p) :
    ∃ us', Rank.receiveBanks cfg (t + 1) p us = .ok us' ∧
      InSync (cs.mapIdx fun j s => s.afterCommand cfg t p 0 j) us' := by
  refine ⟨us.mapIdx (Rank.bankAfter cfg (t + 1) p), ?_, h.mapIdx fun j s u hs hsync => ?_⟩
  · unfold Rank.receiveBanks
    rw [h.allows hwrap.now hadmitted]
    rfl
  by_cases hrefresh : p.busPacketType = .refresh
  · unfold Admitted at hadmitted
    rw [hrefresh] at hadmitted
    obtain ⟨hactive, hdown, -⟩ := hadmitted s (List.mem_of_getElem? hs)
    have hidle := hsync.closed (fun ho => hactive ho.1) hdown
    simp only [BankState.afterCommand, Rank.bankAfter, hrefresh, hrank, if_true]
    exact sync_of_closed (set_later (hwrap _ (by simp [DRAMConfig.delays]))).le
      (fun hopen => by cases hopen.1) nofun hidle
  by_cases hj : j = p.bank
  · subst hj
    exact hsync.own hwrap hrank hs hadmitted hrefresh
  · exact hsync.other hwrap hrank hj hrefresh

/-- The bank that was accessed or changed by a command is neither idle nor powered down, and its
countdown is about the command. -/
theorem afterCommand_own (hrank : p.rank = 0) (hs : cs[p.bank]? = some s)
    (hadmitted : Admitted cs t p) (hrefresh : p.busPacketType ≠ .refresh) :
    (s.afterCommand cfg t p 0 p.bank).lastCommand = p.busPacketType ∧
      (s.afterCommand cfg t p 0 p.bank).currentBankState =
        if p.busPacketType = .precharge then .precharging else .rowActive := by
  have hrank' : ¬(0 ≠ p.rank) := fun h => h hrank.symm
  have hbank : ¬(p.bank ≠ p.bank) := fun h => h rfl
  unfold Admitted at hadmitted
  cases htype : p.busPacketType <;> rw [htype] at hadmitted <;> dsimp only at hadmitted
  case refresh => exact absurd htype hrefresh
  case precharge =>
    simp only [BankState.afterCommand, htype, hrank, if_true, and_self]
  case activate =>
    simp only [BankState.afterCommand, htype, if_neg hrank', if_neg hbank]
    exact ⟨trivial, rfl⟩
  all_goals
    obtain ⟨s', hs', hopen, -⟩ := hadmitted
    cases hs.symm.trans hs'
    simp only [BankState.afterCommand, BankState.afterRead, BankState.afterWrite, htype,
      if_neg hrank', if_neg hbank]
    exact ⟨rfl, hopen.1⟩

theorem Sane.afterCommand {j : ℕ} (hrank : p.rank = 0) (hs : cs[j]? = some s)
    (hadmitted : Admitted cs t p)
    (hauto : cfg.rowBufferPolicy = .openPage → p.busPacketType ≠ .readP ∧ p.busPacketType ≠ .writeP)
    (h : Sane cfg s) : Sane cfg (s.afterCommand cfg t p 0 j) := by
  by_cases hrefresh : p.busPacketType = .refresh
  · simp only [BankState.afterCommand, hrefresh, hrank, if_true]
    exact ⟨fun hstate => hstate.elim nofun nofun, nofun, fun _ => ⟨nofun, nofun⟩⟩
  by_cases hj : j = p.bank
  · subst hj
    obtain ⟨hlast, hstate⟩ := @afterCommand_own cfg s t p cs hrank hs hadmitted hrefresh
    refine ⟨fun hstill => ?_, fun hactive => ?_, fun hopen => ?_⟩
    · rw [hstate] at hstill
      split_ifs at hstill <;> exact hstill.elim nofun nofun
    · rw [hlast]
      refine ⟨hrefresh, fun hpre => ?_⟩
      rw [hstate, if_pos hpre] at hactive
      cases hactive
    · rw [hlast]
      exact hauto hopen
  · obtain ⟨hstate, hlast, hcount⟩ := @afterCommand_other cfg s t p j hrank hj hrefresh
    refine ⟨fun hstill => ?_, fun hactive => ?_, fun hopen => ?_⟩
    · rw [hcount]
      exact h.still (hstate ▸ hstill)
    · rw [hlast]
      exact h.active (hstate ▸ hactive)
    · rw [hlast]
      exact h.auto hopen

end PIMSim.DDR
