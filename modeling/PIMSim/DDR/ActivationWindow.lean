import PIMSim.DDR.Independence
import PIMSim.Library.Postcondition
import PIMSim.Library.SlidingWindow

/-!
# The four-bank activation window

`pop` keeps a list of countdowns for every rank and lets no activate pass while the list has four.
The queue is driven by any calls, with any bank states; each call of `pop` is a cycle.

## Main definitions

* `QueueCall`, `QueueRun.call`: a call of the command queue, and what it does
* `Guarded`: what an activate found by a search of `pop` was checked for
* `Counts`: the countdowns of a rank are those of its activates

## Main results

* `CommandQueue.choose_guarded`: every way `pop` finds an activate checks the window
* `activates_bounded`: no window of `tFAW` cycles has more than four activates of one rank
-/

namespace PIMSim.DDR

open CSharp Transition SlidingWindow

/-- A call of the command queue. -/
inductive QueueCall
  | enqueue (p : BusPacket)
  | needRefresh (rank : ℕ)
  | pop (bankStates : List (List BankState))

/-- The queue, and what `pop` has found in each cycle, the latest first. -/
structure QueueRun where
  queue : CommandQueue
  issued : List (Option BusPacket) := []

namespace QueueRun

variable (cfg : DRAMConfig)

/-- A cycle is a call of `pop` and the step of the clock. -/
def call (s : QueueRun) : QueueCall → Outcome QueueRun
  | .enqueue p => do
    let cq ← s.queue.enqueue cfg p
    return { s with queue := cq }
  | .needRefresh rank => return { s with queue := s.queue.needRefresh rank }
  | .pop bankStates => do
    let (found, cq) ← s.queue.pop cfg bankStates
    return { queue := { cq with currentClockCycle := cq.currentClockCycle + 1 },
             issued := found :: s.issued }

/-- The queue as it is constructed. -/
def start : QueueRun where
  queue := CommandQueue.init cfg

end QueueRun

/-- An activate for the rank was found. -/
def activates (rank : ℕ) (found : Option BusPacket) : Bool :=
  found.any fun p => decide (p.busPacketType = .activate ∧ p.rank = rank)

namespace CommandQueue

variable {cfg : DRAMConfig} {bankStates : List (List BankState)} {cq cq' : CommandQueue}

/-! ### Every activate is checked -/

/-- Faults are of no concern here. -/
abbrev never : Fault → Prop := fun _ => False

theorem harmless_never {α : Type} (x : Outcome α) : Harmless never x :=
  ⟨fun _ _ => trivial, fun _ _ h => h⟩

/-- The windows are as before, and an activate that was found has a window with room. -/
def Guarded (windows : List (List UInt32)) (r : Option BusPacket × CommandQueue) : Prop :=
  r.2.tFAWCountdown = windows ∧ ∀ p, r.1 = some p → p.busPacketType = .activate →
    ∃ window, listAt windows p.rank = .ok window ∧ window.length < 4

theorem guarded_none (h : cq.tFAWCountdown = cq'.tFAWCountdown) :
    Guarded cq'.tFAWCountdown (none, cq) := by
  refine ⟨h, fun p hp => ?_⟩
  cases hp

theorem guarded_of_ne {p : BusPacket} (h : cq.tFAWCountdown = cq'.tFAWCountdown)
    (hp : p.busPacketType ≠ .activate) : Guarded cq'.tFAWCountdown (some p, cq) := by
  refine ⟨h, fun q hq hact => ?_⟩
  cases hq
  exact absurd hact hp

theorem guarded_of_issuable {p : BusPacket} (h : cq.tFAWCountdown = cq'.tFAWCountdown)
    (hissue : cq'.isIssuable cfg bankStates p = .ok true) :
    Guarded cq'.tFAWCountdown (some p, cq) := by
  refine ⟨h, fun q hq hact => ?_⟩
  cases hq
  unfold isIssuable at hissue
  rw [hact] at hissue
  obtain ⟨s, -, hissue⟩ := Outcome.bind_eq_ok.mp hissue
  split_ifs at hissue with hstate
  · obtain ⟨window, hwindow, hissue⟩ := Outcome.bind_eq_ok.mp hissue
    exact ⟨window, hwindow, of_decide_eq_true (Except.ok.inj hissue)⟩
  · cases hissue

/-- The result of a loop over the banks, without the flag. -/
def GuardedScan (windows : List (List UInt32)) (r : Option BusPacket × Bool × CommandQueue) :
    Prop :=
  Guarded windows (r.1, r.2.2)

theorem issueFirst_guarded (packet : BusPacket) (ref j : ℕ) :
    Ensures never (do
      let issuable ← cq.isIssuable cfg bankStates packet
      if issuable then return (some packet, false, cq.removeAt ref j)
      else return (none, false, cq) : Outcome (Option BusPacket × Bool × CommandQueue))
      (GuardedScan cq.tFAWCountdown) := by
  refine (harmless_never _).bind fun issuable hissue => ?_
  cases issuable with
  | true => exact ensures_ok (guarded_of_issuable rfl hissue)
  | false => exact ensures_ok (guarded_none rfl)

theorem scanClose_guarded (banks : List ℕ) :
    Ensures never (cq.scanClose cfg bankStates banks) (GuardedScan cq.tFAWCountdown) := by
  induction banks with
  | nil => exact ensures_ok (guarded_none rfl)
  | cons b banks ih =>
    refine (harmless_never _).bind fun ref _ => (harmless_never _).bind fun s _ => ?_
    split_ifs
    · cases firstToRow (cq.cell ref) s.openRowAddress b with
      | none => exact ensures_ok (guarded_none rfl)
      | some e =>
        dsimp only
        split_ifs
        · exact ensures_ok (guarded_none rfl)
        · exact issueFirst_guarded e.1 ref e.2
    · exact ensures_ok (guarded_none rfl)
    · exact ih

theorem closeRow_guarded (s : BankState) (b : ℕ) :
    Ensures never (scanOpen.closeRow cq s b) (GuardedScan cq.tFAWCountdown) := by
  unfold scanOpen.closeRow
  split_ifs
  · exact ensures_ok (guarded_of_ne rfl (by simp [BusPacket.new]))
  · exact ensures_ok (guarded_none rfl)

theorem scanOpen_guarded (banks : List ℕ) :
    Ensures never (cq.scanOpen cfg bankStates banks) (GuardedScan cq.tFAWCountdown) := by
  induction banks with
  | nil => exact ensures_ok (guarded_none rfl)
  | cons b banks ih =>
    refine (harmless_never _).bind fun s _ => ?_
    split_ifs
    · refine (harmless_never _).bind fun ref _ => ?_
      cases firstToRow (cq.cell ref) s.openRowAddress b with
      | none => exact closeRow_guarded s b
      | some e =>
        dsimp only
        split_ifs
        · exact closeRow_guarded s b
        · exact issueFirst_guarded e.1 ref e.2
    · exact ensures_ok (guarded_none rfl)
    · exact ih

theorem popRefresh_guarded :
    Ensures never (cq.popRefresh cfg bankStates) (Guarded cq.tFAWCountdown) := by
  unfold popRefresh
  split_ifs
  · have hscan : Ensures never (cq.scanBanks cfg bankStates) (GuardedScan cq.tFAWCountdown) := by
      unfold scanBanks
      cases cfg.rowBufferPolicy with
      | closePage => exact scanClose_guarded _
      | openPage => exact scanOpen_guarded _
    refine hscan.bind fun r hr => ?_
    obtain ⟨found, closed, cq₁⟩ := r
    cases closed with
    | false => exact ensures_ok hr
    | true =>
      refine (harmless_never _).bind fun s _ => ?_
      split_ifs
      · refine ensures_ok ⟨hr.1, fun p hp hact => ?_⟩
        cases hp
        cases hact
      · refine ensures_ok ⟨hr.1, fun p hp => ?_⟩
        cases hp
  · exact ensures_ok (guarded_none rfl)

theorem takeClose_guarded (ref : ℕ) :
    Ensures never (cq.takeClose cfg bankStates ref) (Guarded cq.tFAWCountdown) := by
  unfold takeClose
  cases cfg.queuingStructure with
  | perRank =>
    refine (harmless_never _).bind fun i hi => ?_
    cases i with
    | none => exact ensures_ok (guarded_none rfl)
    | some i =>
      obtain ⟨j, p, rfl, hget, hissue, -, -⟩ := firstUnpaired_spec hi
      rw [Nat.zero_add]
      dsimp only
      rw [hget]
      exact ensures_ok (guarded_of_issuable rfl hissue)
  | perRankPerBank =>
    cases cq.cell ref with
    | nil => exact ensures_ok (guarded_none rfl)
    | cons p queue =>
      refine (harmless_never _).bind fun issuable hissue => ?_
      cases issuable with
      | true => exact ensures_ok (guarded_of_issuable rfl hissue)
      | false => exact ensures_ok (guarded_none rfl)

theorem takeOpen_guarded (ref : ℕ) :
    Ensures never (cq.takeOpen cfg bankStates ref) (Guarded cq.tFAWCountdown) := by
  refine (harmless_never _).bind fun i hi => ?_
  cases i with
  | none => exact ensures_ok (guarded_none rfl)
  | some i =>
    obtain ⟨p, hget, hissue, -⟩ := firstIndependent_spec hi
    rw [List.nil_append] at hget
    dsimp only
    rw [hget]
    dsimp only
    split_ifs
    · refine (harmless_never _).bind fun n _ => ?_
      exact ensures_ok (guarded_of_issuable rfl hissue)
    · exact ensures_ok (guarded_of_issuable rfl hissue)

theorem takeFrom_guarded (ref : ℕ) :
    Ensures never (cq.takeFrom cfg bankStates ref) (Guarded cq.tFAWCountdown) := by
  unfold takeFrom
  split_ifs
  · cases cfg.rowBufferPolicy with
    | closePage => exact takeClose_guarded ref
    | openPage => exact takeOpen_guarded ref
  · exact ensures_ok (guarded_none rfl)

theorem searchQueues_guarded :
    Ensures never (cq.searchQueues cfg bankStates) (Guarded cq.tFAWCountdown) := by
  refine ⟨fun r hr => ?_, fun _ _ h => h⟩
  -- The rounds before the last one find nothing and leave the windows alone.
  refine doWhile_rule (I := fun s => s.2.tFAWCountdown = cq.tFAWCountdown)
    (J := Guarded cq.tFAWCountdown) ?_ rfl hr
  rintro ⟨none', cq₁⟩ ⟨found₁, cq₂⟩ again hsame hbody
  obtain ⟨ref, -, hbody⟩ := Outcome.bind_eq_ok.mp hbody
  obtain ⟨⟨found', cq₃⟩, htake, hbody⟩ := Outcome.bind_eq_ok.mp hbody
  have htaken := (takeFrom_guarded ref).1 _ htake
  cases found' with
  | some p =>
    cases hbody
    exact hsame ▸ htaken
  | none =>
    cases hbody
    have hrotate : (cq₃.rotate cfg).tFAWCountdown = cq.tFAWCountdown := by
      unfold rotate
      cases cfg.queuingStructure <;> exact htaken.1.trans hsame
    split_ifs
    · exact hrotate
    · exact guarded_none hrotate

theorem searchBanks_guarded :
    Ensures never (cq.searchBanks cfg bankStates) (Guarded cq.tFAWCountdown) := by
  refine ⟨fun r hr => ?_, fun _ _ h => h⟩
  refine doWhile_rule (I := fun s => s.2.tFAWCountdown = cq.tFAWCountdown)
    (J := Guarded cq.tFAWCountdown) ?_ rfl hr
  rintro ⟨none', cq₁⟩ ⟨found₁, cq₂⟩ again hsame hbody
  obtain ⟨close, -, hbody⟩ := Outcome.bind_eq_ok.mp hbody
  cases close with
  | true =>
    cases hbody
    exact guarded_of_ne hsame (by simp [BusPacket.new])
  | false =>
    cases hbody
    split_ifs
    · exact hsame
    · exact guarded_none hsame

/-- **Every activate is checked**: whatever way `pop` finds it, the window of its rank has room. -/
theorem choose_guarded :
    Ensures never (cq.choose cfg bankStates) (Guarded cq.tFAWCountdown) := by
  refine popRefresh_guarded.bind fun r hr => ?_
  obtain ⟨found, cq₁⟩ := r
  cases found with
  | some p => exact ensures_ok hr
  | none =>
    have hsearch : Ensures never (cq₁.searchQueues cfg bankStates) (Guarded cq.tFAWCountdown) :=
      hr.1 ▸ searchQueues_guarded
    refine hsearch.bind fun r hr => ?_
    obtain ⟨found, cq₂⟩ := r
    cases found with
    | some p => exact ensures_ok hr
    | none =>
      cases cfg.rowBufferPolicy with
      | closePage => exact ensures_ok hr
      | openPage => exact hr.1 ▸ searchBanks_guarded

end CommandQueue

/-! ### The windows -/

open CommandQueue

/-- The windows hold the countdowns of the activates of their ranks. -/
def Counts (tFAW : UInt32) (windows : List (List UInt32)) (issued : List (Option BusPacket)) :
    Prop :=
  ∀ rank window, windows[rank]? = some window →
    window.map UInt32.toNat = left tFAW.toNat (issued.map (activates rank))

theorem toNat_pred {n : UInt32} (h : 0 < n.toNat) : (n - 1).toNat = n.toNat - 1 := by
  rw [UInt32.toNat_sub]
  have hlt := n.toNat_lt
  rw [UInt32.toNat_one]
  omega

theorem tickWindow_eq {window : List UInt32} {tFAW : ℕ} (hfaw : 0 < tFAW) {past : List Bool}
    (h : window.map UInt32.toNat = left tFAW past) :
    (tickWindow window).map UInt32.toNat = ((left tFAW past).map (· - 1)).filter (0 < ·) := by
  obtain ⟨hsorted, hbounds⟩ := left_sorted hfaw past
  have hdown : (window.map fun n => n - 1).map UInt32.toNat = (left tFAW past).map (· - 1) := by
    rw [← h, List.map_map, List.map_map]
    apply List.map_congr_left
    intro n hn
    refine toNat_pred (hbounds n.toNat ?_).1
    rw [← h]
    exact List.mem_map_of_mem hn
  have hhead : (window.map fun n => n - 1).head? = some 0 ↔
      ((left tFAW past).map (· - 1)).head? = some 0 := by
    rw [← hdown, List.head?_map (f := UInt32.toNat)]
    cases (window.map fun n => n - 1).head? with
    | none => simp
    | some n => simp [← UInt32.toNat_inj]
  rw [filter_pred hsorted fun x hx => (hbounds x hx).1]
  unfold tickWindow
  dsimp only
  by_cases hzero : (window.map fun n => n - 1).head? = some 0
  · rw [if_pos hzero, if_pos (hhead.mp hzero), List.map_tail, hdown]
  · rw [if_neg hzero, if_neg (mt hhead.mpr hzero), hdown]

/-- What a cycle does to the windows. -/
theorem pop_windows {cfg : DRAMConfig} {bankStates : List (List BankState)} {cq cq' : CommandQueue}
    {found : Option BusPacket} (h : cq.pop cfg bankStates = .ok (found, cq')) :
    (∀ rank, cq'.tFAWCountdown[rank]? = cq.tFAWCountdown[rank]?.map fun window =>
        tickWindow window ++ if activates rank found then [cfg.tFAW] else []) ∧
      ∀ rank, activates rank found = true → ∃ window,
        cq.tFAWCountdown[rank]? = some window ∧ (tickWindow window).length < 4 := by
  obtain ⟨⟨found₁, cq₁⟩, hchoose, h⟩ := Outcome.bind_eq_ok.mp h
  have hguarded := choose_guarded.1 _ hchoose
  have hwindows : cq₁.tFAWCountdown = cq.tFAWCountdown.map tickWindow := hguarded.1
  cases found₁ with
  | none =>
    cases h
    refine ⟨fun rank => ?_, fun rank hact => ?_⟩
    · rw [hwindows, List.getElem?_map]
      simp [activates]
    · cases hact
  | some p =>
    cases h
    refine ⟨fun rank => ?_, fun rank hact => ?_⟩
    · -- The windows have been ticked before the choice; `finish` adds the new countdown.
      have hfinish : (cq₁.finish cfg p).tFAWCountdown = if p.busPacketType = .activate
          then cq₁.tFAWCountdown.modify p.rank fun w => w ++ [cfg.tFAW]
          else cq₁.tFAWCountdown := by
        unfold finish
        split_ifs <;> rfl
      rw [hfinish, hwindows]
      by_cases hact : p.busPacketType = .activate
      · rw [if_pos hact, List.getElem?_modify, List.getElem?_map, Option.map_eq_map,
          Option.map_map]
        by_cases hrank : p.rank = rank
        · simp [activates, hact, hrank, Function.comp_def]
        · simp [activates, hrank, Function.comp_def]
      · rw [if_neg hact, List.getElem?_map]
        simp [activates, hact]
    · obtain ⟨htype, rfl⟩ := of_decide_eq_true hact
      obtain ⟨window, hwindow, hroom⟩ := hguarded.2 p rfl htype
      rw [tickWindows, listAt_natCast] at hwindow
      rw [List.getElem?_map] at hwindow
      cases hget : cq.tFAWCountdown[p.rank]? with
      | none =>
        rw [hget] at hwindow
        cases hwindow
      | some w =>
        rw [hget] at hwindow
        cases hwindow
        exact ⟨w, rfl, hroom⟩

theorem Counts.pop {cfg : DRAMConfig} {bankStates : List (List BankState)} {cq cq' : CommandQueue}
    {found : Option BusPacket} {issued : List (Option BusPacket)} (hfaw : 0 < cfg.tFAW.toNat)
    (h : Counts cfg.tFAW cq.tFAWCountdown issued)
    (hpop : cq.pop cfg bankStates = .ok (found, cq')) :
    Counts cfg.tFAW cq'.tFAWCountdown (found :: issued) := by
  intro rank window hwindow
  rw [(pop_windows hpop).1] at hwindow
  obtain ⟨w, hw, rfl⟩ := Option.map_eq_some_iff.mp hwindow
  rw [List.map_append, tickWindow_eq hfaw (h rank w hw), List.map_cons, left]
  cases activates rank found <;> rfl

theorem count_activates (rank n : ℕ) (issued : List (Option BusPacket)) :
    ((issued.map (activates rank)).take n).count true =
      (issued.take n).countP (activates rank) := by
  rw [← List.map_take, List.count_eq_countP, List.countP_map]
  apply List.countP_congr
  intro found _
  simp

/-- Up to now there were at most four activates of a rank in `tFAW` cycles. -/
def Bounded (tFAW : UInt32) (issued : List (Option BusPacket)) : Prop :=
  ∀ rank i, ((issued.drop i).take tFAW.toNat).countP (activates rank) ≤ 4

theorem Bounded.pop {cfg : DRAMConfig} {bankStates : List (List BankState)} {cq cq' : CommandQueue}
    {found : Option BusPacket} {issued : List (Option BusPacket)} (hfaw : 0 < cfg.tFAW.toNat)
    (h : Bounded cfg.tFAW issued) (hcounts : Counts cfg.tFAW cq.tFAWCountdown issued)
    (hpop : cq.pop cfg bankStates = .ok (found, cq')) : Bounded cfg.tFAW (found :: issued) := by
  intro rank
  apply window_cons (h rank)
  obtain ⟨n, hn⟩ := Nat.exists_eq_succ_of_ne_zero hfaw.ne'
  cases hact : activates rank found with
  | false =>
    -- The window has lost its oldest cycle.
    rw [hn, List.take_succ_cons, List.countP_cons_of_neg (by simp [hact])]
    refine ((List.take_sublist_take_left ?_).countP_le).trans (h rank 0)
    exact hn ▸ n.le_succ
  | true =>
    -- The countdowns were less than four before the activate entered.
    obtain ⟨window, hwindow, hroom⟩ := (pop_windows hpop).2 rank hact
    have hnew := (hcounts.pop hfaw hpop) rank (tickWindow window ++ [cfg.tFAW]) (by
      rw [(pop_windows hpop).1, hwindow, hact]
      rfl)
    calc _ = (left cfg.tFAW.toNat ((found :: issued).map (activates rank))).length := by
          rw [length_left hfaw, count_activates]
      _ = (tickWindow window).length + 1 := by
          rw [← hnew, List.length_map, List.length_append, List.length_singleton]
      _ ≤ 4 := hroom

/-- **The activation window is kept**: in every run of the queue no `tFAW` consecutive cycles have
more than four activates for one rank. -/
theorem activates_bounded {cfg : DRAMConfig} (hfaw : 1 ≤ cfg.tFAW.toNat) {calls : List QueueCall}
    {s : QueueRun} (hrun : exec (QueueRun.call cfg) (QueueRun.start cfg) calls = .ok s)
    (rank i : ℕ) : ((s.issued.drop i).take cfg.tFAW.toNat).countP (activates rank) ≤ 4 := by
  suffices h : Counts cfg.tFAW s.queue.tFAWCountdown s.issued ∧ Bounded cfg.tFAW s.issued from
    h.2 rank i
  refine exec_invariant (I := fun s : QueueRun =>
    Counts cfg.tFAW s.queue.tFAWCountdown s.issued ∧ Bounded cfg.tFAW s.issued) ?_ ?_ hrun
  · rintro s call s' ⟨hcounts, hbounded⟩ hstep
    cases call with
    | enqueue p =>
      obtain ⟨cq, henqueue, hstep⟩ := Outcome.bind_eq_ok.mp hstep
      cases hstep
      obtain ⟨ref, -, -, rfl⟩ := enqueue_eq_ok henqueue
      exact ⟨hcounts, hbounded⟩
    | needRefresh rank =>
      cases hstep
      exact ⟨hcounts, hbounded⟩
    | pop bankStates =>
      obtain ⟨⟨found, cq⟩, hpop, hstep⟩ := Outcome.bind_eq_ok.mp hstep
      cases hstep
      have hkept : Counts cfg.tFAW cq.tFAWCountdown (found :: s.issued) := hcounts.pop hfaw hpop
      exact ⟨hkept, hbounded.pop hfaw hcounts hpop⟩
  · refine ⟨fun rank window hwindow => ?_, fun rank i => ?_⟩
    · change (List.replicate cfg.numRanks [])[rank]? = some window at hwindow
      rw [List.getElem?_replicate] at hwindow
      split_ifs at hwindow
      cases hwindow
      rfl
    · simp [QueueRun.start]

/-- One rank with six banks, and a window of eight cycles. -/
def sixBanks : DRAMConfig :=
  { queuingStructure := .perRank, numBanks := 6, numRanks := 1, cmdQueueDepth := 8, tFAW := 8 }

/-- An activate for each of the six banks, and nine cycles in which all banks are idle. -/
def sixActivates : List QueueCall :=
  ((List.range 6).map fun b => .enqueue (BusPacket.new .activate 0 0 0 0 b 0 none)) ++
    List.replicate 9 (.pop [List.replicate 6 {}])

/-- Five of six activates are issued in nine cycles, and the last eight cycles have four of them. -/
theorem activates_bounded_six :
    ∃ s, exec (QueueRun.call sixBanks) (QueueRun.start sixBanks) sixActivates = .ok s ∧
      ((s.issued.drop 0).take sixBanks.tFAW.toNat).countP (activates 0) ≤ 4 := by
  have hrun : ((exec (QueueRun.call sixBanks) (QueueRun.start sixBanks) sixActivates).toOption.any
      fun s => decide (s.issued.countP (activates 0) = 5)) = true := by
    decide +kernel
  cases hexec : exec (QueueRun.call sixBanks) (QueueRun.start sixBanks) sixActivates with
  | error e =>
    rw [hexec] at hrun
    cases hrun
  | ok s => exact ⟨s, rfl, activates_bounded (by decide) hexec 0 0⟩

end PIMSim.DDR
