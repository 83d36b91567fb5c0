import PIMSim.Library.Run
import PIMSim.Procs.InstructionWindow
import Mathlib.Data.List.ModifyLast
import Mathlib.Data.UInt

/-!
# The latencies of a window

`set_ready` adds up the cycles that the instructions of a completed block spent in the window. It
does so for every instruction of the block that is queued, also for those that are ready already.

## Main definitions

* `Latencies`: a window with its statistics
* `WindowCall`, `Latencies.step`: the calls that change it
* `Service`: what is known of an instruction from the calls: when it was added, and when it first
  became ready
* `Account`: the statistics beside the instructions they are about
* `CountsOnce`: the calls that count no instruction twice

## Main results

* `step_sound`: such a call keeps the statistics the sums over the instructions
* `latencies_accounted`: so does every run of such calls
-/

namespace PIMSim

open CSharp

/-- A window with the statistics `total_read_latency` and `total_write_latency`. -/
structure Latencies where
  window : InstructionWindow
  totalRead : UInt64 := 0
  totalWrite : UInt64 := 0

/-- The calls that change a window. `setLast` does not take the cycle in which it is made. -/
inductive WindowCall
  | addIns (ins : Instruction) (cycle : UInt64)
  | setReady (blockAddr cycle : UInt64)
  | setLast (ready : Bool) (cycle : UInt64)
  | evicted (n : Int)
deriving DecidableEq

/-- The instruction is one that `set_ready` marks. -/
def Instruction.waitsFor (x : Instruction) (blockAddr : UInt64) : Bool :=
  x.blockAddr = blockAddr && x.isMem

namespace Latencies

/-- The loop body of `set_ready` on the totals. -/
def addLatency (blockAddr cycle : UInt64) (totals : UInt64 × UInt64) (x : Instruction) :
    UInt64 × UInt64 :=
  if x.waitsFor blockAddr then
    match x.type with
    | .read => (totals.1 + (cycle - x.servedCycle), totals.2)
    | .write => (totals.1, totals.2 + (cycle - x.servedCycle))
    | _ => totals
  else totals

/-- `set_ready` with its statistics. -/
def setReady (s : Latencies) (blockAddr cycle : UInt64) : Latencies :=
  let totals := s.window.ins.foldl (addLatency blockAddr cycle) (s.totalRead, s.totalWrite)
  { window := s.window.setReady blockAddr, totalRead := totals.1, totalWrite := totals.2 }

/-- One call. -/
def step (s : Latencies) : WindowCall → Outcome Latencies
  | .addIns ins cycle => .ok { s with window := s.window.addIns ins cycle }
  | .setReady blockAddr cycle => .ok (s.setReady blockAddr cycle)
  | .setLast ready _ => do
    let window ← s.window.setLast ready
    return { s with window := window }
  | .evicted n => .ok { s with window := s.window.evicted n }

end Latencies

/-! ### What the statistics are about -/

/-- What the calls say about an instruction they added. -/
structure Service where
  ref : ℕ
  type : InstructionType
  blockAddr : UInt64
  isMem : Bool
  added : UInt64
  readyAt : Option UInt64
deriving DecidableEq

namespace Service

/-- The instruction is added. -/
def start (ins : Instruction) (cycle : UInt64) : Service where
  ref := ins.ref
  type := ins.type
  blockAddr := ins.blockAddr
  isMem := ins.isMem
  added := cycle
  readyAt := if ins.ready then some cycle else none

/-- The instruction is ready from this cycle on, unless it was before. -/
def becomeReady (s : Service) (cycle : UInt64) : Service :=
  { s with readyAt := some (s.readyAt.getD cycle) }

/-- A block completes. -/
def complete (blockAddr cycle : UInt64) (s : Service) : Service :=
  if s.blockAddr = blockAddr && s.isMem then s.becomeReady cycle else s

/-- The cycles from the addition to the first cycle in which the instruction is ready. -/
def latency (type : InstructionType) (s : Service) : UInt64 :=
  if s.type = type then
    match s.readyAt with
    | some cycle => cycle - s.added
    | none => 0
  else 0

end Service

/-- The sum over the instructions of a type. -/
def totalLatency (type : InstructionType) (services : List Service) : UInt64 :=
  (services.map (Service.latency type)).sum

/-- The statistics, and the instructions added so far. -/
structure Account where
  stats : Latencies
  services : List Service := []

namespace Account

/-- A window before its first instruction. -/
def init (size : Int) : Account := { stats := { window := { ins := [], size := size } } }

/-- What a call says about the instructions. -/
def record (services : List Service) : WindowCall → List Service
  | .addIns ins cycle => services ++ [.start ins cycle]
  | .setReady blockAddr cycle => services.map (.complete blockAddr cycle)
  | .setLast ready cycle =>
    if ready then services.modifyLast fun s => s.becomeReady cycle else services
  | .evicted _ => services

/-- One call. -/
def step (s : Account) (call : WindowCall) : Outcome Account := do
  let stats ← s.stats.step call
  return { stats := stats, services := record s.services call }

/-- **The statistics are the sums** of the latencies of the read and of the write instructions. -/
def Accounted (s : Account) : Prop :=
  s.stats.totalRead = totalLatency .read s.services ∧
    s.stats.totalWrite = totalLatency .write s.services

/-- The call counts no instruction twice, and misses none: an instruction object is added when the
window does not hold it; when a block completes, its instructions are not ready yet, or were added
in the same cycle; and the last instruction gets its ready bit in the cycle in which it was added,
or has it. -/
def CountsOnce (s : Account) : WindowCall → Prop
  | .addIns ins _ => ∀ x ∈ s.stats.window.ins, x.ref ≠ ins.ref
  | .setReady blockAddr cycle => ∀ x ∈ s.stats.window.ins, x.waitsFor blockAddr = true →
      x.ready = true → x.servedCycle = cycle
  | .setLast ready cycle => ∀ x, s.stats.window.ins.getLast? = some x →
      x.ready = ready ∨ ready = true ∧ x.servedCycle = cycle
  | .evicted _ => True

/-! ### What a call keeps -/

/-- The window entry is the instruction of the service. -/
structure Matches (x : Instruction) (s : Service) : Prop where
  type : x.type = s.type
  blockAddr : x.blockAddr = s.blockAddr
  isMem : x.isMem = s.isMem
  servedCycle : x.servedCycle = s.added
  ready : x.ready = s.readyAt.isSome

/-- The window holds the last instructions added, each once, and the ones before are ready. -/
structure Sound (s : Account) : Prop where
  accounted : s.Accounted
  distinct : s.stats.window.ins.Pairwise fun x y => x.ref ≠ y.ref
  current : ∃ gone current, s.services = gone ++ current ∧
    (∀ sv ∈ gone, sv.readyAt.isSome = true) ∧ List.Forall₂ Matches s.stats.window.ins current

theorem sound_init (size : Int) : Sound (init size) where
  accounted := ⟨rfl, rfl⟩
  distinct := .nil
  current := ⟨[], [], rfl, by simp, .nil⟩

theorem totalLatency_append (type : InstructionType) (xs ys : List Service) :
    totalLatency type (xs ++ ys) = totalLatency type xs + totalLatency type ys := by
  simp [totalLatency]

theorem becomeReady_of_ready {sv : Service} (h : sv.readyAt.isSome = true) (cycle : UInt64) :
    sv.becomeReady cycle = sv := by
  obtain ⟨ref, type, blockAddr, isMem, added, readyAt⟩ := sv
  cases readyAt with
  | none => cases h
  | some r => rfl

theorem complete_of_ready {sv : Service} (h : sv.readyAt.isSome = true) (b cycle : UInt64) :
    sv.complete b cycle = sv := by
  unfold Service.complete
  split_ifs
  · exact becomeReady_of_ready h cycle
  · rfl

/-- An instruction that is ready in the cycle of its addition has spent no cycle waiting. -/
theorem latency_start (type : InstructionType) (ins : Instruction) (cycle : UInt64) :
    (Service.start ins cycle).latency type = 0 := by
  unfold Service.latency Service.start
  cases ins.ready <;> simp

/-- What a completed block adds for one window entry. -/
def gain (type : InstructionType) (b cycle : UInt64) (x : Instruction) : UInt64 :=
  if x.waitsFor b && x.type = type then cycle - x.servedCycle else 0

/-- **The loop of `set_ready`** adds up the gains. -/
theorem foldl_addLatency (b cycle : UInt64) (ins : List Instruction) (totals : UInt64 × UInt64) :
    ins.foldl (Latencies.addLatency b cycle) totals =
      (totals.1 + (ins.map (gain .read b cycle)).sum,
        totals.2 + (ins.map (gain .write b cycle)).sum) := by
  induction ins generalizing totals with
  | nil => simp
  | cons x ins ih =>
    have hone : Latencies.addLatency b cycle totals x =
        (totals.1 + gain .read b cycle x, totals.2 + gain .write b cycle x) := by
      unfold Latencies.addLatency gain
      cases hw : x.waitsFor b
      · simp
      · cases x.type <;> simp
    rw [List.foldl_cons, ih, hone]
    simp [UInt64.add_assoc]

/-- The gain of a window entry is what its latency grows by, when it was not ready or was added in
this cycle. -/
theorem latency_complete {x : Instruction} {sv : Service} (hm : Matches x sv)
    (type : InstructionType) (b cycle : UInt64)
    (h : x.waitsFor b = true → x.ready = true → x.servedCycle = cycle) :
    (sv.complete b cycle).latency type = sv.latency type + gain type b cycle x := by
  have hkey : x.waitsFor b = (decide (sv.blockAddr = b) && sv.isMem) := by
    rw [Instruction.waitsFor, hm.blockAddr, hm.isMem]
  unfold gain Service.complete
  rw [← hkey, hm.type]
  cases hw : x.waitsFor b with
  | false => simp
  | true =>
    cases hr : x.ready with
    | true =>
      -- The entry was ready, and adds no cycle.
      have hsome : sv.readyAt.isSome = true := by rw [← hm.ready, hr]
      rw [if_pos rfl, becomeReady_of_ready hsome, h hw hr]
      simp
    | false =>
      have hnone : sv.readyAt = none := by
        rw [hm.ready] at hr
        simpa using hr
      by_cases ht : sv.type = type
      · simp [Service.latency, Service.becomeReady, hnone, ht, hm.servedCycle]
      · simp [Service.latency, Service.becomeReady, ht]

theorem Matches.complete {x : Instruction} {sv : Service} (hm : Matches x sv) (b cycle : UInt64) :
    Matches (if x.blockAddr = b && x.isMem then { x with ready := true } else x)
      (sv.complete b cycle) := by
  unfold Service.complete
  rw [← hm.blockAddr, ← hm.isMem]
  split_ifs
  · exact { hm with ready := by simp [Service.becomeReady] }
  · exact hm

/-- The entries that leave are ready. -/
theorem forall₂_dropWhile {ins : List Instruction} {services : List Service}
    (h : List.Forall₂ Matches ins services) : ∃ front back, services = front ++ back ∧
      (∀ sv ∈ front, sv.readyAt.isSome = true) ∧
      List.Forall₂ Matches (ins.dropWhile (·.ready)) back := by
  induction h with
  | nil => exact ⟨[], [], rfl, by simp, .nil⟩
  | @cons x sv ins services hm hrest ih =>
    cases hx : x.ready with
    | false =>
      refine ⟨[], sv :: services, rfl, by simp, ?_⟩
      rw [List.dropWhile_cons_of_neg (by simp [hx])]
      exact .cons hm hrest
    | true =>
      obtain ⟨front, back, rfl, hfront, hback⟩ := ih
      refine ⟨sv :: front, back, rfl, ?_, ?_⟩
      · intro sv' hsv'
        rcases List.mem_cons.mp hsv' with rfl | hsv'
        · rw [← hm.ready, hx]
        · exact hfront sv' hsv'
      · rw [List.dropWhile_cons_of_pos (by simp [hx])]
        exact hback

/-- Changing an object changes nothing where the window does not hold it. -/
theorem map_mutate {ins : List Instruction} {i : Instruction} (h : ∀ x ∈ ins, x.ref ≠ i.ref) :
    (ins.map fun x => if x.ref = i.ref then i else x) = ins := by
  conv_rhs => rw [← List.map_id ins]
  apply List.map_congr_left
  intro x hx
  exact if_neg (h x hx)

theorem addIns_sound {s : Account} (hs : Sound s) {ins : Instruction} {cycle : UInt64}
    (hnew : ∀ x ∈ s.stats.window.ins, x.ref ≠ ins.ref) :
    Sound { stats := { s.stats with window := s.stats.window.addIns ins cycle },
            services := s.services ++ [.start ins cycle] } := by
  obtain ⟨gone, current, hservices, hgone, hcurrent⟩ := hs.current
  have hins : (s.stats.window.addIns ins cycle).ins =
      s.stats.window.ins ++ [{ ins with servedCycle := cycle }] :=
    congrArg (· ++ _) (map_mutate (i := { ins with servedCycle := cycle }) hnew)
  constructor
  · have hzero : ∀ type, totalLatency type [Service.start ins cycle] = 0 := by
      intro type
      simp [totalLatency, latency_start]
    unfold Accounted
    rw [totalLatency_append, totalLatency_append, hzero, hzero]
    simpa [Accounted] using hs.accounted
  · show (s.stats.window.addIns ins cycle).ins.Pairwise _
    rw [hins, List.pairwise_append]
    refine ⟨hs.distinct, List.pairwise_singleton _ _, fun x hx y hy => ?_⟩
    rw [List.mem_singleton.mp hy]
    exact hnew x hx
  · refine ⟨gone, current ++ [.start ins cycle], by rw [hservices, List.append_assoc], hgone, ?_⟩
    show List.Forall₂ Matches (s.stats.window.addIns ins cycle).ins _
    rw [hins]
    apply List.rel_append hcurrent
    refine .cons ⟨rfl, rfl, rfl, rfl, ?_⟩ .nil
    unfold Service.start
    cases ins.ready <;> rfl

/-- The latencies of the queued instructions grow by their gains. -/
theorem totalLatency_complete {ins : List Instruction} {current : List Service}
    (h : List.Forall₂ Matches ins current) (type : InstructionType) (b cycle : UInt64)
    (hgood : ∀ x ∈ ins, x.waitsFor b = true → x.ready = true → x.servedCycle = cycle) :
    totalLatency type (current.map (.complete b cycle)) =
      totalLatency type current + (ins.map (gain type b cycle)).sum := by
  induction h with
  | nil => rfl
  | @cons x sv ins current hm hrest ih =>
    have hone := latency_complete hm type b cycle (hgood x List.mem_cons_self)
    have htail := ih fun y hy => hgood y (List.mem_cons_of_mem x hy)
    simp only [totalLatency, List.map_cons, List.sum_cons] at htail ⊢
    rw [hone, htail]
    ac_rfl

theorem setReady_sound {s : Account} (hs : Sound s) {b cycle : UInt64}
    (hgood : ∀ x ∈ s.stats.window.ins, x.waitsFor b = true → x.ready = true →
      x.servedCycle = cycle) :
    Sound { stats := s.stats.setReady b cycle, services := s.services.map (.complete b cycle) } := by
  obtain ⟨gone, current, hservices, hgone, hcurrent⟩ := hs.current
  -- The instructions that have left were ready.
  have hsame : gone.map (.complete b cycle) = gone := by
    conv_rhs => rw [← List.map_id gone]
    exact List.map_congr_left fun sv hsv => complete_of_ready (hgone sv hsv) b cycle
  have htotal : ∀ type, totalLatency type (s.services.map (.complete b cycle)) =
      totalLatency type s.services + (s.stats.window.ins.map (gain type b cycle)).sum := by
    intro type
    rw [hservices, List.map_append, hsame, totalLatency_append, totalLatency_append,
      totalLatency_complete hcurrent type b cycle hgood, UInt64.add_assoc]
  constructor
  · obtain ⟨hread, hwrite⟩ := hs.accounted
    unfold Accounted Latencies.setReady
    rw [foldl_addLatency, htotal, htotal, hread, hwrite]
    exact ⟨rfl, rfl⟩
  · show (s.stats.window.setReady b).ins.Pairwise _
    unfold InstructionWindow.setReady
    rw [List.pairwise_map]
    refine hs.distinct.imp fun {x y} hxy => ?_
    split_ifs <;> exact hxy
  · refine ⟨gone, current.map (.complete b cycle), ?_, hgone, ?_⟩
    · rw [hservices, List.map_append, hsame]
    · show List.Forall₂ Matches (s.stats.window.setReady b).ins _
      unfold InstructionWindow.setReady
      rw [List.forall₂_map_left_iff, List.forall₂_map_right_iff]
      exact hcurrent.imp fun x sv hm => hm.complete b cycle

theorem evicted_sound {s : Account} (hs : Sound s) (n : Int) :
    Sound { s with stats := { s.stats with window := s.stats.window.evicted n } } := by
  unfold InstructionWindow.evicted
  split_ifs with hn
  · exact hs
  · obtain ⟨gone, current, hservices, hgone, hcurrent⟩ := hs.current
    obtain ⟨front, back, rfl, hfront, hback⟩ := forall₂_dropWhile hcurrent
    refine ⟨hs.accounted, hs.distinct.sublist (List.dropWhile_sublist _), gone ++ front, back, ?_, ?_,
      hback⟩
    · rw [hservices, List.append_assoc]
    · intro sv hsv
      rcases List.mem_append.mp hsv with hsv | hsv
      · exact hgone sv hsv
      · exact hfront sv hsv

/-- The last instruction gets the ready bit. -/
theorem setLast_eq {w w' : InstructionWindow} {ready : Bool}
    (hdistinct : w.ins.Pairwise fun x y => x.ref ≠ y.ref) (h : w.setLast ready = .ok w') :
    ∃ front x, w.ins = front ++ [x] ∧ w' = { w with ins := front ++ [{ x with ready := ready }] } := by
  unfold InstructionWindow.setLast at h
  split at h
  · cases h
  · next x hlast =>
    cases h
    obtain ⟨front, hins⟩ := List.getLast?_eq_some_iff.mp hlast
    refine ⟨front, x, hins, ?_⟩
    rw [hins, List.pairwise_append] at hdistinct
    have hfront : ∀ y ∈ front, y.ref ≠ x.ref := fun y hy =>
      hdistinct.2.2 y hy x (List.mem_singleton_self x)
    unfold InstructionWindow.mutate
    rw [hins, List.map_append, map_mutate (i := { x with ready := ready }) hfront]
    simp

theorem forall₂_concat {front : List Instruction} {x : Instruction} {current : List Service}
    (h : List.Forall₂ Matches (front ++ [x]) current) :
    ∃ before sv, current = before ++ [sv] ∧ List.Forall₂ Matches front before ∧ Matches x sv := by
  induction front generalizing current with
  | nil =>
    obtain _ | ⟨hm, hrest⟩ := h
    cases hrest
    exact ⟨[], _, rfl, .nil, hm⟩
  | cons y front ih =>
    obtain _ | ⟨hy, hrest⟩ := h
    obtain ⟨before, sv, rfl, hbefore, hm⟩ := ih hrest
    exact ⟨_ :: before, sv, rfl, .cons hy hbefore, hm⟩

/-- The last service gets the ready bit of its instruction. -/
theorem setLast_sound {s : Account} (hs : Sound s) {ready : Bool} {cycle : UInt64}
    {w : InstructionWindow} (hgood : CountsOnce s (.setLast ready cycle))
    (h : s.stats.window.setLast ready = .ok w) :
    Sound { stats := { s.stats with window := w },
            services := record s.services (.setLast ready cycle) } := by
  obtain ⟨gone, current, hservices, hgone, hcurrent⟩ := hs.current
  obtain ⟨front, x, hins, rfl⟩ := setLast_eq hs.distinct h
  rw [hins] at hcurrent
  obtain ⟨before, sv, rfl, hbefore, hm⟩ := forall₂_concat hcurrent
  have hlast := hgood x (by rw [hins]; simp)
  have hdistinct : (front ++ [{ x with ready := ready }]).Pairwise
      fun (x y : Instruction) => x.ref ≠ y.ref := by
    have hold := hs.distinct
    rw [hins, List.pairwise_append] at hold
    rw [List.pairwise_append]
    refine ⟨hold.1, List.pairwise_singleton _ _, fun y hy z hz => ?_⟩
    rw [List.mem_singleton.mp hz]
    exact hold.2.2 y hy x (List.mem_singleton_self x)
  cases ready with
  | false =>
    obtain hready : x.ready = false := by simpa using hlast
    refine ⟨hs.accounted, hdistinct, gone, before ++ [sv], hservices, hgone, ?_⟩
    exact List.rel_append hbefore (.cons { hm with ready := by rw [← hm.ready, hready] } .nil)
  | true =>
    have hrecord : record s.services (.setLast true cycle) =
        gone ++ (before ++ [sv.becomeReady cycle]) := by
      rw [record, if_pos rfl, hservices, ← List.append_assoc, List.modifyLast_concat,
        List.append_assoc]
    -- An instruction that becomes ready is in the cycle of its addition.
    have hlatency : ∀ type, (sv.becomeReady cycle).latency type = sv.latency type := by
      intro type
      cases hr : sv.readyAt with
      | some r => rw [becomeReady_of_ready (by rw [hr]; rfl)]
      | none =>
        have hadded : sv.added = cycle := by
          rw [← hm.servedCycle]
          rw [hm.ready, hr] at hlast
          simpa using hlast
        simp [Service.latency, Service.becomeReady, hr, hadded]
    rw [hrecord]
    refine ⟨?_, hdistinct, gone, before ++ [sv.becomeReady cycle], rfl, hgone, ?_⟩
    · have htotal : ∀ type, totalLatency type (gone ++ (before ++ [sv.becomeReady cycle])) =
          totalLatency type s.services := by
        intro type
        simp [hservices, totalLatency, hlatency]
      unfold Accounted
      rw [htotal, htotal]
      exact hs.accounted
    · refine List.rel_append hbefore (.cons { hm with ready := ?_ } .nil)
      simp [Service.becomeReady]

/-- **A call that counts no instruction twice** keeps the statistics the sums over the
instructions. -/
theorem step_sound {s s' : Account} {call : WindowCall} (hs : Sound s) (hgood : CountsOnce s call)
    (h : s.step call = .ok s') : Sound s' := by
  obtain ⟨stats, hstats, heq⟩ := Outcome.bind_eq_ok.mp h
  cases heq
  cases call with
  | addIns ins cycle =>
    cases hstats
    exact addIns_sound hs hgood
  | setReady b cycle =>
    cases hstats
    exact setReady_sound hs hgood
  | setLast ready cycle =>
    obtain ⟨w, hw, heq⟩ := Outcome.bind_eq_ok.mp hstats
    cases heq
    exact setLast_sound hs hgood hw
  | evicted n =>
    cases hstats
    exact evicted_sound hs n

end Account

open Transition Account

/-- **The latencies are accounted for** in every run whose calls count no instruction twice: the
statistics are the sums, over the read and over the write instructions, of the cycles from the
addition to the first cycle in which the instruction is ready. -/
theorem latencies_accounted (size : Int) (calls : List WindowCall) (s : Account)
    (hgood : Along Account.step CountsOnce (Account.init size) calls)
    (h : exec Account.step (Account.init size) calls = .ok s) : s.Accounted :=
  (exec_along (fun _ _ _ => step_sound) (sound_init size) hgood h).accounted

/-- A read of the block 64. -/
def readOf64 (ref : ℕ) : Instruction :=
  { ref := ref, type := .read, isMem := true, address := 64, blockAddr := 64 }

instance (s : Account) : ∀ call, Decidable (CountsOnce s call)
  | .addIns ins _ => inferInstanceAs (Decidable (∀ x ∈ s.stats.window.ins, x.ref ≠ ins.ref))
  | .setReady blockAddr cycle => inferInstanceAs (Decidable (∀ x ∈ s.stats.window.ins,
      x.waitsFor blockAddr = true → x.ready = true → x.servedCycle = cycle))
  | .setLast ready cycle => decidable_of_iff (∀ x ∈ s.stats.window.ins.getLast?,
      x.ready = ready ∨ ready = true ∧ x.servedCycle = cycle) Iff.rfl
  | .evicted _ => .isTrue trivial

/-- Two reads that one completion makes ready. -/
theorem latencies_accounted_two : ∃ s, exec Account.step (Account.init 4)
    [.addIns (readOf64 0) 3, .addIns (readOf64 1) 5, .setReady 64 10, .evicted 2] = .ok s ∧
    s.Accounted ∧ s.stats.totalRead = 12 := by
  obtain ⟨s, h, hread⟩ := Outcome.exists_of_map_eq_ok
    (x := exec Account.step (Account.init 4)
      [.addIns (readOf64 0) 3, .addIns (readOf64 1) 5, .setReady 64 10, .evicted 2])
    (f := fun s => s.stats.totalRead) (b := 12) (by decide +kernel)
  exact ⟨s, h, latencies_accounted 4 _ s (by decide +kernel) h, hread⟩

/-- A block that completes twice is counted twice. -/
theorem not_accounted_repeated : ¬ ∀ s, exec Account.step (Account.init 4)
    [.addIns (readOf64 0) 3, .setReady 64 10, .setReady 64 20] = .ok s → s.Accounted := by
  intro hall
  obtain ⟨s, h, htotals⟩ := Outcome.exists_of_map_eq_ok
    (x := exec Account.step (Account.init 4)
      [.addIns (readOf64 0) 3, .setReady 64 10, .setReady 64 20])
    (f := fun s => (s.stats.totalRead, totalLatency .read s.services)) (b := (24, 7))
    (by decide +kernel)
  have haccounted := (hall s h).1
  rw [Prod.mk.injEq] at htotals
  rw [htotals.1, htotals.2] at haccounted
  exact absurd haccounted (by decide)

end PIMSim
