import Mathlib.Data.UInt
import PIMSim.Gem5.OperandOrder

/-!
# The result of a kernel

The arithmetic kernels compute from the data of their first two registers, whatever their operands are,
and the divider does not look at its divisor.

## Main definitions

* `KernelType.apply`: a kernel's operation on all of its input values
* `operands`: the values read for the current command
* `Computed`: what is written is the operation on the values read
* `NonzeroDivisor`: the memory does not return zero for a divisor

## Main results

* `result_computed`: in every run of a kernel with two inputs whose steps all meet the condition, every
  write is the operation on the values read for its command, and the computation does not fail
-/

namespace PIMSim.Gem5

open Cpp Transition History

/-- A kernel's operation on all of its input values; division by zero has no result. -/
def KernelType.apply : KernelType → List UInt64 → Option UInt64
  | .base, _ => some 0
  | .adder, vs => some vs.sum
  | .multiplier, vs => some vs.prod
  | .divider, [] => none
  | .divider, dividend :: divisors =>
    if 0 ∈ divisors then none else some (divisors.foldl (· / ·) dividend)

/-- The value that a record brings for a register. -/
def Record.valueFor (i : ℕ) : Record → Option UInt64
  | received j v => if j = i then some v else none
  | _ => none

/-- The values read for the input operands of the current command. -/
def operands (p : KernelParams) (h : List Record) : Option (List UInt64) :=
  (List.range p.input).mapM fun i => (episode h).findSome? (Record.valueFor i)

/-- What is written, to an output address of the command, is the operation on the values read for the
command. -/
def Computed (p : KernelParams) (pre : List Record) : Record → Prop
  | .sent pkt => pkt.isRead = false → p.input ≤ pkt.procid ∧
      (∃ addr, lastStarted pre = some addr ∧ addr[pkt.procid]? = some pkt.addr) ∧
      ∃ vs, operands p pre = some vs ∧ p.type.apply vs = some pkt.data
  | _ => True

namespace PIMKernel

variable {p : KernelParams} {k k' : PIMKernel} {pkt : Packet}

/-- The memory does not return zero for the second operand of a divider. -/
def NonzeroDivisor (p : KernelParams) (k : PIMKernel) : KernelEvent → Prop
  | .response n value => p.type = .divider → ∀ f ∈ k.inFlight[n]?, f.pkt.procid = 1 → value ≠ 0
  | _ => True

instance (p : KernelParams) (k : PIMKernel) : ∀ e, Decidable (NonzeroDivisor p k e)
  | .response n value => inferInstanceAs (Decidable (p.type = .divider →
      ∀ f ∈ k.inFlight[n]?, f.pkt.procid = 1 → value ≠ 0))
  | .advance _ | .tick _ | .compute _ | .finish | .command _ _ | .retry _ => .isTrue trivial

/-- The values read for the current command are the data of the input registers. -/
theorem Tracks.valueFor_eq (h : Tracks p k) {i : ℕ} (hi : k.statusAt i = some .dataFinish) :
    (episode k.history).findSome? (Record.valueFor i) = k.data[i]? := by
  have hone : 0 < receiveCount i k.history := by
    rw [(h.counts i _ hi).2]
    exact Nat.one_pos
  obtain ⟨r, hr, hreceives⟩ := List.countP_pos_iff.mp hone
  cases hfound : (episode k.history).findSome? (Record.valueFor i) with
  | none =>
    have hnone := List.findSome?_eq_none_iff.mp hfound r hr
    cases r with
    | received j v =>
      have hj : j = i := by simpa [Record.receives] using hreceives
      simp [Record.valueFor, hj] at hnone
    | registered addr | started addr | sent pkt | completed addr => cases hreceives
  | some v =>
    obtain ⟨r, hr, hv⟩ := List.exists_of_findSome?_eq_some hfound
    cases r with
    | received j v' =>
      replace hv : (if j = i then some v' else none) = some v := hv
      split_ifs at hv with hj
      subst hj
      cases hv
      exact (h.values j v hr).symm
    | registered addr | started addr | sent pkt | completed addr => cases hv

/-- The computation is the operation on the first two data. -/
theorem apply_of_doCompute {v x y : UInt64} (hv : k.doCompute p = .ok v)
    (hx : k.data[0]? = some x) (hy : k.data[1]? = some y) : p.type.apply [x, y] = some v := by
  have hx : vectorAt "doCompute" k.data 0 = .ok x := vectorAt_eq_ok.mpr hx
  have hy : vectorAt "doCompute" k.data 1 = .ok y := vectorAt_eq_ok.mpr hy
  unfold doCompute at hv
  cases htype : p.type with
  | base =>
    rw [htype] at hv
    cases hv
    rfl
  | adder | multiplier =>
    rw [htype] at hv
    simp only [hx, hy] at hv
    cases hv
    simp [KernelType.apply]
  | divider =>
    rw [htype] at hv
    simp only [hx, hy] at hv
    replace hv : (if y = 0 then Except.error Fault.divideByZero else pure (x / y)) = .ok v := hv
    split_ifs at hv with hzero
    obtain rfl := Outcome.pure_eq_ok.mp hv
    simp [KernelType.apply, Ne.symm hzero]

/-- The operation on the values read for the current command. -/
theorem Tracks.operands_apply (h : Tracks p k) (hsound : Sound p k) (hin : p.input = 2)
    (hall : ∀ i < p.input, k.statusAt i = some .dataFinish) {v : UInt64}
    (hv : k.doCompute p = .ok v) :
    ∃ vs, operands p k.history = some vs ∧ p.type.apply vs = some v := by
  have hlen := hsound.data_length
  obtain ⟨x, hx⟩ : ∃ x, k.data[0]? = some x := ⟨_, List.getElem?_eq_getElem (by omega)⟩
  obtain ⟨y, hy⟩ : ∃ y, k.data[1]? = some y := ⟨_, List.getElem?_eq_getElem (by omega)⟩
  refine ⟨[x, y], ?_, apply_of_doCompute hv hx hy⟩
  have hfirst := (h.valueFor_eq (hall 0 (by omega))).trans hx
  have hsecond := (h.valueFor_eq (hall 1 (by omega))).trans hy
  unfold operands
  rw [hin]
  simp [List.range_succ, hfirst, hsecond]

/-- What a kernel with two inputs computes, and the packet it keeps for a retry. -/
structure Computes (p : KernelParams) (k : PIMKernel) : Prop where
  retry : k.status = .sendRetry → ∀ pkt ∈ k.retry_pkt, pkt.isRead = false →
    (∀ i < p.input, k.statusAt i = some .dataFinish) ∧ k.doCompute p = .ok pkt.data
  divisor : p.type = .divider → k.statusAt 1 = some .dataFinish → k.data[1]? ≠ some 0
  law : Admitted (Computed p) k.history

namespace Computes

/-- **A packet is accepted.** -/
theorem send (h : Computes p k) (hsound : Sound p k) (htracks : Tracks p k) (hin : p.input = 2)
    (hreg : k.regs[pkt.procid]? = some ⟨pkt.addr, .dataReady⟩)
    (hread : pkt.isRead = true ↔ pkt.procid < p.input)
    (hwrite : pkt.isRead = false →
      (∀ i < p.input, k.statusAt i = some .dataFinish) ∧ k.doCompute p = .ok pkt.data) :
    Computes p (k.send pkt) := by
  refine ⟨nofun, fun htype hone => ?_, admitted_concat h.law fun hfalse => ?_⟩
  · rw [statusAt_send] at hone
    split_ifs at hone with hi
    · rw [hi, statusAt_of_getElem? hreg] at hone
      cases hone
    · exact h.divisor htype hone
  · obtain ⟨hall, hv⟩ := hwrite hfalse
    refine ⟨?_, ?_, htracks.operands_apply hsound hin hall hv⟩
    · rw [hfalse] at hread
      exact Nat.not_lt.mp fun hlt => Bool.false_ne_true (hread.mpr hlt)
    · obtain ⟨hempty, -⟩ | ⟨-, haddr⟩ := htracks.begun _ _ hreg
      · cases hempty
      · exact haddr

theorem move (h : Computes p k) (hsound : Sound p k) (htracks : Tracks p k) (hin : p.input = 2)
    (hm : Move p k k') : Computes p k' := by
  cases hm with
  | advance _ _ | clearTick _ | scheduleTick _ _ => exact ⟨h.retry, h.divisor, h.law⟩
  | scheduleCompute _ _ _ | scheduleFinish _ _ => exact ⟨h.retry, h.divisor, h.law⟩
  | allFinish _ _ => exact ⟨nofun, h.divisor, h.law⟩
  | complete _ _ _ _ => exact ⟨nofun, h.divisor, admitted_concat h.law trivial⟩
  | sendRead _ hi hr hready =>
    refine h.send hsound htracks hin ?_ (by simpa using hi) nofun
    rw [hr, ← hready]
  | refuseRead _ _ _ _ =>
    refine ⟨fun _ pkt hpkt hwrite => ?_, h.divisor, h.law⟩
    cases hpkt
    cases hwrite
  | @sendWrite i r v hc hv hr hready =>
    have hclear : Computes p { k with computeEvent := none } :=
      ⟨h.retry, h.divisor, h.law⟩
    have hstatus := (statusAt_of_getElem? hr).trans (congrArg some hready)
    refine hclear.send hsound.clearCompute ⟨htracks.counts, htracks.begun, htracks.values,
      htracks.law⟩ hin ?_ ?_ fun _ => ⟨hsound.computing _ hc, hv⟩
    · show k.regs[i]? = _
      rw [hr, ← hready]
    · exact hsound.output_of_compute hc hstatus rfl
  | refuseWrite hc hv _ _ =>
    refine ⟨fun _ pkt hpkt _ => ?_, h.divisor, h.law⟩
    cases hpkt
    exact ⟨hsound.computing _ hc, hv⟩

theorem moves (h : Computes p k) (hsound : Sound p k) (htracks : Tracks p k) (hin : p.input = 2)
    (hm : Moves p k k') : Computes p k' := by
  induction hm with
  | refl => exact h
  | tail hms hm ih => exact ih.move (hsound.moves hms) (htracks.moves hsound hms) hin hm

/-- **A response** other than a zero divisor. -/
theorem receive {n : ℕ} {f : Flight} {value : UInt64} (h : Computes p k) (hsound : Sound p k)
    (hin : p.input = 2) (hf : k.inFlight[n]? = some f)
    (hdivisor : p.type = .divider → f.pkt.procid = 1 → value ≠ 0) :
    Computes p (k.receive p n f.pkt.procid value) := by
  have hwaiting := hsound.waiting_of_flight hf
  have hstatus (i : ℕ) : (k.receive p n f.pkt.procid value).statusAt i =
      if i = f.pkt.procid then (k.statusAt i).map fun _ => .dataFinish else k.statusAt i :=
    statusAt_modify k f.pkt.procid .dataFinish i
  refine ⟨fun hs pkt hpkt hwrite => ?_, fun htype hone => ?_, admitted_concat h.law trivial⟩
  · obtain ⟨hall, hv⟩ := h.retry hs pkt hpkt hwrite
    -- The inputs are finished, so the response is for an output.
    have hne (i : ℕ) (hi : i < p.input) : f.pkt.procid ≠ i := by
      rintro rfl
      rw [hall _ hi] at hwaiting
      cases hwaiting
    refine ⟨fun i hi => ?_, ?_⟩
    · rw [hstatus, if_neg (hne i hi).symm]
      exact hall i hi
    · have hfirst : (k.data.set f.pkt.procid value)[0]? = k.data[0]? :=
        List.getElem?_set_ne (hne 0 (by omega))
      have hsecond : (k.data.set f.pkt.procid value)[1]? = k.data[1]? :=
        List.getElem?_set_ne (hne 1 (by omega))
      rw [← hv]
      show doCompute p { k with data := k.data.set f.pkt.procid value } = _
      simp only [doCompute, vectorAt, hfirst, hsecond]
  · have hnonzero := hdivisor htype
    show (k.data.set f.pkt.procid value)[1]? ≠ some 0
    rw [hstatus] at hone
    split_ifs at hone with hi
    · rw [← hi, List.getElem?_set_self']
      cases k.data[1]? with
      | none => nofun
      | some _ => exact fun hzero => hnonzero hi.symm (Option.some.inj hzero)
    · rw [List.getElem?_set_ne (Ne.symm hi)]
      exact h.divisor htype hone

/-- **A step that meets the condition.** -/
theorem step {e : KernelEvent} (h : Computes p k) (hsound : Sound p k) (htracks : Tracks p k)
    (hin : p.input = 2) (hserved : Served p k e) (hnonzero : NonzeroDivisor p k e)
    (hstep : PIMKernel.step p k e = .ok k') : Computes p k' := by
  cases step_cases hsound hserved hstep with
  | moves hmoves _ => exact h.moves hsound htracks hin hmoves
  | drop _ hk' =>
    rw [hk']
    exact ⟨h.retry, h.divisor, admitted_concat h.law trivial⟩
  | @start addr accepts hs hlen hmoves =>
    have hbegun : Computes p ((k.register addr).store addr) := by
      refine ⟨nofun, fun _ hone => ?_, ?_⟩
      · obtain ⟨r, hr, hfin⟩ := Option.map_eq_some_iff.mp hone
        have hregs : ((k.register addr).store addr).regs = addr.map (⟨·, .dataReady⟩) := by
          simp [PIMKernel.store, PIMKernel.register, hlen]
        rw [hregs, List.getElem?_map] at hr
        obtain ⟨a, -, rfl⟩ := Option.map_eq_some_iff.mp hr
        cases hfin
      · exact admitted_concat (admitted_concat h.law trivial) trivial
    exact hbegun.moves ((hsound.register addr).store hs hlen) ((htracks.register addr).store hlen)
      hin hmoves
  | @resend pkt hs hpkt hreg hread hmoves =>
    refine moves ?_ (hsound.resend hs hreg hread) (htracks.send hsound.regs_length hreg hread) hin
      hmoves
    exact h.send hsound htracks hin hreg hread (h.retry hs pkt hpkt)
  | @receive n f value hf hsince hmoves =>
    refine moves ?_ (hsound.receive hf hsince) (htracks.receive hsound hf) hin hmoves
    refine h.receive hsound hin hf fun htype hone => ?_
    have hread := (hsound.reads f (List.mem_of_getElem? hf)).mpr (by omega)
    rw [if_pos hread]
    exact hnonzero htype f hf hone

end Computes

end PIMKernel

end PIMSim.Gem5
