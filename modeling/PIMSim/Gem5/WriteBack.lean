import PIMSim.Gem5.OperandOrder

/-!
# The write-back of a kernel

A refused write is kept for the retry, and the computation that made it is scheduled again too. When
the memory takes the packet at the retry, the computation that is left over finds no register to
write, and accesses the registers past their end.

## Main definitions

* `RetrySafe`: a retry that is accepted leaves a register for the scheduled computation
* `WritesOnce`: an output register is written once for each command

## Main results

* `Waiting.step`: the steps that meet the condition leave a register for a scheduled computation
* `write_back_once`: in every run whose steps all meet the condition, each output register is written
  once for each command and the computation stays within the registers
-/

namespace PIMSim.Gem5

open Cpp Transition History

namespace PIMKernel

variable {p : KernelParams} {k k' : PIMKernel} {pkt : Packet}

/-- A retry is accepted only when no computation is scheduled, or when another register than the
refused packet's waits to be sent. -/
def RetrySafe (k : PIMKernel) : KernelEvent → Prop
  | .retry true => k.computeEvent = none ∨ ∀ pkt ∈ k.retry_pkt,
      ∃ i ∈ List.range k.regs.length, i ≠ pkt.procid ∧ k.statusAt i = some .dataReady
  | _ => True

instance (k : PIMKernel) : ∀ e, Decidable (RetrySafe k e)
  | .retry true => inferInstanceAs (Decidable (k.computeEvent = none ∨ ∀ pkt ∈ k.retry_pkt,
      ∃ i ∈ List.range k.regs.length, i ≠ pkt.procid ∧ k.statusAt i = some .dataReady))
  | .advance _ | .tick _ | .compute _ | .finish | .command _ _ | .retry false | .response _ _ =>
    .isTrue trivial

/-- A scheduled computation has a register to write. -/
def Waiting (k : PIMKernel) : Prop :=
  k.computeEvent ≠ none → ∃ i, k.statusAt i = some .dataReady

namespace Waiting

theorem move (h : Waiting k) (hsound : Sound p k) (hm : Move p k k') : Waiting k' := by
  cases hm with
  | advance _ _ | clearTick _ | scheduleTick _ _ | refuseRead _ _ _ _ => exact h
  | allFinish _ _ | scheduleFinish _ _ | complete _ _ _ _ => exact h
  | sendRead _ hi hr hready =>
    intro hc
    apply absurd _ hc
    apply hsound.computeEvent_eq_none hi
    rw [statusAt_of_getElem? hr, hready]
    nofun
  | scheduleCompute _ hready _ => exact fun _ => ⟨_, hready⟩
  | sendWrite _ _ _ _ => exact fun hc => absurd rfl hc
  | refuseWrite _ _ hr hready => exact fun _ => ⟨_, (statusAt_of_getElem? hr).trans (by rw [hready])⟩

theorem moves (h : Waiting k) (hsound : Sound p k) (hm : Moves p k k') : Waiting k' := by
  induction hm with
  | refl => exact h
  | tail hms hm ih => exact ih.move (hsound.moves hms) hm

/-- **A step that meets the condition** leaves a register for a scheduled computation. -/
theorem step {e : KernelEvent} (h : Waiting k) (hsound : Sound p k) (hserved : Served p k e)
    (hsafe : RetrySafe k e) (hstep : PIMKernel.step p k e = .ok k') : Waiting k' := by
  cases step_cases hsound hserved hstep with
  | moves hmoves _ => exact h.moves hsound hmoves
  | drop _ hk' =>
    rw [hk']
    exact h
  | start hs hlen hmoves =>
    refine moves ?_ ((hsound.register _).store hs hlen) hmoves
    exact fun hc => absurd (hsound.resting hs).2.1 hc
  | @receive n f value hf hsince hmoves =>
    refine moves ?_ (hsound.receive hf hsince) hmoves
    intro hc
    obtain ⟨i, hi⟩ := h hc
    refine ⟨i, (statusAt_modify k f.pkt.procid .dataFinish i).trans ?_⟩
    rw [if_neg]
    · exact hi
    · rintro rfl
      rw [hsound.waiting_of_flight hf] at hi
      cases hi
  | @resend pkt hs hpkt hreg hread hmoves =>
    refine moves ?_ (hsound.resend hs hreg hread) hmoves
    intro hc
    rcases hsafe with hnone | hother
    · exact absurd hnone hc
    · obtain ⟨i, -, hne, hi⟩ := hother pkt hpkt
      refine ⟨i, ?_⟩
      rw [statusAt_send, if_neg hne]
      exact hi

end Waiting

end PIMKernel

/-- The packets of the output registers: each is a write to the command's address for the register and
the only packet of the register for this command, and a command that is reported complete has sent
them all. -/
def WritesOnce (p : KernelParams) (pre : List Record) : Record → Prop
  | .sent pkt => (pkt.isRead = false ↔ p.input ≤ pkt.procid) ∧ sendCount pkt.procid pre = 0 ∧
      ∃ addr, lastStarted pre = some addr ∧ addr[pkt.procid]? = some pkt.addr
  | .completed _ => ∀ i, p.input ≤ i → i < p.input + p.output → sendCount i pre = 1
  | _ => True

theorem PIMKernel.Tracks.writesOnce {p : KernelParams} {k : PIMKernel} (h : Tracks p k) :
    Admitted (WritesOnce p) k.history := by
  intro pre e post heq
  have hlaw := h.law pre e post heq
  cases e with
  | sent pkt =>
    obtain ⟨-, hread, hzero, haddr⟩ := hlaw
    refine ⟨?_, hzero, haddr⟩
    rw [← Nat.not_lt, ← hread, Bool.not_eq_true]
  | completed addr => exact fun i _ hi => (hlaw i hi).1
  | received i v | registered addr | started addr => trivial

open PIMKernel in
/-- **The write-back.** In every run whose commands have one address for each register, and whose
accepted retries leave a register for a scheduled computation, the computation stays within the
registers, and each output register is written once for each command. -/
theorem write_back_once {p : KernelParams} {es : List KernelEvent}
    (hes : Along (step p) (fun k e => Served p k e ∧ RetrySafe k e) (create p) es) :
    exec (step p) (create p) es ≠ .error (.outOfRange "trycompute") ∧
      ∀ k, exec (step p) (create p) es = .ok k → Admitted (WritesOnce p) k.history := by
  let I (k : PIMKernel) : Prop := Sound p k ∧ Tracks p k ∧ Waiting k
  have hinit : I (create p) := ⟨sound_create p, tracks_create p, fun hc => absurd rfl hc⟩
  have hstep (k : PIMKernel) (e : KernelEvent) (k' : PIMKernel) (h : I k)
      (hgood : Served p k e ∧ RetrySafe k e) (hk' : step p k e = .ok k') : I k' := by
    obtain ⟨hsound, htracks, hwaiting⟩ := h
    obtain ⟨hserved, hsafe⟩ := hgood
    exact ⟨hsound.step hserved hk', htracks.step hsound hserved hk',
      hwaiting.step hsound hserved hsafe hk'⟩
  constructor
  · intro hrun
    refine exec_along_error (P := fun f => f ≠ .outOfRange "trycompute") hstep ?_ hinit hes hrun rfl
    rintro k e f ⟨hsound, -, hwaiting⟩ ⟨⟨hposs, -⟩, -⟩ hf rfl
    rcases step_error hf with ⟨b, rfl, hf⟩ | hf | ⟨name, hname, hf⟩
    · rcases trycompute_error hf with hf | hf | ⟨-, hnone⟩
      · rcases doCompute_error hf with ⟨hf, -⟩ | ⟨hf, -⟩ <;> simp at hf
      · cases hf
      · obtain ⟨i, hi⟩ := hwaiting (by rw [show k.computeEvent = some k.curTick from hposs]; nofun)
        exact hnone i hi
    · cases hf
    · cases hf
      simp at hname
  · intro k hrun
    exact (exec_along hstep hinit hes hrun).2.1.writesOnce

open PIMKernel in
/-- A write that is refused once, when the computation is still scheduled while it is sent again. -/
theorem write_back_once_retry :
    let es : List KernelEvent := [.command [100, 200, 300] true, .advance 10, .tick true,
      .advance 20, .response 0 5, .response 0 7, .tick true, .advance 30, .tick true, .compute false,
      .advance 35, .retry false, .advance 40, .tick true, .compute true, .advance 45, .response 0 0,
      .advance 60, .tick true, .advance 70, .finish]
    ∃ k, exec (step smallAdder) (create smallAdder) es = .ok k ∧
      .completed [100, 200, 300] ∈ k.history ∧ Admitted (WritesOnce smallAdder) k.history := by
  intro es
  have hes : Along (step smallAdder) (fun k e => Served smallAdder k e ∧ RetrySafe k e)
      (create smallAdder) es := by
    decide +kernel
  have hend : (exec (step smallAdder) (create smallAdder) es).map
      (fun k => decide (.completed [100, 200, 300] ∈ k.history)) = .ok true := by
    decide +kernel
  obtain ⟨k, hk, hcompleted⟩ := Outcome.exists_of_map_eq_ok hend
  exact ⟨k, hk, of_decide_eq_true hcompleted, (write_back_once hes).2 k hk⟩

open PIMKernel in
/-- The memory refuses the sum and takes it at the retry; the computation that was scheduled again
then accesses the registers past their end. -/
theorem not_write_back_once :
    let es : List KernelEvent := [.command [100, 200, 300] true, .advance 10, .tick true,
      .advance 20, .response 0 5, .response 0 7, .tick true, .advance 30, .tick true, .compute false,
      .advance 35, .retry true, .advance 40, .compute true]
    Along (step smallAdder) (Served smallAdder) (create smallAdder) es ∧
      exec (step smallAdder) (create smallAdder) es = .error (.outOfRange "trycompute") := by
  decide +kernel

end PIMSim.Gem5
