import PIMSim.HMC.Responses
import PIMSim.HMC.Links
import PIMSim.Library.Run

/-!
# Pending responses

A bank keeps the response to a request while it works. When its delay is over, the response goes to the
lowest free slot of the response queue, or waits for another cycle. Until then the delay is not zero, so
that no other request is served by the bank.

Flow control is served before the bank of a packet is decoded. It works on the first bank, busy or not,
and the response that is kept there is lost.

## Main definitions

* `Vault.updateBank`, `Vault.bankUpdate`: the delays of the banks
* `Vault.serve`, `Vault.rwOps`: the service of the slots
* `VaultEvent`, `Vault.step`: what happens to a vault
* `Vault.Pending`: a bank that keeps a response
* `Vault.Keeps`: an event leaves the pending responses, or passes them on
* `Vault.Spares`: no flow control is served while the first bank keeps a response

## Main results

* `Vault.keeps_iff`: the events that keep the pending responses
* `Vault.along_keeps_iff`: the runs in which no response is lost
-/

namespace PIMSim.HMC

open CSharp Fields Transition

variable {c : Cube}

namespace Vault

/-- The turn of a bank in `hmcsim_clock_bank_update`. -/
def updateBank (v : Vault c) (b : Fin c.numBanks) : Vault c :=
  let bank := v.banks.get b
  if 0 < bank.delay then
    let bank := { bank with delay := bank.delay - 1 }
    if bank.delay = 0 ∧ bank.valid = .valid then
      match lastFound v.rspQueue .invalid with
      | some slot =>
        { v with rspQueue := v.rspQueue.set slot ⟨.valid, bank.packet⟩, banks := v.banks.set b {} }
      | none => { v with banks := v.banks.set b { bank with delay := 1 } }
    else { v with banks := v.banks.set b bank }
  else v

/-- `hmcsim_clock_bank_update` on a vault. -/
def bankUpdate (v : Vault c) : Vault c := (List.finRange c.numBanks).foldl updateBank v

/-- The turn of a slot in `hmcsim_clock_rw_ops`. -/
def serve (addressConfig : UInt64) (cmcs : Vector HmcCmc maxCmc) (v : Vault c) (slot : ℕ) :
    Outcome (Vault c) := do
  let queue ← access .argumentOutOfRange v.rqstQueue slot
  if queue.valid ≠ .invalid ∧ queue.valid ≠ .conflict then
    let (_, v) ← v.processRqst addressConfig cmcs slot
    return v
  else return v

/-- `hmcsim_clock_rw_ops` on a vault. -/
def rwOps (addressConfig : UInt64) (cmcs : Vector HmcCmc maxCmc) (v : Vault c) : Outcome (Vault c) :=
  (List.range c.queueDepth).foldlM (serve addressConfig cmcs) v

/-- The vault after `hmcsim_init`. -/
def start (c : Cube) : Vault c where
  rqstQueue := Vector.replicate _ .zero
  rspQueue := Vector.replicate _ .zero
  banks := Vector.replicate _ {}

end Vault

/-- What happens to a vault: its banks go on, a slot has its turn, or the rest of the simulator puts
packets into its queues, takes packets out of them and moves them. -/
inductive VaultEvent (c : Cube)
  | update
  | serve (addressConfig : UInt64) (cmcs : Vector HmcCmc maxCmc) (slot : ℕ)
  | queues (rqstQueue rspQueue : Vector HmcQueue c.queueDepth)

namespace Vault

def step (v : Vault c) : VaultEvent c → Outcome (Vault c)
  | .update => .ok v.bankUpdate
  | .serve addressConfig cmcs slot => v.serve addressConfig cmcs slot
  | .queues rqstQueue rspQueue => .ok { v with rqstQueue, rspQueue }

/-- The bank keeps a response. -/
def Pending (v : Vault c) (b : Fin c.numBanks) : Prop := (v.banks.get b).valid = .valid

/-- The response is in the response queue. -/
def Passed (v : Vault c) (packet : Words) : Prop := ∃ slot, v.rspQueue.get slot = ⟨.valid, packet⟩

/-- The bank keeps its response, or has passed it on. -/
def Holds (v v' : Vault c) (b : Fin c.numBanks) : Prop :=
  v'.Pending b ∧ (v'.banks.get b).packet = (v.banks.get b).packet ∨ v'.Passed (v.banks.get b).packet

/-- Only the update of the banks changes a bank that keeps a response, and the response is not lost. -/
def Keeps (v : Vault c) (e : VaultEvent c) : Prop :=
  ∀ v', v.step e = .ok v' → ∀ b, v.Pending b →
    match e with
    | .update => v.Holds v' b
    | .serve _ _ _ | .queues _ _ => v'.banks.get b = v.banks.get b

/-- The first bank. -/
def firstBank (c : Cube) : Fin c.numBanks := ⟨0, c.numBanks_pos⟩

/-- The slot holds flow control that is to be served. -/
def FlowControl (v : Vault c) (slot : ℕ) : Prop :=
  ∃ queue, v.rqstQueue[slot]? = some queue ∧ queue.valid ≠ .invalid ∧ queue.valid ≠ .conflict ∧
    queue.request.cmd = 0

/-- No flow control is served while the first bank keeps a response. -/
def Spares (v : Vault c) : VaultEvent c → Prop
  | .serve _ _ slot => v.FlowControl slot → ¬ v.Pending (firstBank c)
  | .update | .queues _ _ => True

/-- A bank that keeps a response works. -/
def Working (v : Vault c) : Prop := ∀ b, v.Pending b → 0 < (v.banks.get b).delay

/-! ### One bank changes -/

variable {v v' : Vault c} {slot bank latency bsize : ℕ} {q : Request} {queue : HmcQueue}
  {cmcs : Vector HmcCmc maxCmc} {addressConfig : UInt64}

theorem get_set {α : Type} {n : ℕ} (xs : Vector α n) {i : ℕ} (hi : i < n) (x : α) (j : Fin n) :
    (xs.set i x).get j = if i = j.val then x else xs.get j :=
  Vector.getElem_set hi j.isLt

/-- Only a bank changes, which has no response afterwards or works. -/
def Turns (v v' : Vault c) (bank : ℕ) : Prop :=
  ∀ b : Fin c.numBanks, v'.banks.get b = v.banks.get b ∨
    b.val = bank ∧ (v'.Pending b → 0 < (v'.banks.get b).delay)

theorem turns_of_eq (h : v'.banks = v.banks) (bank : ℕ) : v.Turns v' bank := by
  intro b
  left
  rw [h]

theorem turns_of_set (hbank : bank < c.numBanks) {x : HmcBank} (h : v'.banks = v.banks.set bank x)
    (hx : x.valid = .valid → 0 < x.delay) : v.Turns v' bank := by
  intro b
  unfold Pending
  rw [h, get_set v.banks hbank]
  by_cases hb : bank = b.val
  · rw [if_pos hb]
    exact Or.inr ⟨hb.symm, hx⟩
  · exact Or.inl (if_neg hb)

theorem Turns.working (h : v.Turns v' bank) (hv : v.Working) : v'.Working := by
  intro b hpending
  rcases h b with heq | ⟨-, hb⟩
  · unfold Pending at hpending
    rw [heq] at hpending ⊢
    exact hv b hpending
  · exact hb hpending

/-- The bank that changes is the one of the index. -/
theorem Turns.eq_of_ne (h : v.Turns v' bank) {b : Fin c.numBanks} (hb : b.val ≠ bank) :
    v'.banks.get b = v.banks.get b := by
  rcases h b with heq | ⟨hbank, -⟩
  · exact heq
  · exact absurd hbank hb

/-! ### Services -/

/-- The operations of a request change its bank only. -/
theorem turns_perform {code : Int} (hbank : bank < c.numBanks) (hslot : slot < c.queueDepth)
    (h : v.perform cmcs slot bank bsize queue q = .ok (code, v')) : v.Turns v' bank := by
  unfold perform at h
  split at h
  · next rspCmd n latency _ =>
    obtain ⟨packet, -, h⟩ := Outcome.bind_eq_ok.mp h
    obtain ⟨w, hw, h⟩ := Outcome.bind_eq_ok.mp h
    have hlatency : latency ≠ 0 := by
      rintro rfl
      cases hw
    rw [respond_eq_ok hbank hlatency, Except.ok.injEq] at hw
    subst hw
    rw [clearSlot_eq_ok hslot] at h
    cases h
    exact turns_of_set hbank rfl fun _ => Nat.pos_of_ne_zero hlatency
  · next latency _ =>
    rw [keepBusy_eq_ok hbank, Outcome.ok_bind, clearSlot_eq_ok hslot] at h
    cases h
    refine turns_of_set hbank rfl fun hvalid => ?_
    cases hvalid
  · obtain ⟨-, -, h⟩ := Outcome.bind_eq_ok.mp h
    obtain ⟨-, -, h⟩ := Outcome.bind_eq_ok.mp h
    cases h
    exact turns_of_eq rfl bank

/-- Flow control works on the first bank. -/
theorem processRqst_flow (hslot : slot < c.queueDepth) (hqueue : v.rqstQueue[slot] = queue)
    (hcmd : queue.request.cmd = 0) :
    v.processRqst addressConfig cmcs slot = .ok (0, {
      rqstQueue := v.rqstQueue.set slot .zero
      rspQueue := v.rspQueue
      banks := v.banks.set 0 { v.banks.get (firstBank c) with valid := .invalid, delay := 0 }
        c.numBanks_pos }) := by
  have hfirst : 0 < maxUqPacket := by decide
  unfold processRqst
  rw [access_of_lt hslot, Outcome.ok_bind, hqueue, access_of_lt hfirst, Outcome.ok_bind]
  change (if queue.request.cmd = 0 then _ else _) = _
  rw [if_pos hcmd, keepBusy_eq_ok c.numBanks_pos, Outcome.ok_bind, clearSlot_eq_ok hslot]
  rfl

/-- **A service without flow control** leaves every bank that works, and changes one bank at most. -/
theorem turns_processRqst {code : Int} (hslot : slot < c.queueDepth)
    (hqueue : v.rqstQueue[slot] = queue) (hcmd : queue.request.cmd ≠ 0)
    (h : v.processRqst addressConfig cmcs slot = .ok (code, v')) :
    v'.banks = v.banks ∨ ∃ b : Fin c.numBanks, (v.banks.get b).delay = 0 ∧ v.Turns v' b := by
  have htail := lastWord_lt_of_processRqst hslot hqueue hcmd h
  rw [processRqst_eq hslot hqueue htail, if_neg hcmd] at h
  by_cases hbusy : 0 < (v.bankOf addressConfig queue.request).delay
  · rw [if_pos hbusy] at h
    cases h
    exact Or.inl rfl
  · rw [if_neg hbusy] at h
    have hbank := decodeBank_lt c (maxBlocksize addressConfig) queue.request.addr
    exact Or.inr ⟨⟨_, hbank⟩, Nat.eq_zero_of_not_pos hbusy, turns_perform hbank hslot h⟩

/-- A slot that is not served. -/
theorem serve_cases (h : v.serve addressConfig cmcs slot = .ok v') :
    v' = v ∨ ∃ (hslot : slot < c.queueDepth) (code : Int),
      v.rqstQueue[slot].valid ≠ .invalid ∧ v.rqstQueue[slot].valid ≠ .conflict ∧
        v.processRqst addressConfig cmcs slot = .ok (code, v') := by
  unfold serve at h
  obtain ⟨queue, hqueue, h⟩ := Outcome.bind_eq_ok.mp h
  obtain ⟨hslot, rfl⟩ := access_eq_ok.mp hqueue
  split_ifs at h with hvalid
  · obtain ⟨⟨code, w⟩, hw, h⟩ := Outcome.bind_eq_ok.mp h
    cases h
    exact Or.inr ⟨hslot, code, hvalid.1, hvalid.2, hw⟩
  · cases h
    exact Or.inl rfl

theorem serve_of_valid (hslot : slot < c.queueDepth) (hqueue : v.rqstQueue[slot] = queue)
    (hvalid : queue.valid ≠ .invalid) (hconflict : queue.valid ≠ .conflict) :
    v.serve addressConfig cmcs slot = (v.processRqst addressConfig cmcs slot).map Prod.snd := by
  unfold serve
  rw [access_of_lt hslot, Outcome.ok_bind, hqueue, if_pos ⟨hvalid, hconflict⟩]
  cases v.processRqst addressConfig cmcs slot with
  | ok r => rfl
  | error f => rfl

/-! ### The banks go on -/

/-- The turn of a bank. -/
theorem updateBank_cases (v : Vault c) (b : Fin c.numBanks) :
    v.updateBank b = v ∨
      (∃ bank : HmcBank, (bank.valid = .valid → 0 < bank.delay) ∧
        bank.valid = (v.banks.get b).valid ∧ bank.packet = (v.banks.get b).packet ∧
        v.updateBank b = { v with banks := v.banks.set b bank }) ∨
      v.Pending b ∧ ∃ slot : Fin c.queueDepth, (v.rspQueue.get slot).valid = .invalid ∧
        v.updateBank b = { v with
          rspQueue := v.rspQueue.set slot ⟨.valid, (v.banks.get b).packet⟩
          banks := v.banks.set b {} } := by
  unfold updateBank
  dsimp only
  split_ifs with hdelay hdone
  · right
    split
    · next slot hslot =>
      right
      refine ⟨hdone.2, slot, ?_, rfl⟩
      rw [lastFound_eq] at hslot
      have hfree := List.find?_some hslot
      exact of_decide_eq_true hfree
    · left
      exact ⟨{ v.banks.get b with delay := 1 }, fun _ => Nat.one_pos, rfl, rfl, rfl⟩
  · right
    left
    refine ⟨{ v.banks.get b with delay := (v.banks.get b).delay - 1 }, ?_, rfl, rfl, rfl⟩
    intro hvalid
    exact Nat.pos_of_ne_zero fun hzero => hdone ⟨hzero, hvalid⟩
  · exact Or.inl rfl

theorem turns_updateBank (v : Vault c) (b : Fin c.numBanks) : v.Turns (v.updateBank b) b := by
  rcases v.updateBank_cases b with heq | ⟨bank, hbank, -, -, heq⟩ | ⟨-, slot, -, heq⟩
  · exact turns_of_eq (by rw [heq]) b
  · rw [heq]
    exact turns_of_set b.isLt rfl hbank
  · rw [heq]
    refine turns_of_set b.isLt rfl fun hvalid => ?_
    cases hvalid

/-- A response that has been passed on stays. -/
theorem Passed.updateBank {packet : Words} (h : v.Passed packet) (b : Fin c.numBanks) :
    (v.updateBank b).Passed packet := by
  rcases v.updateBank_cases b with heq | ⟨bank, -, -, -, heq⟩ | ⟨-, slot, hslot, heq⟩
  · rwa [heq]
  · rwa [heq]
  · rw [heq]
    obtain ⟨i, hi⟩ := h
    refine ⟨i, ?_⟩
    change (v.rspQueue.set slot _).get i = _
    rw [get_set v.rspQueue slot.isLt, if_neg ?_]
    · exact hi
    · -- the slot was free
      intro heq
      rw [Fin.ext heq, hi] at hslot
      cases hslot

/-- A bank that keeps a response keeps it, or passes it on. -/
theorem holds_updateBank {b : Fin c.numBanks} (h : v.Pending b) (turn : Fin c.numBanks) :
    v.Holds (v.updateBank turn) b := by
  by_cases hturn : b.val = turn.val
  · obtain rfl := Fin.ext hturn
    rcases v.updateBank_cases b with heq | ⟨bank, -, hvalid, hpacket, heq⟩ | ⟨-, slot, -, heq⟩
    · rw [heq]
      exact Or.inl ⟨h, rfl⟩
    · rw [heq]
      left
      unfold Pending
      change ((v.banks.set b bank).get b).valid = _ ∧ ((v.banks.set b bank).get b).packet = _
      rw [get_set v.banks b.isLt, if_pos rfl]
      exact ⟨hvalid.trans h, hpacket⟩
    · rw [heq]
      right
      refine ⟨slot, ?_⟩
      change (v.rspQueue.set slot _).get slot = _
      rw [get_set v.rspQueue slot.isLt, if_pos rfl]
  · have hsame := (v.turns_updateBank turn).eq_of_ne hturn
    left
    unfold Pending
    rw [hsame]
    exact ⟨h, rfl⟩

theorem Holds.updateBank {b : Fin c.numBanks} (h : v.Holds v' b) (turn : Fin c.numBanks) :
    v.Holds (v'.updateBank turn) b := by
  rcases h with ⟨hpending, hpacket⟩ | hpassed
  · unfold Holds
    rw [← hpacket]
    exact holds_updateBank hpending turn
  · exact Or.inr (hpassed.updateBank turn)

/-- **The update of the banks** loses no response. -/
theorem holds_bankUpdate {b : Fin c.numBanks} (h : v.Pending b) : v.Holds v.bankUpdate b := by
  unfold bankUpdate
  refine List.foldlRecOn _ _ (motive := fun w => v.Holds w b) (Or.inl ⟨h, rfl⟩) ?_
  intro w hw turn _
  exact hw.updateBank turn

theorem Working.bankUpdate (h : v.Working) : v.bankUpdate.Working := by
  unfold Vault.bankUpdate
  refine List.foldlRecOn _ _ (motive := Working) h ?_
  intro w hw turn _
  exact (w.turns_updateBank turn).working hw

/-! ### Runs -/

theorem Working.step {e : VaultEvent c} (h : v.Working) (hstep : v.step e = .ok v') : v'.Working := by
  cases e with
  | update =>
    cases hstep
    exact h.bankUpdate
  | queues rqstQueue rspQueue =>
    cases hstep
    exact h
  | serve addressConfig cmcs slot =>
    rcases serve_cases hstep with rfl | ⟨hslot, code, -, -, hserved⟩
    · exact h
    · by_cases hcmd : v.rqstQueue[slot].request.cmd = 0
      · rw [processRqst_flow hslot rfl hcmd] at hserved
        cases hserved
        refine (turns_of_set c.numBanks_pos rfl fun hvalid => ?_).working h
        cases hvalid
      · rcases turns_processRqst hslot rfl hcmd hserved with heq | ⟨b, -, hturns⟩
        · exact (turns_of_eq heq 0).working h
        · exact hturns.working h

theorem working_start (c : Cube) : (start c).Working := by
  intro b hpending
  unfold Pending at hpending
  rw [show (start c).banks.get b = {} from Vector.getElem_replicate b.isLt] at hpending
  cases hpending

/-- Flow control takes the response of the first bank. -/
theorem not_keeps_flow (hflow : v.FlowControl slot) (hpending : v.Pending (firstBank c)) :
    ¬ v.Keeps (.serve addressConfig cmcs slot) := by
  obtain ⟨queue, hqueue, hvalid, hconflict, hcmd⟩ := hflow
  obtain ⟨hslot, hqueue⟩ := Vector.getElem?_eq_some_iff.mp hqueue
  have hstep : v.step (.serve addressConfig cmcs slot) = .ok {
      rqstQueue := v.rqstQueue.set slot .zero
      rspQueue := v.rspQueue
      banks := v.banks.set 0 { v.banks.get (firstBank c) with valid := .invalid, delay := 0 }
        c.numBanks_pos } := by
    change v.serve addressConfig cmcs slot = _
    rw [serve_of_valid hslot hqueue hvalid hconflict, processRqst_flow hslot hqueue hcmd]
    rfl
  intro hkeeps
  have hbank := hkeeps _ hstep (firstBank c) hpending
  change (v.banks.set 0 _ c.numBanks_pos).get (firstBank c) = _ at hbank
  have hfirst : 0 = (firstBank c).val := rfl
  rw [get_set v.banks c.numBanks_pos, if_pos hfirst] at hbank
  unfold Pending at hpending
  rw [← hbank] at hpending
  cases hpending

/-- **The service of a slot** keeps the pending responses exactly when it is not flow control that finds
one in the first bank. -/
theorem keeps_serve_iff (hv : v.Working) :
    v.Keeps (.serve addressConfig cmcs slot) ↔ v.Spares (.serve addressConfig cmcs slot) := by
  constructor
  · intro hkeeps hflow hpending
    exact not_keeps_flow hflow hpending hkeeps
  · intro hspares v' hstep b hpending
    rcases serve_cases hstep with rfl | ⟨hslot, code, hvalid, hconflict, hserved⟩
    · rfl
    · by_cases hcmd : v.rqstQueue[slot].request.cmd = 0
      · rw [processRqst_flow hslot rfl hcmd] at hserved
        cases hserved
        change (v.banks.set 0 _ c.numBanks_pos).get b = _
        rw [get_set v.banks c.numBanks_pos, if_neg ?_]
        intro hzero
        have hfirst : b = firstBank c := Fin.ext hzero.symm
        exact hspares ⟨_, Vector.getElem?_eq_getElem hslot, hvalid, hconflict, hcmd⟩ (hfirst ▸ hpending)
      · rcases turns_processRqst hslot rfl hcmd hserved with heq | ⟨turn, hfree, hturns⟩
        · rw [heq]
        · -- the bank of the request was free
          apply hturns.eq_of_ne
          intro hb
          have hdelay := hv b hpending
          rw [Fin.ext hb, hfree] at hdelay
          exact absurd hdelay (lt_irrefl 0)

theorem keeps_iff {e : VaultEvent c} (hv : v.Working) : v.Keeps e ↔ v.Spares e := by
  cases e with
  | serve addressConfig cmcs slot => exact keeps_serve_iff hv
  | update =>
    refine iff_of_true ?_ trivial
    intro v' hstep b hpending
    cases hstep
    exact holds_bankUpdate hpending
  | queues rqstQueue rspQueue =>
    refine iff_of_true ?_ trivial
    intro v' hstep b hpending
    cases hstep
    rfl

/-- **No response is lost** in a run exactly when no flow control is served while the first bank keeps a
response. -/
theorem along_keeps_iff (c : Cube) (es : List (VaultEvent c)) :
    Along step Keeps (start c) es ↔ Along step Spares (start c) es :=
  along_congr (I := Working) (fun _ _ _ hv hstep => hv.step hstep) (fun _ _ hv => keeps_iff hv) (working_start c)

/-- Flow control that is served behind a read. -/
theorem not_along_keeps_flow :
    ¬ ∀ (c : Cube) (es : List (VaultEvent c)), Along step Keeps (start c) es := by
  intro h
  have hslot : 0 < fourLinks.queueDepth := by decide
  have hcommand : command (waiting read16).request.cmd = some ⟨.answered .rdRs 2 dramlatency, 0⟩ := by
    decide
  -- a read of the first bank is served, and then flow control
  have hrun := h fourLinks [
    .queues (Vector.replicate _ (waiting read16)) (Vector.replicate _ .zero),
    .serve 0 (Vector.replicate _ {}) 0,
    .queues (Vector.replicate _ (waiting ⟨0x80, 0⟩)) (Vector.replicate _ .zero),
    .serve 0 (Vector.replicate _ {}) 0]
  obtain ⟨v', hread, -, -, hvalid⟩ := processRqst_idle hcommand (by decide)
  have hwaiting : (idle read16).rqstQueue[0] = waiting read16 := Vector.getElem_replicate hslot
  have hserve : (idle read16).serve 0 (Vector.replicate _ {}) 0 = .ok v' := by
    rw [serve_of_valid hslot hwaiting (by decide) (by decide), hread]
    rfl
  have hbank : v'.Pending (firstBank fourLinks) := hvalid
  have hkeeps := (((hrun.2 _ rfl).2 v' hserve).2 _ rfl).1
  refine not_keeps_flow ?_ ?_ hkeeps
  · refine ⟨waiting ⟨0x80, 0⟩, ?_, by decide, by decide, by decide⟩
    rw [Vector.getElem?_eq_getElem hslot]
    exact congrArg some (Vector.getElem_replicate hslot)
  · exact hbank

end Vault

end PIMSim.HMC
