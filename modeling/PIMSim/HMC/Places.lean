import Mathlib.Data.Fintype.Sigma
import Mathlib.Data.Fintype.Sum
import Mathlib.Tactic.DeriveFintype
import PIMSim.HMC.Clock
import PIMSim.Library.Network

/-!
# Where a request is

A request that has been accepted waits in the crossbar of its link, then in its vault, where its bank
works for it. Its response is kept in the bank, and then waits in the vault and in the crossbar, until the
host has received it. So every request is at a place of its route, as itself or as its response.

## Main definitions

* `Place`, `Path`, `Path.route`: the places of the cubes, and the places of a request
* `answerOf`: the response to a request
* `Sent`: a request that has been accepted
* `Sent.view`: what is seen of it at a place
* `HMCSim.shown`: the packets at the places
* `HMCSim.Carries`, `Vault.Carries`: requests move along their routes

## Main results

* `Vault.perform_answered_eq`: the service of a request with a response
* `HMCSim.carries_setVault`: a change of a vault
-/

namespace PIMSim.HMC

open CSharp Fields Slots

/-! ### Places and routes -/

/-- The places of a vault. -/
inductive VaultPlace (c : Cube)
  | rqst
  | bank (b : Fin c.numBanks)
  | rsp
deriving DecidableEq, Fintype

/-- The places of the cubes, and the packets that the host has received at a link. -/
inductive Place (c : Cube)
  | xbarRqst (dev : Fin c.numDevs) (link : Fin c.numLinks)
  | vault (dev : Fin c.numDevs) (v : Fin c.numVaults) (place : VaultPlace c)
  | xbarRsp (dev : Fin c.numDevs) (link : Fin c.numLinks)
  | received (dev : Fin c.numDevs) (link : Fin c.numLinks)
deriving DecidableEq, Fintype

/-- The link and the bank of a request. -/
structure Path (c : Cube) where
  dev : Fin c.numDevs
  link : Fin c.numLinks
  v : Fin c.numVaults
  bank : Fin c.numBanks
deriving DecidableEq

variable {c : Cube}

/-- The places of a request, in their order. -/
def Path.route (k : Path c) : List (Place c) :=
  [.xbarRqst k.dev k.link, .vault k.dev k.v .rqst, .vault k.dev k.v (.bank k.bank), .vault k.dev k.v .rsp,
    .xbarRsp k.dev k.link, .received k.dev k.link]

namespace Path

variable {k : Path c} {dev : Fin c.numDevs} {link : Fin c.numLinks} {v : Fin c.numVaults}

theorem route_eq (k : Path c) : k.route = k.route.dropLast ++ [.received k.dev k.link] := rfl

theorem nodup_route (k : Path c) : k.route.Nodup := by simp [route]

@[simp] theorem xbarRqst_mem_route : .xbarRqst dev link ∈ k.route ↔ dev = k.dev ∧ link = k.link := by
  simp [route]

@[simp] theorem rqst_mem_route : .vault dev v .rqst ∈ k.route ↔ dev = k.dev ∧ v = k.v := by
  simp [route]

@[simp] theorem bank_mem_route {b : Fin c.numBanks} :
    .vault dev v (.bank b) ∈ k.route ↔ dev = k.dev ∧ v = k.v ∧ b = k.bank := by
  simp [route]

@[simp] theorem rsp_mem_route : .vault dev v .rsp ∈ k.route ↔ dev = k.dev ∧ v = k.v := by
  simp [route]

@[simp] theorem xbarRsp_mem_route : .xbarRsp dev link ∈ k.route ↔ dev = k.dev ∧ link = k.link := by
  simp [route]

@[simp] theorem received_mem_route : .received dev link ∈ k.route ↔ dev = k.dev ∧ link = k.link := by
  simp [route]

end Path

/-! ### Requests -/

/-- The request of a packet. -/
def requestOf (packet : Words) : Request := HmcQueue.request ⟨.valid, packet⟩

/-- The command has a response, and the block size allows it. -/
def Answered (bsize cmd : ℕ) : Prop :=
  ∃ rspCmd n latency block, command cmd = some ⟨.answered rspCmd n latency, block⟩ ∧ block ≤ bsize

/-- The response to a request. -/
def answerOf (bsize : ℕ) (q : Request) : Words :=
  match operation bsize q.cmd with
  | .answered rspCmd rspLen _ =>
    match buildResponse q rspCmd rspLen (Vector.replicate 16 0) with
    | .ok packet => packet
    | .error _ => Vector.replicate maxUqPacket 0
  | .posted _ | .custom => Vector.replicate maxUqPacket 0

/-- The address configuration registers of the devices. -/
abbrev Registers (c : Cube) := Fin c.numDevs → UInt64

/-- A request that has been accepted: it is sent to its device on its link, its tail is within a slot, and
its command has a response. -/
structure Sent (c : Cube) (regs : Registers c) where
  number : ℕ
  words : Words
  dev : Fin c.numDevs
  link : Fin c.numLinks
  cub : (requestOf words).cub = dev
  slid : (requestOf words).slid.toNat = link
  tail : lastWord (requestOf words).length < maxUqPacket
  answered : Answered (maxBlocksize (regs dev)) (requestOf words).cmd

namespace Sent

variable {regs : Registers c} (x : Sent c regs)

def path : Path c where
  dev := x.dev
  link := x.link
  v := vaultOf c (maxBlocksize (regs x.dev)) (requestOf x.words).addr
  bank := ⟨decodeBank c (maxBlocksize (regs x.dev)) (requestOf x.words).addr, decodeBank_lt c _ _⟩

/-- The response to the request. -/
def answer : Words := answerOf (maxBlocksize (regs x.dev)) (requestOf x.words)

/-- What is seen of the request at a place. -/
def view (p : Place c) (x : Sent c regs) : Words :=
  match p with
  | .xbarRqst _ _ | .vault _ _ .rqst => x.words
  | .vault _ _ (.bank _) | .vault _ _ .rsp | .xbarRsp _ _ | .received _ _ => x.answer

end Sent

/-! ### What is seen -/

/-- The response that a bank keeps. -/
def HmcBank.held (bank : HmcBank) : Option Words := if bank.valid = .valid then some bank.packet else none

/-- The packets at a place of a vault. -/
def Vault.shown (v : Vault c) : VaultPlace c → List Words
  | .rqst => contents HmcQueue.held v.rqstQueue
  | .bank b => (v.banks.get b).held.toList
  | .rsp => contents HmcQueue.held v.rspQueue

@[simp] theorem Vault.shown_bank (v : Vault c) (b : Fin c.numBanks) :
    v.shown (.bank b) = (v.banks.get b).held.toList := rfl

@[simp] theorem Vault.shown_rqst (v : Vault c) : v.shown .rqst = contents HmcQueue.held v.rqstQueue := rfl

@[simp] theorem Vault.shown_rsp (v : Vault c) : v.shown .rsp = contents HmcQueue.held v.rspQueue := rfl

/-- The packets that the host has received. -/
abbrev Received (c : Cube) := Fin c.numDevs → Fin c.numLinks → List Words

/-- The packets at a place. -/
def HMCSim.shown (s : HMCSim c) (received : Received c) : Place c → List Words
  | .xbarRqst dev link => contents HmcQueue.held ((s.devs.get dev).xbar.get link).rqst
  | .vault dev v place => ((s.devs.get dev).vaults.get v).shown place
  | .xbarRsp dev link => contents HmcQueue.held ((s.devs.get dev).xbar.get link).rsp
  | .received dev link => received dev link

/-! ### The service of a request with a response -/

variable {bsize : ℕ} {q : Request}

/-- The response to a request of a command with one. -/
theorem answerOf_spec (h : Answered bsize q.cmd) (hbsize : bsize < 256) :
    ∃ rspCmd n, operation bsize q.cmd = .answered rspCmd n dramlatency ∧ 0 < n ∧ n ≤ 9 ∧
      buildResponse q rspCmd n (Vector.replicate 16 0) = .ok (answerOf bsize q) ∧
      headWord (answerOf bsize q) = q.rspHead rspCmd n := by
  obtain ⟨rspCmd, n, latency, block, hcommand, hblock⟩ := h
  obtain ⟨hpos, hn, rfl, -⟩ := command_answered hcommand (hblock.trans_lt hbsize)
  have hop : operation bsize q.cmd = .answered rspCmd n dramlatency := operation_of_fits hcommand hblock
  obtain ⟨packet, hpacket, hhead, -⟩ := buildResponse_eq_ok q rspCmd hpos hn
  have hanswer : answerOf bsize q = packet := by
    unfold answerOf
    rw [hop]
    dsimp only
    rw [hpacket]
  rw [hanswer]
  exact ⟨rspCmd, n, hop, hpos, hn, hpacket, hhead⟩

/-- A response says which link its request came from. -/
theorem slid_answerOf (h : Answered bsize q.cmd) (hbsize : bsize < 256) :
    field (headWord (answerOf bsize q)) 39 0x7 = q.slid := by
  obtain ⟨rspCmd, n, -, -, hn, -, hhead⟩ := answerOf_spec h hbsize
  rw [hhead, q.field_rspHead_slid rspCmd (by omega)]

theorem Sent.slid_answer {regs : Registers c} (x : Sent c regs) :
    (field (headWord x.answer) 39 0x7).toNat = x.link := by
  unfold Sent.answer
  rw [slid_answerOf x.answered (maxBlocksize_lt _)]
  exact x.slid

/-- **The service of a request with a response** clears its slot, and its bank keeps the response. -/
theorem Vault.perform_answered_eq {v : Vault c} {slot bank : ℕ} {queue : HmcQueue}
    (cmcs : Vector HmcCmc maxCmc) (hbank : bank < c.numBanks) (hslot : slot < c.queueDepth)
    (h : Answered bsize q.cmd) (hbsize : bsize < 256) :
    v.perform cmcs slot bank bsize queue q = .ok (0, {
      rqstQueue := v.rqstQueue.set slot .zero
      rspQueue := v.rspQueue
      banks := v.banks.set bank ⟨dramlatency, .valid, answerOf bsize q⟩ }) := by
  obtain ⟨rspCmd, n, hop, hpos, hn, hbuild, -⟩ := answerOf_spec h hbsize
  unfold perform
  rw [hop]
  dsimp only
  rw [hbuild, Outcome.ok_bind, respond_eq_ok hbank (by decide), Outcome.ok_bind, clearSlot_eq_ok hslot]
  rfl

/-! ### Moves -/

variable (ordered : Prop) (regs : Registers c)

/-- The requests move along their routes. -/
def HMCSim.Carries (received : Received c) (s s' : HMCSim c) : Prop :=
  Network.Carries (Sent.path : Sent c regs → Path c) Path.route ordered Sent.view (s.shown received)
    (s'.shown received)

/-- The requests of a vault move on, whatever is seen elsewhere. -/
def Vault.Carries (dev : Fin c.numDevs) (i : Fin c.numVaults) (v v' : Vault c) : Prop :=
  ∀ (received : Received c) (s : HMCSim c), (s.devs.get dev).vaults.get i = v →
    s.Carries ordered regs received (s.setVault dev i v')

variable {ordered regs} {received : Received c} {s s' s'' : HMCSim c} {dev : Fin c.numDevs}
  {i : Fin c.numVaults} {v v' v'' : Vault c}

theorem path_route_nodup : ∀ k : Path c, k.route.Nodup := Path.nodup_route

namespace HMCSim

theorem Carries.trans (h : s.Carries ordered regs received s') (h' : s'.Carries ordered regs received s'') :
    s.Carries ordered regs received s'' :=
  Network.Carries.trans path_route_nodup h h'

theorem carries_of_shown (h : s'.shown received = s.shown received) :
    s.Carries ordered regs received s' := by
  unfold Carries
  rw [h]
  exact .refl

theorem get_setDev (s : HMCSim c) (dev : Fin c.numDevs) (d : HmcDev c) (dev' : Fin c.numDevs) :
    (s.setDev dev d).devs.get dev' = if dev = dev' then d else s.devs.get dev' :=
  get_set s.devs dev d dev'

theorem get_setVault (s : HMCSim c) (dev : Fin c.numDevs) (i : Fin c.numVaults) (v : Vault c) :
    ((s.setVault dev i v).devs.get dev).vaults.get i = v := by
  unfold setVault
  rw [get_setDev, if_pos rfl]
  exact (get_set _ i v i).trans (if_pos rfl)

theorem shown_setVault_self (place : VaultPlace c) :
    (s.setVault dev i v).shown received (.vault dev i place) = v.shown place :=
  congrArg (fun w => w.shown place) (s.get_setVault dev i v)

theorem shown_setVault_of_ne {p : Place c} (h : ∀ place, p ≠ .vault dev i place) :
    (s.setVault dev i v).shown received p = s.shown received p := by
  unfold shown setVault
  cases p with
  | received dev' link => rfl
  | xbarRqst dev' link =>
    dsimp only
    rw [get_setDev]
    split_ifs with hdev
    · rw [← hdev]
      rfl
    · rfl
  | xbarRsp dev' link =>
    dsimp only
    rw [get_setDev]
    split_ifs with hdev
    · rw [← hdev]
      rfl
    · rfl
  | vault dev' i' place =>
    dsimp only
    rw [get_setDev]
    split_ifs with hdev
    · subst hdev
      have hi : i ≠ i' := by
        rintro rfl
        exact h place rfl
      rw [HmcDev.setVault, get_set, if_neg hi]
    · rfl

theorem setVault_setVault (s : HMCSim c) (dev : Fin c.numDevs) (i : Fin c.numVaults) (v v' : Vault c) :
    (s.setVault dev i v).setVault dev i v' = s.setVault dev i v' := by
  unfold setVault
  rw [get_setDev, if_pos rfl]
  simp [setDev, HmcDev.setVault]

end HMCSim

namespace Vault

theorem carries_of_shown (h : ∀ place, v'.shown place = v.shown place) :
    v.Carries ordered regs dev i v' := by
  rintro received s rfl
  refine HMCSim.carries_of_shown (funext fun p => ?_)
  by_cases hp : ∃ place, p = .vault dev i place
  · obtain ⟨place, rfl⟩ := hp
    rw [HMCSim.shown_setVault_self, h]
    rfl
  · exact HMCSim.shown_setVault_of_ne fun place heq => hp ⟨place, heq⟩

theorem Carries.trans (h : v.Carries ordered regs dev i v') (h' : v'.Carries ordered regs dev i v'') :
    v.Carries ordered regs dev i v'' := by
  intro received s hs
  have hnext := h' received (s.setVault dev i v') (s.get_setVault dev i v')
  rw [HMCSim.setVault_setVault] at hnext
  exact (h received s hs).trans hnext

/-- **A change of a vault** that moves a request from one place to the next. -/
theorem carries_move {p q : VaultPlace c} {a b a' b' : List Words} {w w' : Words} (hpq : p ≠ q)
    (hp : v.shown p = a ++ w :: b) (hq : v.shown q = a' ++ b') (hp' : v'.shown p = a ++ b)
    (hq' : v'.shown q = a' ++ w' :: b') (hother : ∀ o, o ≠ p → o ≠ q → v'.shown o = v.shown o)
    (hitem : ∀ x : Sent c regs, .vault dev i p ∈ x.path.route → x.view (.vault dev i p) = w →
      x.view (.vault dev i q) = w' ∧ [.vault dev i p, .vault dev i q] <:+: x.path.route ∧
        (ordered → (∀ y : Sent c regs, .vault dev i p ∈ y.path.route → y.view (.vault dev i p) ∈ a →
          y.path ≠ x.path) ∧ ∀ y : Sent c regs, .vault dev i q ∈ y.path.route →
            y.view (.vault dev i q) ∈ b' → y.path ≠ x.path)) :
    v.Carries ordered regs dev i v' := by
  rintro received s rfl
  have hleft : s.shown received (.vault dev i p) = a ++ w :: b := hp
  have hentered : s.shown received (.vault dev i q) = a' ++ b' := hq
  refine Network.carries_move ?_ hleft hentered ((HMCSim.shown_setVault_self p).trans hp')
    ((HMCSim.shown_setVault_self q).trans hq') ?_ hitem
  · simpa using hpq
  · intro o hop hoq
    by_cases ho : ∃ place, o = .vault dev i place
    · obtain ⟨place, rfl⟩ := ho
      rw [HMCSim.shown_setVault_self]
      refine hother place ?_ ?_
      · rintro rfl
        exact hop rfl
      · rintro rfl
        exact hoq rfl
    · exact HMCSim.shown_setVault_of_ne fun place heq => ho ⟨place, heq⟩

end Vault

end PIMSim.HMC
