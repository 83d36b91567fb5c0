import PIMSim.HMC.Places

/-!
# The stages of a clock

Every stage of a clock gives each slot of some queues its turn, and a turn moves one packet along its
route or leaves it where it is. A packet is left when there is no room for it, and while a stage goes on
no room is made: a vault that is full stays full while the crossbars go on, a bank that works goes on
working while the vaults serve their requests, and a crossbar that is full stays full while the responses
go there. So the packets of one class never pass each other in a stage.

An entry goes to the lowest free slot. It comes behind all others when the queue has no hole, and only the
host leaves holes where entries are put, in the responses of a crossbar.

## Main definitions

* `Full`: a queue without a free slot
* `HMCSim.Follows`: what is seen is what a network holds after some moves
* `HMCSim.Kept`: what holds of the slots and the banks between the stages
* `HMCSim.Between`: the state between two turns

## Main results

* `HMCSim.clockRootXbar_ensures`, `HMCSim.clockBankUpdate_ensures`, `HMCSim.clockRwOps_ensures`,
  `HMCSim.clockRegResponses_ensures`, `HMCSim.clockQueueReorg_ensures`: the stages
* `HMCSim.clock_ensures`: a clock of cubes that are connected to the host
-/

namespace PIMSim.HMC

open CSharp Fields Slots

variable {c : Cube}

/-! ### Queues -/

/-- No slot is free. -/
def Full {n : ℕ} (queue : Vector HmcQueue n) : Prop := ∀ i, (queue.get i).valid ≠ .invalid

/-- The slot that is found is the lowest one. -/
theorem lastFound_spec {n : ℕ} {queue : Vector HmcQueue n} {mark : Slot} {i : Fin n}
    (h : lastFound queue mark = some i) :
    (queue.get i).valid = mark ∧ ∀ j < i, (queue.get j).valid ≠ mark := by
  rw [lastFound_eq] at h
  obtain ⟨hfound, hbelow⟩ := find?_finRange_eq_some h
  simp only [decide_eq_true_eq, decide_eq_false_iff_not] at hfound hbelow
  exact ⟨hfound, hbelow⟩

namespace HmcQueue

theorem held_eq_none {queue : HmcQueue} : queue.held = none ↔ queue.valid = .invalid := by
  unfold held
  split_ifs with h <;> simp [h]

theorem held_of_valid {queue : HmcQueue} (h : queue.valid ≠ .invalid) :
    queue.held = some queue.packet :=
  if_neg h

theorem held_eq_some {queue : HmcQueue} {w : Words} :
    queue.held = some w ↔ queue.valid ≠ .invalid ∧ queue.packet = w := by
  unfold held
  split_ifs with h <;> simp [h]

@[simp] theorem held_zero : zero.held = none := rfl

@[simp] theorem held_mk (w : Words) : held ⟨.valid, w⟩ = some w := rfl

/-- A slot that is marked as stalled keeps its packet. -/
theorem held_stalled {queue : HmcQueue} (h : queue.valid ≠ .invalid) :
    held { queue with valid := .stalled } = queue.held := by
  rw [held_of_valid h]
  rfl

end HmcQueue

/-- A queue with a free slot is not full. -/
theorem not_full {n : ℕ} {queue : Vector HmcQueue n} {i : Fin n} (h : (queue.get i).valid = .invalid) :
    ¬ Full queue := fun hfull => hfull i h

/-- A packet is put into the lowest free slot of a queue without holes. -/
theorem packed_put {n : ℕ} {queue : Vector HmcQueue n} {i : Fin n} (h : Packed HmcQueue.held queue)
    (hi : lastFound queue .invalid = some i) (w : Words) :
    Packed HmcQueue.held (queue.set i ⟨.valid, w⟩ i.isLt) :=
  h.put (fun j hj hnone => (lastFound_spec hi).2 j hj (HmcQueue.held_eq_none.mp hnone))
    (HmcQueue.held_mk w)

/-! ### Parts of a device -/

namespace HmcDev

variable (d : HmcDev c) (link l : Fin c.numLinks) (i : Fin c.xbarDepth) (x : HmcQueue)
  (v v' : Fin c.numVaults) (vault : Vault c)

@[simp] theorem vaults_setRqst : (d.setRqst link i x).vaults = d.vaults := rfl

@[simp] theorem addressConfig_setRqst : (d.setRqst link i x).addressConfig = d.addressConfig := rfl

@[simp] theorem vaults_setRsp : (d.setRsp link i x).vaults = d.vaults := rfl

@[simp] theorem addressConfig_setRsp : (d.setRsp link i x).addressConfig = d.addressConfig := rfl

@[simp] theorem xbar_setVault : (d.setVault v vault).xbar = d.xbar := rfl

@[simp] theorem addressConfig_setVault : (d.setVault v vault).addressConfig = d.addressConfig := rfl

@[simp] theorem vaults_setVault :
    (d.setVault v vault).vaults.get v' = if v = v' then vault else d.vaults.get v' :=
  get_set d.vaults v vault v'

@[simp] theorem rqst_setRqst : ((d.setRqst link i x).xbar.get l).rqst =
    if link = l then (d.xbar.get l).rqst.set i x i.isLt else (d.xbar.get l).rqst := by
  unfold setRqst
  dsimp only
  rw [get_set]
  split_ifs with h
  · rw [h]
  · rfl

@[simp] theorem rsp_setRqst : ((d.setRqst link i x).xbar.get l).rsp = (d.xbar.get l).rsp := by
  unfold setRqst
  dsimp only
  rw [get_set]
  split_ifs with h
  · rw [h]
  · rfl

@[simp] theorem rsp_setRsp : ((d.setRsp link i x).xbar.get l).rsp =
    if link = l then (d.xbar.get l).rsp.set i x i.isLt else (d.xbar.get l).rsp := by
  unfold setRsp
  dsimp only
  rw [get_set]
  split_ifs with h
  · rw [h]
  · rfl

@[simp] theorem rqst_setRsp : ((d.setRsp link i x).xbar.get l).rqst = (d.xbar.get l).rqst := by
  unfold setRsp
  dsimp only
  rw [get_set]
  split_ifs with h
  · rw [h]
  · rfl

end HmcDev

/-! ### What holds between the turns -/

/-- What holds of a vault between the stages. -/
structure Vault.Kept (v : Vault c) : Prop where
  working : v.Working
  /-- Nothing marks a request as conflicting. -/
  waiting : ∀ slot, (v.rqstQueue.get slot).valid ≠ .conflict

/-- What holds of a device between the stages. -/
structure HmcDev.Kept (reg : UInt64) (d : HmcDev c) : Prop where
  reg : d.addressConfig = reg
  vaults : ∀ v, (d.vaults.get v).Kept
  /-- A response in a crossbar is ready for the host. -/
  ready : ∀ link slot, ((d.xbar.get link).rsp.get slot).valid = .invalid ∨
    ((d.xbar.get link).rsp.get slot).valid = .valid

/-- The queues of the vaults have no hole. -/
def HmcDev.VaultsPacked (d : HmcDev c) : Prop :=
  ∀ v ∈ c.vaults, Packed HmcQueue.held (d.vaults.get v).rqstQueue ∧
    Packed HmcQueue.held (d.vaults.get v).rspQueue

/-- The responses of the crossbars have no hole. -/
def HmcDev.RspPacked (d : HmcDev c) : Prop := ∀ link, Packed HmcQueue.held (d.xbar.get link).rsp

/-- The requests of the crossbars have no hole. -/
def HmcDev.RqstPacked (d : HmcDev c) : Prop := ∀ link, Packed HmcQueue.held (d.xbar.get link).rqst

theorem vaultOf_mem_vaults (bsize : ℕ) (addr : UInt64) : vaultOf c bsize addr ∈ c.vaults := by
  unfold Cube.vaults
  rw [List.mem_flatMap]
  exact ⟨_, List.mem_finRange _, List.mem_map_of_mem (List.mem_finRange _)⟩

namespace HMCSim

variable {regs : Registers c}

def Kept (regs : Registers c) (s : HMCSim c) : Prop := ∀ dev, (s.devs.get dev).Kept (regs dev)

def VaultsPacked (s : HMCSim c) : Prop := ∀ dev, (s.devs.get dev).VaultsPacked

def RspPacked (s : HMCSim c) : Prop := ∀ dev, (s.devs.get dev).RspPacked

def RqstPacked (s : HMCSim c) : Prop := ∀ dev, (s.devs.get dev).RqstPacked

/-- What is seen is what a network holds after some moves. -/
def Follows (ordered : Prop) (received : Received c) (N : Network (Place c) (Sent c regs))
    (s : HMCSim c) : Prop :=
  ∃ N', Relation.ReflTransGen (Network.Step Sent.path Path.route ordered) N N' ∧
    N'.accepted = N.accepted ∧ N'.OnRoute Sent.path Path.route ∧ N'.Shows Sent.view (s.shown received)

/-- The state between two turns. The order is that of a run in which the host leaves no holes. -/
structure Between (ordered : Prop) (received : Received c) (N : Network (Place c) (Sent c regs))
    (s : HMCSim c) : Prop where
  follows : s.Follows ordered received N
  kept : s.Kept regs
  packed : ordered → s.RspPacked

variable {ordered : Prop} {received : Received c} {N : Network (Place c) (Sent c regs)} {s s' : HMCSim c}
  {dev : Fin c.numDevs} {d : HmcDev c}

theorem Follows.carry {received' : Received c} (h : s.Follows ordered received N)
    (hcarries : Network.Carries (Sent.path : Sent c regs → Path c) Path.route ordered Sent.view
      (s.shown received) (s'.shown received')) : s'.Follows ordered received' N := by
  obtain ⟨N₁, hsteps₁, haccepted₁, hroute₁, hshows₁⟩ := h
  obtain ⟨N₂, hsteps₂, haccepted₂, hshows₂⟩ := hcarries N₁ hroute₁ hshows₁
  exact ⟨N₂, hsteps₁.trans hsteps₂, haccepted₂.trans haccepted₁,
    Network.steps_onRoute path_route_nodup hsteps₂ hroute₁, hshows₂⟩

/-- Everything that is seen is a request on its route. -/
theorem Follows.exists_of_mem (h : s.Follows ordered received N) {p : Place c} {w : Words}
    (hw : w ∈ s.shown received p) : ∃ x : Sent c regs, p ∈ x.path.route ∧ x.view p = w := by
  obtain ⟨N', -, -, hroute, hshows⟩ := h
  rw [hshows p, List.mem_map] at hw
  obtain ⟨x, hx, hview⟩ := hw
  exact ⟨x, hroute p x hx, hview⟩

/-- What holds of all devices holds when one is replaced. -/
theorem forall_setDev {P : Fin c.numDevs → HmcDev c → Prop} (h : ∀ dev, P dev (s.devs.get dev))
    (hd : P dev d) : ∀ dev', P dev' ((s.setDev dev d).devs.get dev') := by
  intro dev'
  rw [get_setDev]
  split_ifs with hdev
  · rw [← hdev]
    exact hd
  · exact h dev'

end HMCSim

/-! ### Requests of the crossbars -/

/-- The requests in the first slots wait for vaults that are full. -/
def HmcDev.Blocked (d : HmcDev c) (k : Fin c.numLinks → ℕ) : Prop :=
  ∀ link (j : Fin c.xbarDepth) w, j.val < k link → ((d.xbar.get link).rqst.get j).held = some w →
    Full (d.vaults.get (vaultOf c (maxBlocksize d.addressConfig) (requestOf w).addr)).rqstQueue

namespace HmcDev

variable {d d' : HmcDev c} {k : Fin c.numLinks → ℕ} {link : Fin c.numLinks} {i : Fin c.xbarDepth}
  {queue : HmcQueue} {slot : Fin c.queueDepth} {v : Fin c.numVaults}

/-- **The turn of a slot** keeps the requests before it waiting, and its own one when it stays. -/
theorem Blocked.turn (h : d.Blocked k) (hk : k link = i) (hreg : d'.addressConfig = d.addressConfig)
    (hrest : ∀ l j, (l ≠ link ∨ j ≠ i) → (d'.xbar.get l).rqst.get j = (d.xbar.get l).rqst.get j)
    (hfull : ∀ v, Full (d.vaults.get v).rqstQueue → Full (d'.vaults.get v).rqstQueue)
    (hown : ∀ w, ((d'.xbar.get link).rqst.get i).held = some w →
      Full (d'.vaults.get (vaultOf c (maxBlocksize d.addressConfig) (requestOf w).addr)).rqstQueue) :
    d'.Blocked (Function.update k link (i + 1)) := by
  intro l j w hj hw
  rw [hreg]
  by_cases hl : l = link
  · subst hl
    rw [Function.update_self] at hj
    rcases Nat.lt_succ_iff_lt_or_eq.mp hj with hj | hj
    · rw [hrest l j (Or.inr (ne_of_lt (Fin.lt_def.mpr hj)))] at hw
      exact hfull _ (h l j w (hk ▸ hj) hw)
    · obtain rfl := Fin.ext hj
      exact hown w hw
  · rw [Function.update_of_ne hl] at hj
    rw [hrest l j (Or.inl hl)] at hw
    exact hfull _ (h l j w hj hw)

/-- Only the slot changes. -/
theorem rqst_setRqst_of_ne {x : HmcQueue} (l : Fin c.numLinks) (j : Fin c.xbarDepth)
    (h : l ≠ link ∨ j ≠ i) :
    ((d.setRqst link i x).xbar.get l).rqst.get j = (d.xbar.get l).rqst.get j := by
  rw [rqst_setRqst]
  split_ifs with hl
  · rw [get_set, if_neg]
    rintro rfl
    exact h.elim (fun hne => hne hl.symm) fun hne => hne rfl
  · rfl

theorem rqst_setRqst_self {x : HmcQueue} : ((d.setRqst link i x).xbar.get link).rqst.get i = x := by
  rw [rqst_setRqst, if_pos rfl, get_set, if_pos rfl]

end HmcDev

namespace HMCSim

variable {regs : Registers c} {ordered : Prop} {received : Received c}
  {N : Network (Place c) (Sent c regs)} {s : HMCSim c} {dev : Fin c.numDevs} {link : Fin c.numLinks}
  {i : Fin c.xbarDepth} {w : Words}

@[simp] theorem shown_setDev_xbarRqst {d : HmcDev c} :
    (s.setDev dev d).shown received (.xbarRqst dev link) =
      contents HmcQueue.held (d.xbar.get link).rqst := by
  simp [shown, get_setDev]

@[simp] theorem shown_setDev_xbarRsp {d : HmcDev c} :
    (s.setDev dev d).shown received (.xbarRsp dev link) =
      contents HmcQueue.held (d.xbar.get link).rsp := by
  simp [shown, get_setDev]

@[simp] theorem shown_setDev_vault {d : HmcDev c} {v : Fin c.numVaults} {place : VaultPlace c} :
    (s.setDev dev d).shown received (.vault dev v place) = (d.vaults.get v).shown place := by
  simp [shown, get_setDev]

/-- A place where nothing changes when a device is replaced. -/
theorem shown_setDev_eq {d d' : HmcDev c} {p : Place c} (hd : s.devs.get dev = d)
    (hrqst : ∀ link, p = .xbarRqst dev link → (d'.xbar.get link).rqst = (d.xbar.get link).rqst)
    (hrsp : ∀ link, p = .xbarRsp dev link → (d'.xbar.get link).rsp = (d.xbar.get link).rsp)
    (hvault : ∀ v place, p = .vault dev v place →
      (d'.vaults.get v).shown place = (d.vaults.get v).shown place) :
    (s.setDev dev d').shown received p = s.shown received p := by
  have hother {dev' : Fin c.numDevs} (h : dev ≠ dev') :
      (s.setDev dev d').devs.get dev' = s.devs.get dev' := by
    rw [get_setDev, if_neg h]
  subst hd
  cases p with
  | received dev' link' => rfl
  | xbarRqst dev' link' =>
    rcases eq_or_ne dev dev' with rfl | hdev
    · rw [shown_setDev_xbarRqst, hrqst link' rfl]
      rfl
    · exact congrArg (fun d : HmcDev c => contents HmcQueue.held (d.xbar.get link').rqst) (hother hdev)
  | xbarRsp dev' link' =>
    rcases eq_or_ne dev dev' with rfl | hdev
    · rw [shown_setDev_xbarRsp, hrsp link' rfl]
      rfl
    · exact congrArg (fun d : HmcDev c => contents HmcQueue.held (d.xbar.get link').rsp) (hother hdev)
  | vault dev' v place =>
    rcases eq_or_ne dev dev' with rfl | hdev
    · rw [shown_setDev_vault, hvault v place rfl]
      rfl
    · exact congrArg (fun d : HmcDev c => (d.vaults.get v).shown place) (hother hdev)

/-- **A request goes to its vault.** -/
theorem carries_deliver {d : HmcDev c} {v : Fin c.numVaults} {slot : Fin c.queueDepth} {queue : HmcQueue}
    (hd : s.devs.get dev = d) (hreg : d.addressConfig = regs dev)
    (hqueue : (d.xbar.get link).rqst.get i = queue) (hvalid : queue.valid ≠ .invalid)
    (hv : vaultOf c (maxBlocksize d.addressConfig) (requestOf queue.packet).addr = v)
    (hslot : ((d.vaults.get v).rqstQueue.get slot).valid = .invalid)
    (hpacked : Packed HmcQueue.held (d.vaults.get v).rqstQueue)
    (hblocked : ∀ j w, j < i → ((d.xbar.get link).rqst.get j).held = some w →
      Full (d.vaults.get (vaultOf c (maxBlocksize d.addressConfig) (requestOf w).addr)).rqstQueue) :
    s.Carries ordered regs received (s.setDev dev ((d.setVault v { d.vaults.get v with
      rqstQueue := (d.vaults.get v).rqstQueue.set slot ⟨.valid, queue.packet⟩ }).setRqst link i
        .zero)) := by
  have hheld : ((d.xbar.get link).rqst.get i).held = some queue.packet := by
    rw [hqueue]
    exact HmcQueue.held_of_valid hvalid
  have hfree := HmcQueue.held_eq_none.mpr hslot
  have hpath (x : Sent c regs) (hx : .xbarRqst dev link ∈ x.path.route) :
      x.path.v = vaultOf c (maxBlocksize d.addressConfig) (requestOf x.words).addr := by
    obtain ⟨hdev, -⟩ := Path.xbarRqst_mem_route.mp hx
    rw [hreg, hdev]
    rfl
  obtain ⟨hleft, hleft'⟩ := contents_take hheld HmcQueue.held_zero
  obtain ⟨hentered, hentered'⟩ := contents_put hfree (HmcQueue.held_mk queue.packet)
  have hp : s.shown received (.xbarRqst dev link) = _ := (congrArg (fun d : HmcDev c =>
    contents HmcQueue.held (d.xbar.get link).rqst) hd).trans hleft
  have hq : s.shown received (.vault dev v .rqst) = _ := (congrArg (fun d : HmcDev c =>
    contents HmcQueue.held (d.vaults.get v).rqstQueue) hd).trans hentered
  refine Network.carries_move (by simp) hp hq (Eq.trans ?_ hleft') (Eq.trans ?_ hentered') ?_ ?_
  · simp
  · simp [Vault.shown]
  · intro p hp hq
    refine shown_setDev_eq hd ?_ ?_ ?_
    · rintro link' rfl
      have hne : link ≠ link' := by
        rintro rfl
        exact hp rfl
      simp [hne]
    · rintro link' rfl
      simp
    · rintro v' place rfl
      by_cases hv : v = v'
      · subst hv
        cases place with
        | rqst => exact absurd rfl hq
        | bank b => simp [Vault.shown]
        | rsp => simp [Vault.shown]
      · simp [hv]
  · rintro x hx hwords
    have hxv : x.path.v = v := by
      rw [hpath x hx, ← hv]
      exact congrArg (fun w => vaultOf c _ (requestOf w).addr) hwords
    obtain ⟨hdev, hlink⟩ := Path.xbarRqst_mem_route.mp hx
    refine ⟨hwords, ?_, fun _ => ⟨fun y hy hbelow heq => ?_, fun y hy habove => ?_⟩⟩
    · rw [hdev, hlink, ← hxv]
      exact ⟨[], _, rfl⟩
    · -- a request of the same class waits in a slot before it, so that their vault is full
      obtain ⟨j, hj, hjheld⟩ := mem_below.mp hbelow
      have hfull := hblocked j y.words (Fin.lt_def.mpr hj) hjheld
      rw [← hpath y hy, heq, hxv] at hfull
      exact not_full hslot hfull
    · rw [hpacked.above_eq_nil hfree] at habove
      cases habove

end HMCSim

namespace HmcDev

variable {d : HmcDev c} {reg : UInt64} {link : Fin c.numLinks} {i : Fin c.xbarDepth} {x : HmcQueue}
  {v : Fin c.numVaults} {vault : Vault c}

theorem Kept.setRqst (h : d.Kept reg) : (d.setRqst link i x).Kept reg where
  reg := h.reg
  vaults := h.vaults
  ready := by
    intro l slot
    rw [rsp_setRqst]
    exact h.ready l slot

theorem RspPacked.setRqst (h : d.RspPacked) : (d.setRqst link i x).RspPacked := by
  intro l
  rw [rsp_setRqst]
  exact h l

theorem Kept.setVault (h : d.Kept reg) (hvault : vault.Kept) : (d.setVault v vault).Kept reg where
  reg := h.reg
  vaults := by
    intro v'
    rw [vaults_setVault]
    split_ifs
    · exact hvault
    · exact h.vaults v'
  ready := h.ready

theorem VaultsPacked.setVault (h : d.VaultsPacked)
    (hvault : Packed HmcQueue.held vault.rqstQueue ∧ Packed HmcQueue.held vault.rspQueue) :
    (d.setVault v vault).VaultsPacked := by
  intro v' hv'
  rw [vaults_setVault]
  split_ifs
  · exact hvault
  · exact h v' hv'

end HmcDev

/-- A vault that gets a request. -/
theorem Vault.Kept.put {v : Vault c} (h : v.Kept) (slot : Fin c.queueDepth) (w : Words) :
    Vault.Kept { v with rqstQueue := v.rqstQueue.set slot ⟨.valid, w⟩ slot.isLt } where
  working := h.working
  waiting := by
    intro slot'
    rw [get_set]
    split_ifs
    · exact fun h => by cases h
    · exact h.waiting slot'

/-- The words that a request is read from. -/
theorem requestOf_eq {w : Words} (h : lastWord (requestOf w).length < maxUqPacket) :
    (⟨headWord w, w[lastWord (requestOf w).length]⟩ : Request) = requestOf w := by
  have htail : (requestOf w).tail = (w[lastWord (requestOf w).length]?).getD 0 := rfl
  rw [Vector.getElem?_eq_getElem h] at htail
  exact congrArg (Request.mk (headWord w)) htail.symm

namespace HMCSim

variable {regs : Registers c} {bad : Fault → Prop} {ordered : Prop} {received : Received c}
  {N : Network (Place c) (Sent c regs)} {s : HMCSim c} {dev : Fin c.numDevs} {link : Fin c.numLinks}
  {i : Fin c.xbarDepth} {k : Fin c.numLinks → ℕ}

/-- The state between two turns of a device that takes requests in. -/
structure Entering (ordered : Prop) (received : Received c) (N : Network (Place c) (Sent c regs))
    (dev : Fin c.numDevs) (k : Fin c.numLinks → ℕ) (s : HMCSim c) : Prop
    extends s.Between ordered received N where
  vaults : s.VaultsPacked
  blocked : (s.devs.get dev).Blocked k

/-- A request that stays in its slot. -/
theorem Entering.stall (h : s.Entering ordered received N dev k) (hk : k link = i) {queue : HmcQueue}
    (hqueue : ((s.devs.get dev).xbar.get link).rqst.get i = queue) (hvalid : queue.valid ≠ .invalid)
    (hfull : Full ((s.devs.get dev).vaults.get (vaultOf c (maxBlocksize (s.devs.get dev).addressConfig)
      (requestOf queue.packet).addr)).rqstQueue) :
    (s.setDev dev ((s.devs.get dev).setRqst link i { queue with valid := .stalled })).Entering ordered
      received N dev (Function.update k link (i + 1)) where
  follows := by
    refine h.follows.carry (carries_of_shown (funext fun p => ?_))
    by_cases hp : p = .xbarRqst dev link
    · subst hp
      rw [shown_setDev_xbarRqst, HmcDev.rqst_setRqst, if_pos rfl, contents_keep]
      · rfl
      · rw [hqueue, HmcQueue.held_stalled hvalid]
    · refine shown_setDev_eq rfl ?_ ?_ fun _ _ _ => rfl
      · rintro link' rfl
        have hne : link ≠ link' := by
          rintro rfl
          exact hp rfl
        rw [HmcDev.rqst_setRqst, if_neg hne]
      · intro link' _
        rw [HmcDev.rsp_setRqst]
  kept := forall_setDev h.kept (h.kept dev).setRqst
  packed := fun ho => forall_setDev (h.packed ho) (h.packed ho dev).setRqst
  vaults := forall_setDev h.vaults (h.vaults dev)
  blocked := by
    rw [get_setDev, if_pos rfl]
    refine h.blocked.turn hk rfl HmcDev.rqst_setRqst_of_ne (fun _ => id) fun w hw => ?_
    rw [HmcDev.rqst_setRqst_self, HmcQueue.held_stalled hvalid, HmcQueue.held_of_valid hvalid] at hw
    cases hw
    exact hfull

/-- A request that goes to its vault. -/
theorem Entering.deliver (h : s.Entering ordered received N dev k) (hk : k link = i) {d : HmcDev c}
    (hd : s.devs.get dev = d) {queue : HmcQueue} {v : Fin c.numVaults} {slot : Fin c.queueDepth}
    (hqueue : (d.xbar.get link).rqst.get i = queue) (hvalid : queue.valid ≠ .invalid)
    (hv : vaultOf c (maxBlocksize d.addressConfig) (requestOf queue.packet).addr = v)
    (hslot : lastFound (d.vaults.get v).rqstQueue .invalid = some slot) :
    (s.setDev dev ((d.setVault v { d.vaults.get v with
      rqstQueue := (d.vaults.get v).rqstQueue.set slot ⟨.valid, queue.packet⟩ }).setRqst link i
        .zero)).Entering ordered received N dev (Function.update k link (i + 1)) := by
  subst hd
  have hfree := (lastFound_spec hslot).1
  have hmem : v ∈ c.vaults := hv ▸ vaultOf_mem_vaults _ _
  have hpacked := h.vaults dev v hmem
  exact {
    follows := by
      refine h.follows.carry (carries_deliver rfl (h.kept dev).reg hqueue hvalid hv hfree hpacked.1 ?_)
      intro j w hj hw
      exact h.blocked link j w (hk ▸ Fin.lt_def.mp hj) hw
    kept := forall_setDev h.kept
      (((h.kept dev).setVault (((h.kept dev).vaults v).put slot queue.packet)).setRqst)
    packed := fun ho => forall_setDev (h.packed ho) (HmcDev.RspPacked.setRqst (h.packed ho dev))
    vaults := forall_setDev h.vaults
      (HmcDev.VaultsPacked.setVault (h.vaults dev) ⟨packed_put hpacked.1 hslot queue.packet, hpacked.2⟩)
    blocked := by
      rw [get_setDev, if_pos rfl]
      refine h.blocked.turn hk rfl HmcDev.rqst_setRqst_of_ne ?_ fun w hw => ?_
      · intro v' hfull
        rw [HmcDev.vaults_setRqst, HmcDev.vaults_setVault]
        split_ifs with hvv
        · exact absurd (hvv ▸ hfull) (not_full hfree)
        · exact hfull
      · rw [HmcDev.rqst_setRqst_self] at hw
        cases hw }

/-- **The turn of a slot** in the requests of a crossbar. -/
theorem Entering.forward (h : s.Entering ordered received N dev k) (hk : k link = i) (w : Wiring c) :
    Ensures bad (s.forward w dev link i 0)
      fun r => r.2.Entering ordered received N dev (Function.update k link (i + 1)) := by
  obtain ⟨queue, hqueue⟩ : ∃ queue, ((s.devs.get dev).xbar.get link).rqst.get i = queue := ⟨_, rfl⟩
  unfold HMCSim.forward
  dsimp only
  rw [hqueue]
  by_cases hvalid : queue.valid = .invalid
  · rw [if_pos hvalid]
    refine ensures_ok { h with blocked := ?_ }
    refine h.blocked.turn hk rfl (fun _ _ _ => rfl) (fun _ => id) fun w hw => ?_
    rw [hqueue, HmcQueue.held_eq_none.mpr hvalid] at hw
    cases hw
  · rw [if_neg hvalid]
    have hmem : queue.packet ∈ s.shown received (.xbarRqst dev link) := by
      refine mem_contents.mpr ⟨i, ?_⟩
      rw [hqueue]
      exact HmcQueue.held_of_valid hvalid
    obtain ⟨x, hx, hwords⟩ := h.follows.exists_of_mem hmem
    have hdev := (Path.xbarRqst_mem_route.mp hx).1
    change x.words = queue.packet at hwords
    have htail : lastWord (requestOf queue.packet).length < maxUqPacket := hwords ▸ x.tail
    have hcub : (requestOf queue.packet).cub = dev := by
      rw [← hwords, x.cub, hdev]
      rfl
    change Ensures bad
      (access .indexOutOfRange queue.packet (lastWord (requestOf queue.packet).length) >>= _) _
    rw [access_of_lt htail, Outcome.ok_bind, requestOf_eq htail, if_pos hcub]
    unfold HmcDev.deliver
    dsimp only
    cases hslot : lastFound ((s.devs.get dev).vaults.get (vaultOf c
        (maxBlocksize (s.devs.get dev).addressConfig)
        (requestOf queue.packet).addr)).rqstQueue .invalid with
    | none => exact ensures_ok (h.stall hk hqueue hvalid (lastFound_eq_none.mp hslot))
    | some slot => exact ensures_ok (h.deliver hk rfl hqueue hvalid rfl hslot)

/-- What the links hold back when a slot of some of them has had its turn. -/
def turns (i : ℕ) (l : ℕ) : Fin c.numLinks → ℕ := fun link => if link.val < l then i + 1 else i

theorem update_turns (i : ℕ) (link : Fin c.numLinks) :
    Function.update (turns i link) link (i + 1) = turns (c := c) i (link + 1) := by
  funext l
  unfold turns
  by_cases hl : l = link
  · subst hl
    rw [Function.update_self, if_pos (Nat.lt_succ_self _)]
  · rw [Function.update_of_ne hl]
    have hne : l.val ≠ link.val := fun h => hl (Fin.ext h)
    exact if_congr (by omega) rfl rfl

/-- **The requests of a device** go to their vaults. -/
theorem Entering.xbars (h : s.Entering ordered received N dev fun _ => 0) (w : Wiring c) :
    Ensures bad ((List.finRange c.xbarDepth).foldlM (fun s i =>
      (List.finRange c.numLinks).foldlM (fun s link => s.processRqstQueueNew w dev link i) s) s)
      (Entering ordered received N dev fun _ => c.xbarDepth) := by
  refine foldlM_finRange (I := fun i => Entering ordered received N dev fun _ => i) (fun s i hs => ?_) h
  have hnone : turns (c := c) i 0 = fun _ => i.val := funext fun l => if_neg (Nat.not_lt_zero _)
  have hstart : s.Entering ordered received N dev (turns i 0) := hnone ▸ hs
  refine (foldlM_finRange (I := fun l => Entering ordered received N dev (turns i l))
    (fun s link hs => ?_) hstart).mono fun t ht => ?_
  · unfold processRqstQueueNew
    have hlink : turns (c := c) i link link = i := if_neg (lt_irrefl _)
    refine (hs.forward hlink w).bind fun r hr => ensures_ok ?_
    rwa [update_turns] at hr
  · have hall : turns (c := c) i c.numLinks = fun _ => i.val + 1 := funext fun l => if_pos l.isLt
    rwa [hall] at ht

/-- The state between two turns, with the vaults packed. -/
structure Packing (ordered : Prop) (received : Received c) (N : Network (Place c) (Sent c regs))
    (s : HMCSim c) : Prop extends s.Between ordered received N where
  vaults : s.VaultsPacked

/-- **The requests of the crossbars** go to their vaults. -/
theorem Packing.clockRootXbar (h : s.Packing ordered received N) (w : Wiring c) :
    Ensures bad (s.clockRootXbar w) (Packing ordered received N) := by
  refine foldlM_ensures (fun s dev _ hs => ?_) h
  split_ifs with hroot
  · have hstart : s.Entering ordered received N dev fun _ => 0 :=
      { hs with blocked := fun _ _ _ hj => absurd hj (Nat.not_lt_zero _) }
    exact (hstart.xbars w).mono fun t ht => { ht with }
  · exact ensures_ok hs

/-- Cubes that are connected to the host take no requests from others. -/
theorem clockChildXbar_eq {w : Wiring c} (hroot : ∀ dev, w.isRoot dev = true) (s : HMCSim c) :
    s.clockChildXbar w = .ok s := by
  unfold HMCSim.clockChildXbar
  simp only [hroot, if_true]
  induction List.finRange c.numDevs with
  | nil => rfl
  | cons dev devs ih => exact ih

end HMCSim

/-! ### Banks -/

namespace Vault

variable {regs : Registers c} {ordered : Prop} {dev : Fin c.numDevs} {i : Fin c.numVaults} {v : Vault c}
  {b : Fin c.numBanks}

/-- A bank that keeps what it has. -/
theorem shown_setBank {bank : HmcBank} (h : bank.held = (v.banks.get b).held) (place : VaultPlace c) :
    Vault.shown { v with banks := v.banks.set b bank b.isLt } place = v.shown place := by
  cases place with
  | rqst => rfl
  | rsp => rfl
  | bank b' =>
    rw [shown_bank, shown_bank, Slots.get_set]
    split_ifs with hb
    · rw [h, hb]
    · rfl

/-- **A response goes from its bank to the queue of the vault.** -/
theorem carries_pass {slot : Fin c.queueDepth} {bank : HmcBank} (hbank : v.banks.get b = bank)
    (hvalid : bank.valid = .valid) (hslot : (v.rspQueue.get slot).valid = .invalid)
    (hpacked : Packed HmcQueue.held v.rspQueue) :
    v.Carries ordered regs dev i { v with
      rspQueue := v.rspQueue.set slot ⟨.valid, bank.packet⟩ slot.isLt
      banks := v.banks.set b {} b.isLt } := by
  have hheld : v.shown (.bank b) = [] ++ bank.packet :: [] := by
    rw [shown_bank, hbank, HmcBank.held, if_pos hvalid]
    rfl
  have hfree := HmcQueue.held_eq_none.mpr hslot
  obtain ⟨hentered, hentered'⟩ := contents_put hfree (HmcQueue.held_mk bank.packet)
  refine carries_move (p := .bank b) (q := .rsp) (by simp) hheld hentered ?_ hentered' ?_ ?_
  · rw [shown_bank, Slots.get_set, if_pos rfl]
    rfl
  · intro place hp hq
    cases place with
    | rqst => rfl
    | rsp => exact absurd rfl hq
    | bank b' =>
      have hb : b ≠ b' := by
        rintro rfl
        exact hp rfl
      rw [shown_bank, shown_bank, Slots.get_set, if_neg hb]
  · intro x hx hanswer
    obtain ⟨hdev, hv, hb⟩ := Path.bank_mem_route.mp hx
    refine ⟨hanswer, ?_, fun _ => ⟨fun _ _ h => absurd h List.not_mem_nil,
      fun y hy habove => ?_⟩⟩
    · rw [hdev, hv, hb]
      exact ⟨[_, _], _, rfl⟩
    · rw [hpacked.above_eq_nil hfree] at habove
      cases habove

/-- **The turn of a bank.** -/
theorem carries_updateBank (hpacked : Packed HmcQueue.held v.rspQueue) (b : Fin c.numBanks) :
    v.Carries ordered regs dev i (v.updateBank b) ∧ Packed HmcQueue.held (v.updateBank b).rspQueue ∧
      (v.updateBank b).rqstQueue = v.rqstQueue := by
  unfold updateBank
  dsimp only
  split_ifs with hdelay hdone
  · cases hslot : lastFound v.rspQueue .invalid with
    | none => exact ⟨carries_of_shown (shown_setBank rfl), hpacked, rfl⟩
    | some slot =>
      exact ⟨carries_pass rfl hdone.2 (lastFound_spec hslot).1 hpacked, packed_put hpacked hslot _, rfl⟩
  · exact ⟨carries_of_shown (shown_setBank rfl), hpacked, rfl⟩
  · exact ⟨carries_of_shown fun _ => rfl, hpacked, rfl⟩

/-- **The banks of a vault** go on. -/
theorem carries_bankUpdate (h : v.Kept) (hpacked : Packed HmcQueue.held v.rspQueue) :
    v.Carries ordered regs dev i v.bankUpdate ∧ v.bankUpdate.Kept ∧
      Packed HmcQueue.held v.bankUpdate.rspQueue ∧ v.bankUpdate.rqstQueue = v.rqstQueue := by
  unfold bankUpdate
  refine List.foldlRecOn _ _ (motive := fun w : Vault c => v.Carries ordered regs dev i w ∧ w.Kept ∧
    Packed HmcQueue.held w.rspQueue ∧ w.rqstQueue = v.rqstQueue) ?_ ?_
  · exact ⟨carries_of_shown fun _ => rfl, h, hpacked, rfl⟩
  · rintro w ⟨hcarries, hkept, hpacked, hrqst⟩ b -
    obtain ⟨hnext, hnext', hsame⟩ : w.Carries ordered regs dev i (w.updateBank b) ∧
        Packed HmcQueue.held (w.updateBank b).rspQueue ∧ (w.updateBank b).rqstQueue = w.rqstQueue :=
      carries_updateBank hpacked b
    refine ⟨hcarries.trans hnext, ⟨(w.turns_updateBank b).working hkept.working, ?_⟩, hnext',
      hsame.trans hrqst⟩
    rw [hsame]
    exact hkept.waiting

end Vault

namespace HMCSim

variable {regs : Registers c} {bad : Fault → Prop} {ordered : Prop} {received : Received c}
  {N : Network (Place c) (Sent c regs)} {s : HMCSim c} {dev : Fin c.numDevs} {v : Fin c.numVaults}
  {vault : Vault c}

/-- **A loop over the vaults.** -/
theorem eachVault_ensures {f : HMCSim c → Fin c.numDevs → Fin c.numVaults → Outcome (HMCSim c)}
    {I : HMCSim c → Prop} (hf : ∀ s dev, ∀ v ∈ c.vaults, I s → Ensures bad (f s dev v) I) (hs : I s) :
    Ensures bad (s.eachVault f) I :=
  foldlM_ensures (fun _ dev _ ht => foldlM_ensures (fun u v hv hu => hf u dev v hv hu) ht) hs

/-- A vault that goes on. -/
theorem Between.setVault (h : s.Between ordered received N)
    (hcarries : ((s.devs.get dev).vaults.get v).Carries ordered regs dev v vault) (hkept : vault.Kept) :
    (s.setVault dev v vault).Between ordered received N where
  follows := h.follows.carry (hcarries received s rfl)
  kept := forall_setDev h.kept ((h.kept dev).setVault hkept)
  packed := fun ho => forall_setDev (h.packed ho) (h.packed ho dev)

/-- **The banks** go on. -/
theorem Packing.clockBankUpdate (h : s.Packing ordered received N) :
    Ensures bad s.clockBankUpdate (Packing ordered received N) := by
  refine eachVault_ensures (fun s dev v hv hs => ensures_ok ?_) h
  have hpacked := hs.vaults dev v hv
  obtain ⟨hcarries, hkept, hrsp, hrqst⟩ := Vault.carries_bankUpdate ((hs.kept dev).vaults v) hpacked.2
  refine { hs.setVault hcarries hkept with vaults := ?_ }
  exact forall_setDev hs.vaults ((hs.vaults dev).setVault ⟨hrqst ▸ hpacked.1, hrsp⟩)

end HMCSim

/-! ### Requests of the vaults -/

theorem Answered.cmd_ne_zero {bsize cmd : ℕ} (h : Answered bsize cmd) : cmd ≠ 0 := by
  rintro rfl
  obtain ⟨rspCmd, n, latency, block, hcommand, -⟩ := h
  simp [command, post] at hcommand

namespace Vault

/-- The requests in the first slots wait for banks that work. -/
def Blocked (reg : UInt64) (v : Vault c) (k : ℕ) : Prop :=
  ∀ (j : Fin c.queueDepth) w, j.val < k → (v.rqstQueue.get j).held = some w →
    0 < (v.bankOf reg (requestOf w)).delay

variable {regs : Registers c} {bad : Fault → Prop} {ordered : Prop} {dev : Fin c.numDevs}
  {i : Fin c.numVaults} {v v₀ : Vault c} {k : ℕ} {slot : Fin c.queueDepth} {queue : HmcQueue}

/-- The bank of a request. -/
def bankIndex (c : Cube) (reg : UInt64) (w : Words) : Fin c.numBanks :=
  ⟨decodeBank c (maxBlocksize reg) (requestOf w).addr, decodeBank_lt c _ _⟩

theorem dramlatency_pos : 0 < dramlatency := by decide

/-- The vault after the service of a request. -/
def served (v : Vault c) (reg : UInt64) (slot : Fin c.queueDepth) (w : Words) : Vault c where
  rqstQueue := v.rqstQueue.set slot .zero (c.vaultSlot_lt slot)
  rspQueue := v.rspQueue
  banks := v.banks.set (bankIndex c reg w)
    ⟨dramlatency, .valid, answerOf (maxBlocksize reg) (requestOf w)⟩

/-- **A request goes to its bank.** -/
theorem carries_served (hkept : v.Kept) (hqueue : v.rqstQueue.get slot = queue)
    (hvalid : queue.valid ≠ .invalid) (hfree : (v.bankOf (regs dev) (requestOf queue.packet)).delay = 0)
    (hblocked : v.Blocked (regs dev) slot) :
    v.Carries ordered regs dev i (v.served (regs dev) slot queue.packet) := by
  have hheld : (v.rqstQueue.get slot).held = some queue.packet := by
    rw [hqueue]
    exact HmcQueue.held_of_valid hvalid
  have hpath (x : Sent c regs) (hx : .vault dev i .rqst ∈ x.path.route) :
      x.path.bank = bankIndex c (regs dev) x.words := by
    obtain ⟨hdev, -⟩ := Path.rqst_mem_route.mp hx
    rw [hdev]
    rfl
  have hempty : v.shown (.bank (bankIndex c (regs dev) queue.packet)) = [] ++ [] := by
    have hidle : (v.banks.get (bankIndex c (regs dev) queue.packet)).valid ≠ .valid := by
      intro hpending
      have hpos := hkept.working _ hpending
      exact absurd hfree (ne_of_gt hpos)
    rw [shown_bank, HmcBank.held, if_neg hidle]
    rfl
  have hentered : (v.served (regs dev) slot queue.packet).shown
      (.bank (bankIndex c (regs dev) queue.packet)) =
        [] ++ answerOf (maxBlocksize (regs dev)) (requestOf queue.packet) :: [] := by
    rw [shown_bank, served, Slots.get_set, if_pos rfl]
    rfl
  obtain ⟨hleft, hleft'⟩ := contents_take hheld HmcQueue.held_zero
  refine carries_move (p := .rqst) (by simp) hleft hempty hleft' hentered ?_ ?_
  · intro place hp hq
    cases place with
    | rqst => exact absurd rfl hp
    | rsp => rfl
    | bank b =>
      have hb : bankIndex c (regs dev) queue.packet ≠ b := by
        rintro rfl
        exact hq rfl
      rw [shown_bank, shown_bank, served, Slots.get_set, if_neg hb]
  · intro x hx hwords
    obtain ⟨hdev, hv⟩ := Path.rqst_mem_route.mp hx
    have hbank := hpath x hx
    change x.words = queue.packet at hwords
    rw [hwords] at hbank
    refine ⟨?_, ?_, fun _ => ⟨fun y hy hbelow heq => ?_, fun _ _ h => absurd h List.not_mem_nil⟩⟩
    · rw [← hwords, hdev]
      rfl
    · rw [← hbank, hdev, hv]
      exact ⟨[_], _, rfl⟩
    · -- a request of the same class waits in a slot before it, so that their bank works
      obtain ⟨j, hj, hjheld⟩ := mem_below.mp hbelow
      have hbusy := hblocked j y.words hj hjheld
      have hsame : bankIndex c (regs dev) y.words = bankIndex c (regs dev) queue.packet := by
        rw [← hpath y hy, heq, hbank]
      have hzero : (v.bankOf (regs dev) (requestOf y.words)).delay = 0 :=
        (congrArg (fun b => (v.banks.get b).delay) hsame).trans hfree
      exact absurd hzero (ne_of_gt hbusy)

/-- The vault while its requests have their turns. -/
structure Serving (regs : Registers c) (ordered : Prop) (dev : Fin c.numDevs) (i : Fin c.numVaults)
    (v₀ : Vault c) (k : ℕ) (v : Vault c) : Prop where
  carries : v₀.Carries ordered regs dev i v
  kept : v.Kept
  blocked : v.Blocked (regs dev) k
  rest : ∀ w ∈ v.shown .rqst, w ∈ v₀.shown .rqst

/-- **The turn of a slot** keeps the requests before it waiting, and its own one when it stays. -/
theorem Blocked.turn {v' : Vault c} {reg : UInt64} (h : v.Blocked reg slot)
    (hrest : ∀ j, j ≠ slot → v'.rqstQueue.get j = v.rqstQueue.get j)
    (hbusy : ∀ b, 0 < (v.banks.get b).delay → 0 < (v'.banks.get b).delay)
    (hown : ∀ w, (v'.rqstQueue.get slot).held = some w → 0 < (v'.bankOf reg (requestOf w)).delay) :
    v'.Blocked reg (slot + 1) := by
  intro j w hj hw
  rcases Nat.lt_succ_iff_lt_or_eq.mp hj with hj | hj
  · rw [hrest j (ne_of_lt (Fin.lt_def.mpr hj))] at hw
    exact hbusy _ (h j w hj hw)
  · obtain rfl := Fin.ext hj
    exact hown w hw

/-- Only the slot changes. -/
theorem rqst_set_of_ne {x : HmcQueue} (j : Fin c.queueDepth) (h : j ≠ slot) :
    (v.rqstQueue.set slot x slot.isLt).get j = v.rqstQueue.get j := by
  rw [Slots.get_set, if_neg h.symm]

/-- A slot that gets a code other than that of a conflict. -/
theorem waiting_set {x : HmcQueue} (h : ∀ slot, (v.rqstQueue.get slot).valid ≠ .conflict)
    (hx : x.valid ≠ .conflict) (j : Fin c.queueDepth) :
    ((v.rqstQueue.set slot x slot.isLt).get j).valid ≠ .conflict := by
  rw [Slots.get_set]
  split_ifs
  · exact hx
  · exact h j

/-- A request whose bank works stays in its slot. -/
theorem Serving.stall (h : Serving regs ordered dev i v₀ slot v)
    (hqueue : v.rqstQueue.get slot = queue) (hvalid : queue.valid ≠ .invalid)
    (hbusy : 0 < (v.bankOf (regs dev) (requestOf queue.packet)).delay) :
    Serving regs ordered dev i v₀ (slot + 1)
      { v with rqstQueue := v.rqstQueue.set slot { queue with valid := .stalled } } := by
  have hheld : HmcQueue.held { queue with valid := .stalled } = (v.rqstQueue.get slot).held := by
    rw [hqueue, HmcQueue.held_stalled hvalid]
  have hshown : ∀ place, Vault.shown
      { v with rqstQueue := v.rqstQueue.set slot { queue with valid := .stalled } } place =
        v.shown place := by
    intro place
    cases place with
    | rqst => exact contents_keep hheld
    | bank b => rfl
    | rsp => rfl
  refine {
    carries := h.carries.trans (carries_of_shown hshown)
    kept := ⟨h.kept.working, waiting_set h.kept.waiting fun h => by cases h⟩
    blocked := ?_
    rest := fun w hw => h.rest w (hshown .rqst ▸ hw) }
  refine h.blocked.turn rqst_set_of_ne (fun _ => id) fun w hw => ?_
  rw [Slots.get_set, if_pos rfl, hheld, hqueue, HmcQueue.held_of_valid hvalid] at hw
  cases hw
  exact hbusy

/-- A request that goes to its bank. -/
theorem Serving.serve (h : Serving regs ordered dev i v₀ slot v)
    (hqueue : v.rqstQueue.get slot = queue) (hvalid : queue.valid ≠ .invalid)
    (hfree : (v.bankOf (regs dev) (requestOf queue.packet)).delay = 0) :
    Serving regs ordered dev i v₀ (slot + 1) (v.served (regs dev) slot queue.packet) where
  carries := h.carries.trans (carries_served h.kept hqueue hvalid hfree h.blocked)
  kept := {
    working := (turns_of_set (bankIndex c (regs dev) queue.packet).isLt rfl fun _ =>
      dramlatency_pos).working h.kept.working
    waiting := waiting_set h.kept.waiting fun h => by cases h }
  blocked := by
    refine h.blocked.turn rqst_set_of_ne (fun b hb => ?_) fun w hw => ?_
    · rw [served, Slots.get_set]
      split_ifs
      · exact dramlatency_pos
      · exact hb
    · rw [served, Slots.get_set, if_pos rfl] at hw
      cases hw
  rest := by
    intro w hw
    refine h.rest w (mem_contents.mpr ?_)
    obtain ⟨j, hj⟩ := mem_contents.mp hw
    rw [served, Slots.get_set] at hj
    split_ifs at hj
    · cases hj
    · exact ⟨j, hj⟩

/-- **The turn of a slot** in the requests of a vault. -/
theorem Serving.turn (slot : Fin c.queueDepth) (h : Serving regs ordered dev i v₀ slot v)
    (hsent : ∀ w ∈ v₀.shown .rqst, ∃ x : Sent c regs, .vault dev i .rqst ∈ x.path.route ∧ x.words = w)
    (cmcs : Vector HmcCmc maxCmc) :
    Ensures bad (v.serve (regs dev) cmcs slot) (Serving regs ordered dev i v₀ (slot + 1)) := by
  obtain ⟨queue, hqueue⟩ : ∃ queue, v.rqstQueue.get slot = queue := ⟨_, rfl⟩
  have hget : v.rqstQueue[slot.val] = queue := hqueue
  by_cases hvalid : queue.valid = .invalid
  · unfold Vault.serve
    rw [access_of_lt slot.isLt, Outcome.ok_bind, hget, if_neg fun hne => hne.1 hvalid]
    refine ensures_ok { h with blocked := h.blocked.turn (fun _ _ => rfl) (fun _ => id) fun w hw => ?_ }
    rw [hqueue, HmcQueue.held_eq_none.mpr hvalid] at hw
    cases hw
  · have hmem : queue.packet ∈ v.shown .rqst := by
      refine mem_contents.mpr ⟨slot, ?_⟩
      rw [hqueue]
      exact HmcQueue.held_of_valid hvalid
    obtain ⟨x, hx, hwords⟩ := hsent _ (h.rest _ hmem)
    have htail : lastWord (requestOf queue.packet).length < maxUqPacket := hwords ▸ x.tail
    have hanswered : Answered (maxBlocksize (regs dev)) (requestOf queue.packet).cmd := by
      obtain ⟨hdev, -⟩ := Path.rqst_mem_route.mp hx
      rw [← hwords, hdev]
      exact x.answered
    have hconflict : queue.valid ≠ .conflict := hqueue ▸ h.kept.waiting slot
    rw [serve_of_valid slot.isLt hget hvalid hconflict, processRqst_eq slot.isLt hget htail]
    change Ensures bad ((if (requestOf queue.packet).cmd = 0 then _ else
      if 0 < (v.bankOf (regs dev) (requestOf queue.packet)).delay then _ else _ : Outcome _).map _) _
    rw [if_neg hanswered.cmd_ne_zero]
    split_ifs with hbusy
    · exact ensures_ok (h.stall hqueue hvalid hbusy)
    · have hbank := (bankIndex c (regs dev) queue.packet).isLt
      have hperform : v.perform cmcs slot (bankIndex c (regs dev) queue.packet) (maxBlocksize (regs dev))
          queue (requestOf queue.packet) = .ok (0, v.served (regs dev) slot queue.packet) :=
        perform_answered_eq cmcs hbank slot.isLt hanswered (maxBlocksize_lt _)
      change Ensures bad ((v.perform cmcs slot (bankIndex c (regs dev) queue.packet)
        (maxBlocksize (regs dev)) queue (requestOf queue.packet)).map Prod.snd) _
      rw [hperform]
      exact ensures_ok (h.serve hqueue hvalid (Nat.eq_zero_of_not_pos hbusy))

end Vault

namespace HMCSim

variable {regs : Registers c} {bad : Fault → Prop} {ordered : Prop} {received : Received c}
  {N : Network (Place c) (Sent c regs)} {s : HMCSim c}

/-- **The requests of the vaults** go to their banks. -/
theorem Between.clockRwOps (h : s.Between ordered received N) :
    Ensures bad s.clockRwOps (Between ordered received N) := by
  refine eachVault_ensures (fun s dev v _ hs => ?_) h
  have hstart : Vault.Serving regs ordered dev v ((s.devs.get dev).vaults.get v) 0
      ((s.devs.get dev).vaults.get v) := {
    carries := Vault.carries_of_shown fun _ => rfl
    kept := (hs.kept dev).vaults v
    blocked := fun _ _ hj => absurd hj (Nat.not_lt_zero _)
    rest := fun _ => id }
  unfold Vault.rwOps
  dsimp only
  rw [(hs.kept dev).reg]
  refine (foldlM_range (I := Vault.Serving regs ordered dev v ((s.devs.get dev).vaults.get v))
    (fun u slot hslot hu => ?_) hstart).bind fun u hu => ensures_ok (hs.setVault hu.carries hu.kept)
  exact Vault.Serving.turn ⟨slot, hslot⟩ hu (fun w hw => hs.follows.exists_of_mem hw) s.cmcs

end HMCSim

/-! ### Responses -/

/-- The link of a response. -/
def linkOf (w : Words) : ℕ := (field (headWord w) 39 0x7).toNat

namespace HmcDev

/-- The responses in the first slots of a vault wait for links that are full. -/
def RspBlocked (d : HmcDev c) (v : Fin c.numVaults) (k : ℕ) : Prop :=
  ∀ (j : Fin c.queueDepth) w, j.val < k → ((d.vaults.get v).rspQueue.get j).held = some w →
    ∀ link : Fin c.numLinks, linkOf w = link → Full (d.xbar.get link).rsp

variable {d d' : HmcDev c} {v : Fin c.numVaults} {j : Fin c.queueDepth} {reg : UInt64}
  {link : Fin c.numLinks} {slot : Fin c.xbarDepth} {w : Words} {vault : Vault c}

/-- **The turn of a slot** keeps the responses before it waiting, and its own one when it stays. -/
theorem RspBlocked.turn (h : d.RspBlocked v j)
    (hrest : ∀ i, i ≠ j → (d'.vaults.get v).rspQueue.get i = (d.vaults.get v).rspQueue.get i)
    (hfull : ∀ link, Full (d.xbar.get link).rsp → Full (d'.xbar.get link).rsp)
    (hown : ∀ w, ((d'.vaults.get v).rspQueue.get j).held = some w →
      ∀ link : Fin c.numLinks, linkOf w = link → Full (d'.xbar.get link).rsp) :
    d'.RspBlocked v (j + 1) := by
  intro i w hi hw link hlink
  rcases Nat.lt_succ_iff_lt_or_eq.mp hi with hi | hi
  · rw [hrest i (ne_of_lt (Fin.lt_def.mpr hi))] at hw
    exact hfull link (h i w hi hw link hlink)
  · obtain rfl := Fin.ext hi
    exact hown w hw link hlink

theorem Kept.setRsp (h : d.Kept reg) {x : HmcQueue} (hx : x.valid = .invalid ∨ x.valid = .valid) :
    (d.setRsp link slot x).Kept reg where
  reg := h.reg
  vaults := h.vaults
  ready := by
    intro l i
    rw [rsp_setRsp]
    split_ifs
    · rw [get_set]
      split_ifs
      · exact hx
      · exact h.ready l i
    · exact h.ready l i

theorem RqstPacked.setRsp (h : d.RqstPacked) {x : HmcQueue} : (d.setRsp link slot x).RqstPacked := by
  intro l
  rw [rqst_setRsp]
  exact h l

theorem RspPacked.setRsp (h : d.RspPacked)
    (hslot : lastFound (d.xbar.get link).rsp .invalid = some slot) :
    (d.setRsp link slot ⟨.valid, w⟩).RspPacked := by
  intro l
  rw [rsp_setRsp]
  split_ifs with hl
  · subst hl
    exact packed_put (h link) hslot w
  · exact h l

end HmcDev

namespace HMCSim

variable {regs : Registers c} {bad : Fault → Prop} {ordered : Prop} {received : Received c}
  {N : Network (Place c) (Sent c regs)} {s : HMCSim c} {dev : Fin c.numDevs} {v : Fin c.numVaults}
  {j : Fin c.queueDepth} {queue : HmcQueue} {link : Fin c.numLinks} {slot : Fin c.xbarDepth}

/-- **A response goes to the crossbar of its link.** -/
theorem carries_register {d : HmcDev c} (hd : s.devs.get dev = d)
    (hqueue : (d.vaults.get v).rspQueue.get j = queue) (hvalid : queue.valid ≠ .invalid)
    (hlink : linkOf queue.packet = link) (hslot : ((d.xbar.get link).rsp.get slot).valid = .invalid)
    (hpacked : ordered → Packed HmcQueue.held (d.xbar.get link).rsp) (hblocked : d.RspBlocked v j) :
    s.Carries ordered regs received (s.setDev dev ((d.setRsp link slot ⟨.valid, queue.packet⟩).setVault v
      { d.vaults.get v with rspQueue := (d.vaults.get v).rspQueue.set j .zero })) := by
  have hheld : ((d.vaults.get v).rspQueue.get j).held = some queue.packet := by
    rw [hqueue]
    exact HmcQueue.held_of_valid hvalid
  have hfree := HmcQueue.held_eq_none.mpr hslot
  obtain ⟨hleft, hleft'⟩ := contents_take hheld HmcQueue.held_zero
  obtain ⟨hentered, hentered'⟩ := contents_put hfree (HmcQueue.held_mk queue.packet)
  have hp : s.shown received (.vault dev v .rsp) = _ := (congrArg (fun d : HmcDev c =>
    contents HmcQueue.held (d.vaults.get v).rspQueue) hd).trans hleft
  have hq : s.shown received (.xbarRsp dev link) = _ := (congrArg (fun d : HmcDev c =>
    contents HmcQueue.held (d.xbar.get link).rsp) hd).trans hentered
  refine Network.carries_move (by simp) hp hq (Eq.trans ?_ hleft') (Eq.trans ?_ hentered') ?_ ?_
  · simp
  · simp
  · intro p hp hq
    refine shown_setDev_eq hd ?_ ?_ ?_
    · rintro link' rfl
      simp
    · rintro link' rfl
      have hne : link ≠ link' := by
        rintro rfl
        exact hq rfl
      simp [hne]
    · rintro v' place rfl
      rw [HmcDev.vaults_setVault]
      split_ifs with hv
      · subst hv
        cases place with
        | rsp => exact absurd rfl hp
        | bank b => simp
        | rqst => simp
      · rfl
  · intro x hx hanswer
    obtain ⟨hdev, hv⟩ := Path.rsp_mem_route.mp hx
    change x.answer = queue.packet at hanswer
    have hxlink (y : Sent c regs) : linkOf y.answer = y.path.link := y.slid_answer
    have hown : link = x.path.link := Fin.ext (hlink.symm.trans (hanswer ▸ hxlink x))
    refine ⟨hanswer, ?_, fun ho => ⟨fun y hy hbelow heq => ?_, fun y hy habove => ?_⟩⟩
    · rw [hdev, hv, hown]
      exact ⟨[_, _, _], _, rfl⟩
    · -- a response of the same class waits in a slot before it, so that their link is full
      obtain ⟨i, hi, hiheld⟩ := mem_below.mp hbelow
      have hfull := hblocked i y.answer hi hiheld link (by rw [hxlink y, heq, hown])
      exact not_full hslot hfull
    · rw [(hpacked ho).above_eq_nil hfree] at habove
      cases habove

/-- The state between two turns of a vault that gives responses. -/
structure Leaving (ordered : Prop) (received : Received c) (N : Network (Place c) (Sent c regs))
    (dev : Fin c.numDevs) (v : Fin c.numVaults) (k : ℕ) (s : HMCSim c) : Prop
    extends s.Between ordered received N where
  blocked : (s.devs.get dev).RspBlocked v k

/-- A response whose link is full stays in its slot. -/
theorem Leaving.stall (h : s.Leaving ordered received N dev v j) {d : HmcDev c} (hd : s.devs.get dev = d)
    (hqueue : (d.vaults.get v).rspQueue.get j = queue) (hvalid : queue.valid ≠ .invalid)
    (hfull : ∀ link : Fin c.numLinks, linkOf queue.packet = link → Full (d.xbar.get link).rsp) :
    (s.setVault dev v { d.vaults.get v with
      rspQueue := (d.vaults.get v).rspQueue.set j { queue with valid := .stalled } j.isLt }).Leaving ordered
        received N dev v (j + 1) := by
  subst hd
  have hheld : HmcQueue.held { queue with valid := .stalled } =
      (((s.devs.get dev).vaults.get v).rspQueue.get j).held := by
    rw [hqueue, HmcQueue.held_stalled hvalid]
  have hcarries : ((s.devs.get dev).vaults.get v).Carries ordered regs dev v {
      (s.devs.get dev).vaults.get v with
      rspQueue := ((s.devs.get dev).vaults.get v).rspQueue.set j { queue with valid := .stalled } } := by
    refine Vault.carries_of_shown fun place => ?_
    cases place with
    | rqst => rfl
    | bank b => rfl
    | rsp => exact contents_keep hheld
  have hkept := (h.kept dev).vaults v
  refine { h.setVault hcarries ⟨hkept.working, hkept.waiting⟩ with blocked := ?_ }
  unfold setVault
  rw [get_setDev, if_pos rfl]
  refine h.blocked.turn (fun i hi => ?_) (fun _ => id) fun w hw => ?_
  · rw [HmcDev.vaults_setVault, if_pos rfl, get_set, if_neg hi.symm]
  · rw [HmcDev.vaults_setVault, if_pos rfl, get_set, if_pos rfl, hheld, hqueue,
      HmcQueue.held_of_valid hvalid] at hw
    cases hw
    exact hfull

/-- A response that goes to the crossbar of its link. -/
theorem Leaving.register (h : s.Leaving ordered received N dev v j) {d : HmcDev c}
    (hd : s.devs.get dev = d) (hqueue : (d.vaults.get v).rspQueue.get j = queue)
    (hvalid : queue.valid ≠ .invalid) (hlink : linkOf queue.packet = link)
    (hslot : lastFound (d.xbar.get link).rsp .invalid = some slot) :
    (s.setDev dev ((d.setRsp link slot ⟨.valid, queue.packet⟩).setVault v
      { d.vaults.get v with rspQueue := (d.vaults.get v).rspQueue.set j .zero })).Leaving ordered
        received N dev v (j + 1) := by
  subst hd
  have hfree := (lastFound_spec hslot).1
  have hkept := (h.kept dev).vaults v
  exact {
    follows := h.follows.carry (carries_register rfl hqueue hvalid hlink hfree
      (fun ho => h.packed ho dev link) h.blocked)
    kept := forall_setDev h.kept
      (((h.kept dev).setRsp (Or.inr rfl)).setVault ⟨hkept.working, hkept.waiting⟩)
    packed := fun ho => forall_setDev (h.packed ho) ((h.packed ho dev).setRsp hslot)
    blocked := by
      rw [get_setDev, if_pos rfl]
      refine h.blocked.turn (fun i hi => ?_) (fun l hfull => ?_) fun w hw => ?_
      · rw [HmcDev.vaults_setVault, if_pos rfl, get_set, if_neg hi.symm]
      · rw [HmcDev.xbar_setVault, HmcDev.rsp_setRsp]
        split_ifs with hl
        · exact absurd (hl ▸ hfull) (not_full hfree)
        · exact hfull
      · rw [HmcDev.vaults_setVault, if_pos rfl, get_set, if_pos rfl] at hw
        cases hw }

/-- The tokens do not matter. -/
theorem Leaving.tokens {k : ℕ} (h : s.Leaving ordered received N dev v k) (tokens : Tokens) :
    Leaving ordered received N dev v k { s with tokens := tokens } where
  follows := h.follows
  kept := h.kept
  packed := h.packed
  blocked := h.blocked

/-- A response has a token. -/
theorem tokenUpdate_eq (tokens : Tokens) (w : Words) :
    ∃ tokens', tokenUpdate tokens w = .ok tokens' := by
  have htag : (field (headWord w) 12 0x3FF).toNat < 1024 :=
    Nat.lt_succ_of_le (UInt64.toNat_and .. ▸ Nat.and_le_right)
  exact ⟨_, replace_of_lt htag⟩

/-- **The turn of a slot** in the responses of a vault. -/
theorem Leaving.turn (j : Fin c.queueDepth) (h : s.Leaving ordered received N dev v j) :
    Ensures bad (registerResponse dev v s j) (Leaving ordered received N dev v (j + 1)) := by
  obtain ⟨queue, hqueue⟩ : ∃ queue, ((s.devs.get dev).vaults.get v).rspQueue.get j = queue := ⟨_, rfl⟩
  unfold registerResponse
  dsimp only
  rw [hqueue]
  by_cases hvalid : queue.valid = .invalid
  · rw [if_pos hvalid]
    refine ensures_ok { h with blocked := h.blocked.turn (fun _ _ => rfl) (fun _ => id) fun w hw => ?_ }
    rw [hqueue, HmcQueue.held_eq_none.mpr hvalid] at hw
    cases hw
  · rw [if_neg hvalid]
    have hmem : queue.packet ∈ s.shown received (.vault dev v .rsp) := by
      refine mem_contents.mpr ⟨j, ?_⟩
      rw [hqueue]
      exact HmcQueue.held_of_valid hvalid
    obtain ⟨x, -, hanswer⟩ := h.follows.exists_of_mem hmem
    have hlink : linkOf queue.packet = x.path.link := by
      rw [← hanswer]
      exact x.slid_answer
    have hlt : (field (headWord queue.packet) 39 0x7).toNat < c.numLinks :=
      lt_of_eq_of_lt hlink x.path.link.isLt
    rw [dif_pos hlt]
    cases hslot : lastFound ((s.devs.get dev).xbar.get ⟨_, hlt⟩).rsp .invalid with
    | none =>
      refine ensures_ok (h.stall rfl hqueue hvalid fun link hl => ?_)
      obtain rfl : (⟨_, hlt⟩ : Fin c.numLinks) = link := Fin.ext hl
      exact lastFound_eq_none.mp hslot
    | some slot =>
      obtain ⟨tokens, htokens⟩ := tokenUpdate_eq s.tokens queue.packet
      dsimp only
      rw [htokens]
      exact ensures_ok ((h.register rfl hqueue hvalid rfl hslot).tokens tokens)

/-- **The responses of the vaults** go to the crossbars of their links. -/
theorem Between.clockRegResponses (h : s.Between ordered received N) :
    Ensures bad s.clockRegResponses (Between ordered received N) := by
  refine eachVault_ensures (fun s dev v _ hs => ?_) h
  have hstart : s.Leaving ordered received N dev v 0 :=
    { hs with blocked := fun _ _ hj => absurd hj (Nat.not_lt_zero _) }
  exact (foldlM_finRange (fun t j ht => ht.turn j) hstart).mono fun t ht => ht.toBetween

end HMCSim

/-! ### Compaction -/

/-- **The compaction of a queue** keeps its packets in their order and leaves no hole. -/
theorem reorg_spec {n : ℕ} (queue : Vector HmcQueue n) :
    contents HmcQueue.held (reorg queue) = contents HmcQueue.held queue ∧
      Packed HmcQueue.held (reorg queue) := by
  refine compact_spec (fun x hx => ?_) HmcQueue.held_zero queue
  rw [HmcQueue.held_of_valid fun h => hx (HmcQueue.held_eq_none.mpr h)]
  rfl

/-- A compaction marks slots as valid or leaves them. -/
theorem reorg_all {n : ℕ} {queue : Vector HmcQueue n} {P : Slot → Prop} (hvalid : P .valid)
    (hinvalid : P .invalid) (h : ∀ i, P (queue.get i).valid) (i : Fin n) : P ((reorg queue).get i).valid :=
  compact_all (P := fun x : HmcQueue => P x.valid) (fun _ _ => hvalid) hinvalid h i

/-- **The compaction of a vault.** -/
theorem Vault.reorgQueues_spec {v : Vault c} (h : v.Kept) :
    (∀ place, v.reorgQueues.shown place = v.shown place) ∧ v.reorgQueues.Kept ∧
      Packed HmcQueue.held v.reorgQueues.rqstQueue ∧ Packed HmcQueue.held v.reorgQueues.rspQueue := by
  refine ⟨fun place => ?_, ⟨h.working, ?_⟩, (reorg_spec _).2, (reorg_spec _).2⟩
  · cases place with
    | rqst => exact (reorg_spec _).1
    | bank b => rfl
    | rsp => exact (reorg_spec _).1
  · exact reorg_all (P := fun code => code ≠ .conflict) (by decide) (by decide) h.waiting

namespace HmcDev

variable {d : HmcDev c} {reg : UInt64} (link : Fin c.numLinks)

theorem get_reorgXbars : (d.reorgXbars.xbar.get link).rqst = reorg (d.xbar.get link).rqst ∧
    (d.reorgXbars.xbar.get link).rsp = reorg (d.xbar.get link).rsp := by
  have hget : d.reorgXbars.xbar.get link = ⟨reorg (d.xbar.get link).rqst, reorg (d.xbar.get link).rsp⟩ :=
    Vector.getElem_map _ link.isLt
  rw [hget]
  exact ⟨rfl, rfl⟩

theorem Kept.reorgXbars (h : d.Kept reg) : d.reorgXbars.Kept reg where
  reg := h.reg
  vaults := h.vaults
  ready := by
    intro link
    rw [(get_reorgXbars link).2]
    exact reorg_all (P := fun code => code = .invalid ∨ code = .valid) (Or.inr rfl) (Or.inl rfl)
      (h.ready link)

theorem packed_reorgXbars (d : HmcDev c) : d.reorgXbars.RqstPacked ∧ d.reorgXbars.RspPacked := by
  constructor
  · intro link
    rw [(get_reorgXbars link).1]
    exact (reorg_spec _).2
  · intro link
    rw [(get_reorgXbars link).2]
    exact (reorg_spec _).2

end HmcDev

namespace HMCSim

variable {regs : Registers c} {bad : Fault → Prop} {ordered : Prop} {received : Received c}
  {N : Network (Place c) (Sent c regs)} {s : HMCSim c}

/-- The state between two events: no queue has a hole, but for the responses of the crossbars. -/
structure Settled (ordered : Prop) (received : Received c) (N : Network (Place c) (Sent c regs))
    (s : HMCSim c) : Prop where
  follows : s.Follows ordered received N
  kept : s.Kept regs
  vaults : s.VaultsPacked
  rqst : s.RqstPacked

/-- The queues of a vault have no hole. -/
def VaultPacked (s : HMCSim c) (dev : Fin c.numDevs) (v : Fin c.numVaults) : Prop :=
  Packed HmcQueue.held ((s.devs.get dev).vaults.get v).rqstQueue ∧
    Packed HmcQueue.held ((s.devs.get dev).vaults.get v).rspQueue

/-- A vault that gets queues without holes. -/
theorem VaultPacked.setVault {dev dev' : Fin c.numDevs} {v v' : Fin c.numVaults} {vault : Vault c}
    (hvault : Packed HmcQueue.held vault.rqstQueue ∧ Packed HmcQueue.held vault.rspQueue)
    (h : s.VaultPacked dev v) : (s.setVault dev' v' vault).VaultPacked dev v := by
  unfold VaultPacked HMCSim.setVault
  rw [get_setDev]
  split_ifs with hdev
  · subst hdev
    rw [HmcDev.vaults_setVault]
    split_ifs
    · exact hvault
    · exact h
  · exact h

/-- **A loop over the vaults** whose turns do their part each, and undo no other one. -/
theorem eachVault_each {f : HMCSim c → Fin c.numDevs → Fin c.numVaults → Outcome (HMCSim c)}
    {J : HMCSim c → Prop} {P : HMCSim c → Fin c.numDevs → Fin c.numVaults → Prop}
    (hf : ∀ s dev, ∀ v ∈ c.vaults, J s →
      Ensures bad (f s dev v) fun t => J t ∧ P t dev v ∧ ∀ dev' v', P s dev' v' → P t dev' v')
    (hs : J s) : Ensures bad (s.eachVault f) fun t => J t ∧ ∀ dev, ∀ v ∈ c.vaults, P t dev v := by
  refine (foldlM_each (J := J) (P := fun dev t => ∀ v ∈ c.vaults, P t dev v)
    (g := fun s dev => c.vaults.foldlM (fun s v => f s dev v) s) id (l := List.finRange c.numDevs)
    (fun s dev _ hs => ?_) hs).mono fun t ht => ⟨ht.1, fun dev => ht.2.1 dev (List.mem_finRange dev)⟩
  -- The vaults of one cube.
  refine (foldlM_each (J := J) (P := fun place t => P t place.1 place.2)
    (g := fun s v => f s dev v) (fun v => (dev, v)) (l := c.vaults)
    (fun s v hv hs => (hf s dev v hv hs).mono fun t ht => ⟨ht.1, ht.2.1, fun b => ht.2.2 b.1 b.2⟩) hs).mono
    fun t ht => ⟨ht.1, ht.2.1, fun dev' hdev' v hv => ht.2.2 (dev', v) (hdev' v hv)⟩

/-- **The compaction of the queues** keeps all packets where they are, in their order. -/
theorem Between.clockQueueReorg (h : s.Between ordered received N) :
    Ensures bad s.clockQueueReorg fun t => t.Settled ordered received N ∧ t.RspPacked := by
  obtain ⟨t, ht⟩ : ∃ t : HMCSim c, t = { s with devs := s.devs.map HmcDev.reorgXbars } := ⟨_, rfl⟩
  have hget (dev : Fin c.numDevs) : t.devs.get dev = (s.devs.get dev).reorgXbars := by
    rw [ht]
    exact Vector.getElem_map _ dev.isLt
  -- A compaction moves packets to other slots of their queue, and a place shows the packets without
  -- the slots.
  have hshown : t.shown received = s.shown received := by
    funext p
    cases p with
    | received dev link => rfl
    | xbarRqst dev link =>
      unfold shown
      dsimp only
      rw [hget, (HmcDev.get_reorgXbars link).1, (reorg_spec _).1]
    | xbarRsp dev link =>
      unfold shown
      dsimp only
      rw [hget, (HmcDev.get_reorgXbars link).2, (reorg_spec _).1]
    | vault dev v place =>
      unfold shown
      dsimp only
      rw [hget]
      rfl
  have hstart : t.Follows ordered received N ∧ t.Kept regs ∧ t.RqstPacked ∧ t.RspPacked := by
    refine ⟨h.follows.carry (carries_of_shown hshown), ?_, ?_, ?_⟩
    · intro dev
      rw [hget]
      exact (h.kept dev).reorgXbars
    · intro dev
      rw [hget]
      exact (HmcDev.packed_reorgXbars _).1
    · intro dev
      rw [hget]
      exact (HmcDev.packed_reorgXbars _).2
  -- The queues of the crossbars are compacted first, then the vaults one at a time.
  unfold HMCSim.clockQueueReorg
  dsimp only
  rw [← ht]
  refine (eachVault_each (J := fun t : HMCSim c => t.Follows ordered received N ∧ t.Kept regs ∧
    t.RqstPacked ∧ t.RspPacked) (P := VaultPacked) (fun s dev v _ hs => ensures_ok ?_) hstart).mono
      fun u hu => ⟨⟨hu.1.1, hu.1.2.1, hu.2, hu.1.2.2.1⟩, hu.1.2.2.2⟩
  obtain ⟨hfollows, hkept, hrqst, hrsp⟩ := hs
  obtain ⟨hshown, hkept', hpacked⟩ := Vault.reorgQueues_spec ((hkept dev).vaults v)
  refine ⟨⟨hfollows.carry (Vault.carries_of_shown hshown received s rfl),
    forall_setDev hkept ((hkept dev).setVault hkept'), forall_setDev hrqst (hrqst dev),
    forall_setDev hrsp (hrsp dev)⟩, ?_, fun dev' v' => VaultPacked.setVault hpacked⟩
  unfold VaultPacked
  rw [get_setVault]
  exact hpacked

/-- **A clock** of cubes that are connected to the host moves the requests along their routes. They stay
in their order when the clock finds no hole in the responses of the crossbars. -/
theorem Settled.clock (h : s.Settled ordered received N) (hordered : ordered → s.RspPacked)
    {w : Wiring c} (hroot : ∀ dev, w.isRoot dev = true) :
    Ensures bad (s.clock w) fun t => t.Settled ordered received N ∧ t.RspPacked := by
  have hstart : s.Packing ordered received N := {
    follows := h.follows
    kept := h.kept
    packed := hordered
    vaults := h.vaults }
  unfold HMCSim.clock
  rw [clockChildXbar_eq hroot, Outcome.ok_bind]
  refine (hstart.clockRootXbar w).bind fun s₁ h₁ => ?_
  refine h₁.clockBankUpdate.bind fun s₂ h₂ => ?_
  refine h₂.toBetween.clockRwOps.bind fun s₃ h₃ => ?_
  refine h₃.clockRegResponses.bind fun s₄ h₄ => ?_
  exact h₄.clockQueueReorg

end HMCSim

end PIMSim.HMC
