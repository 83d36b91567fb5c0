import Mathlib.Data.Prod.Lex
import PIMSim.HMC.Traffic

/-!
# Every request is answered

A packet that stays where it is waits for another one. The requests of a crossbar wait for vaults that are
full, the requests of a vault for banks that work, and its responses for links that are full. When the
host has received what waits at the links, a clock therefore moves a packet, or takes a cycle from a bank,
or all packets have been received.

## Main definitions

* `HMCSim.remaining`, `HMCSim.totalDelay`: the way that the packets have before them, and the cycles that
  the banks have
* `HMCSim.Proceeds`: packets go on, or none moves
* `XbarsWait`, `HMCSim.RqstsWait`, `RspsWait`: what the packets wait for
* `Traffic.round`: the host receives what waits at the links, and lets the cubes go on

## Main results

* `HMCSim.Settled.clock_proceeds`: a clock goes on
* `Traffic.answers_accepted`: every accepted request is answered
-/

namespace PIMSim.HMC

open CSharp Fields Slots Transition

variable {c : Cube}

/-! ### The way that is left -/

/-- The places that a packet has before it. -/
def Place.weight : Place c → ℕ
  | .xbarRqst _ _ => 5
  | .vault _ _ .rqst => 4
  | .vault _ _ (.bank _) => 3
  | .vault _ _ .rsp => 2
  | .xbarRsp _ _ => 1
  | .received _ _ => 0

theorem Path.weight_falls (k : Path c) : k.route.Pairwise fun p q => q.weight < p.weight := by
  simp [route, Place.weight]

namespace HMCSim

variable {regs : Registers c} {bad : Fault → Prop} {ordered : Prop} {received received' : Received c}
  {N : Network (Place c) (Sent c regs)} {s t u : HMCSim c} {dev : Fin c.numDevs} {v : Fin c.numVaults}

/-- The way that the packets have before them. -/
def remaining (received : Received c) (s : HMCSim c) : ℕ :=
  ∑ p, p.weight * (s.shown received p).length

/-- Nothing has moved, or packets have gone on. -/
def Proceeds (received : Received c) (s t : HMCSim c) : Prop :=
  t.shown received = s.shown received ∨ t.remaining received < s.remaining received

theorem remaining_congr (h : t.shown received' = s.shown received) :
    t.remaining received' = s.remaining received := by
  unfold remaining
  rw [h]

theorem Proceeds.refl : s.Proceeds received s := Or.inl rfl

theorem Proceeds.le (h : s.Proceeds received t) : t.remaining received ≤ s.remaining received := by
  rcases h with heq | hlt
  · exact (remaining_congr heq).le
  · exact hlt.le

theorem Proceeds.trans (h : s.Proceeds received t) (h' : t.Proceeds received u) :
    s.Proceeds received u := by
  rcases h with heq | hlt
  · rcases h' with heq' | hlt'
    · exact Or.inl (heq'.trans heq)
    · exact Or.inr (hlt'.trans_le (remaining_congr heq).le)
  · exact Or.inr (h'.le.trans_lt hlt)

theorem remaining_eq (h : N.Shows Sent.view (s.shown received)) :
    N.remaining Place.weight = s.remaining received := by
  unfold Network.remaining remaining
  simp only [h _, List.length_map]

/-- What follows a network has proceeded from it. -/
theorem Follows.proceeds (hs : N.Shows Sent.view (s.shown received)) (h : t.Follows ordered received' N) :
    t.shown received' = s.shown received ∨ t.remaining received' < s.remaining received := by
  obtain ⟨N', hsteps, haccepted, -, ht⟩ := h
  rcases Network.steps_remaining Path.weight_falls hsteps haccepted with rfl | hlt
  · exact Or.inl (funext fun p => (ht p).trans (hs p).symm)
  · rw [remaining_eq hs, remaining_eq ht] at hlt
    exact Or.inr hlt

/-- The network that is seen. -/
theorem Follows.rebase (h : s.Follows ordered received N) :
    ∃ M : Network (Place c) (Sent c regs),
      M.Shows Sent.view (s.shown received) ∧ s.Follows ordered received M := by
  obtain ⟨M, -, -, hroute, hshows⟩ := h
  exact ⟨M, hshows, M, .refl, rfl, hroute, hshows⟩

end HMCSim

/-! ### Full queues -/

theorem Cube.queueDepth_pos (c : Cube) : 0 < c.queueDepth := by
  have h := c.accepted
  simp only [Sizes.refused, Bool.or_eq_false_iff, decide_eq_false_iff_not] at h
  omega

/-- A full queue shows something. -/
theorem Full.contents_ne_nil {n : ℕ} {queue : Vector HmcQueue n} (h : Full queue) (hn : 0 < n) :
    contents HmcQueue.held queue ≠ [] :=
  List.ne_nil_of_mem (mem_contents.mpr ⟨⟨0, hn⟩, HmcQueue.held_of_valid (h ⟨0, hn⟩)⟩)

/-! ### The crossbars -/

/-- The requests in the crossbars of a device wait for vaults that have requests. -/
def XbarsWait (shown : Place c → List Words) (dev : Fin c.numDevs) : Prop :=
  ∀ link, shown (.xbarRqst dev link) ≠ [] → ∃ v, shown (.vault dev v .rqst) ≠ []

namespace HMCSim

variable {regs : Registers c} {bad : Fault → Prop} {ordered : Prop} {received : Received c}
  {N : Network (Place c) (Sent c regs)} {s t u : HMCSim c} {dev : Fin c.numDevs} {v : Fin c.numVaults}

/-- What comes after the turns of all slots. -/
theorem Entering.waits (h : s.Entering ordered received N dev fun _ => c.xbarDepth) :
    XbarsWait (s.shown received) dev := by
  intro link hlink
  obtain ⟨w, hw⟩ := List.exists_mem_of_ne_nil _ hlink
  obtain ⟨i, hi⟩ := mem_contents.mp hw
  exact ⟨_, (h.blocked link i w i.isLt hi).contents_ne_nil c.queueDepth_pos⟩

/-- The turns of a device. -/
theorem Entering.xbars_proceeds (h : s.Entering ordered received N dev fun _ => 0) (w : Wiring c) :
    Ensures bad ((List.finRange c.xbarDepth).foldlM (fun s i =>
      (List.finRange c.numLinks).foldlM (fun s link => s.processRqstQueueNew w dev link i) s) s)
      fun t => t.Entering ordered received N dev (fun _ => c.xbarDepth) ∧ s.Proceeds received t := by
  obtain ⟨M, hM, hfollows⟩ := h.follows.rebase
  have hbase : s.Entering ordered received M dev fun _ => 0 := { h with follows := hfollows }
  have hturns : Ensures bad _ (Entering ordered received M dev fun _ => c.xbarDepth) := hbase.xbars w
  exact (h.xbars w).and fun t ht => (hturns.1 t ht).follows.proceeds hM

/-- **The requests of the crossbars** go on, or wait for vaults. -/
theorem Packing.clockRootXbar_proceeds (h : s.Packing ordered received N) {w : Wiring c}
    (hroot : ∀ dev, w.isRoot dev = true) :
    Ensures bad (s.clockRootXbar w) fun t => (t.Packing ordered received N ∧ s.Proceeds received t) ∧
      ∀ dev, t.remaining received < s.remaining received ∨ XbarsWait (s.shown received) dev := by
  refine (foldlM_each (J := fun u => u.Packing ordered received N ∧ s.Proceeds received u)
    (P := fun dev u => u.remaining received < s.remaining received ∨ XbarsWait (s.shown received) dev) id
    (fun u dev _ hu => ?_) ⟨h, .refl⟩).mono fun t ht => ⟨ht.1, fun dev => ht.2.1 dev (List.mem_finRange dev)⟩
  obtain ⟨hpacking, hsu⟩ := hu
  rw [if_pos (hroot dev)]
  have hstart : u.Entering ordered received N dev fun _ => 0 :=
    { hpacking with blocked := fun _ _ _ hj => absurd hj (Nat.not_lt_zero _) }
  refine (hstart.xbars_proceeds w).mono fun t ⟨ht, hut⟩ => ?_
  have hst := hsu.trans hut
  refine ⟨⟨{ ht with }, hst⟩, ?_, fun b hb => hb.imp (hut.le.trans_lt ·) id⟩
  rcases hst with heq | hlt
  · exact Or.inr (heq ▸ ht.waits)
  · exact Or.inl hlt

end HMCSim

/-! ### The banks -/

namespace Vault

variable {v : Vault c} {b : Fin c.numBanks}

/-- The cycles that a bank has left. -/
def delay (v : Vault c) (b : Fin c.numBanks) : ℕ := (v.banks.get b).delay

/-- What the turns of some banks do: no bank gets cycles, and each of them has fewer if it had some, or
the response queue shows why not. -/
structure GoesOn (bs : List (Fin c.numBanks)) (v v' : Vault c) : Prop where
  le : ∀ b, v'.delay b ≤ v.delay b
  rsp : v.shown .rsp ≠ [] → v'.shown .rsp ≠ []
  falls : ∀ b ∈ bs, 0 < v.delay b → v'.delay b < v.delay b ∨ v'.shown .rsp ≠ []

theorem delay_set {bank : HmcBank} {rspQueue : Vector HmcQueue c.queueDepth} (b' : Fin c.numBanks) :
    delay { v with rspQueue := rspQueue, banks := v.banks.set b bank b.isLt } b' =
      if b = b' then bank.delay else v.delay b' := by
  unfold delay
  rw [Slots.get_set]
  split_ifs <;> rfl

/-- A bank that gets fewer cycles. -/
theorem GoesOn.set {bank : HmcBank} {rspQueue : Vector HmcQueue c.queueDepth}
    (hle : bank.delay ≤ v.delay b)
    (hrsp : contents HmcQueue.held v.rspQueue ≠ [] → contents HmcQueue.held rspQueue ≠ [])
    (hfalls : bank.delay < v.delay b ∨ contents HmcQueue.held rspQueue ≠ []) :
    GoesOn [b] v { v with rspQueue := rspQueue, banks := v.banks.set b bank b.isLt } where
  le := by
    intro b'
    rw [delay_set]
    split_ifs with hb
    · exact hb ▸ hle
    · exact le_rfl
  rsp := hrsp
  falls := by
    intro b' hb' _
    obtain rfl := List.mem_singleton.mp hb'
    rw [delay_set, if_pos rfl]
    exact hfalls

/-- **The turn of a bank.** -/
theorem goesOn_updateBank (v : Vault c) (b : Fin c.numBanks) : GoesOn [b] v (v.updateBank b) := by
  unfold updateBank
  dsimp only
  split_ifs with hdelay hdone
  · cases hslot : lastFound v.rspQueue .invalid with
    | none =>
      have hfull : Full v.rspQueue := lastFound_eq_none.mp hslot
      exact .set hdelay id (Or.inr (hfull.contents_ne_nil c.queueDepth_pos))
    | some slot =>
      obtain ⟨-, hput⟩ := contents_put (HmcQueue.held_eq_none.mpr (lastFound_spec hslot).1)
        (HmcQueue.held_mk (v.banks.get b).packet)
      refine .set (Nat.zero_le _) (fun _ => ?_) (Or.inl hdelay)
      rw [hput]
      exact List.append_ne_nil_of_right_ne_nil _ (List.cons_ne_nil _ _)
  · exact .set (Nat.sub_le _ _) id (Or.inl (Nat.sub_lt hdelay Nat.one_pos))
  · refine ⟨fun _ => le_rfl, id, fun b' hb' hpos => ?_⟩
    obtain rfl := List.mem_singleton.mp hb'
    exact absurd hpos hdelay

theorem GoesOn.cons {v' v'' : Vault c} {bs : List (Fin c.numBanks)} (h : GoesOn [b] v v')
    (h' : GoesOn bs v' v'') : GoesOn (b :: bs) v v'' where
  le := fun b' => (h'.le b').trans (h.le b')
  rsp := fun hrsp => h'.rsp (h.rsp hrsp)
  falls := by
    intro b' hb' hpos
    rcases List.mem_cons.mp hb' with rfl | hb'
    · exact (h.falls b' (List.mem_singleton_self b') hpos).imp (h'.le b').trans_lt h'.rsp
    · rcases Nat.eq_zero_or_pos (v'.delay b') with hzero | hpos'
      · exact Or.inl ((hzero ▸ h'.le b').trans_lt hpos)
      · exact (h'.falls b' hb' hpos').imp (·.trans_le (h.le b')) id

/-- **The banks of a vault** go on. -/
theorem goesOn_bankUpdate (v : Vault c) : GoesOn (List.finRange c.numBanks) v v.bankUpdate := by
  unfold bankUpdate
  induction List.finRange c.numBanks generalizing v with
  | nil => exact ⟨fun _ => le_rfl, id, fun b hb => absurd hb List.not_mem_nil⟩
  | cons b bs ih => exact (v.goesOn_updateBank b).cons (ih (v.updateBank b))

end Vault

namespace HMCSim

variable {regs : Registers c} {bad : Fault → Prop} {ordered : Prop} {received : Received c}
  {N : Network (Place c) (Sent c regs)} {s t u : HMCSim c} {dev : Fin c.numDevs} {v : Fin c.numVaults}

/-- The cycles that a bank has left. -/
def delay (s : HMCSim c) (dev : Fin c.numDevs) (v : Fin c.numVaults) (b : Fin c.numBanks) : ℕ :=
  ((s.devs.get dev).vaults.get v).delay b

/-- What a vault shows and the cycles of its banks, after another vault has been assigned. -/
theorem vault_setVault {dev' : Fin c.numDevs} {v' : Fin c.numVaults} (vault : Vault c) :
    ((s.setVault dev v vault).devs.get dev').vaults.get v' =
      if dev = dev' ∧ v = v' then vault else (s.devs.get dev').vaults.get v' := by
  unfold setVault
  rw [get_setDev]
  by_cases hdev : dev = dev'
  · subst hdev
    rw [if_pos rfl, HmcDev.vaults_setVault]
    simp
  · rw [if_neg hdev, if_neg fun h => hdev h.1]

/-- The banks of a vault that had cycles left have fewer, or responses wait. -/
def Falls (received : Received c) (s t : HMCSim c) (dev : Fin c.numDevs) (v : Fin c.numVaults) : Prop :=
  ∀ b, 0 < s.delay dev v b → t.delay dev v b < s.delay dev v b ∨
    t.shown received (.vault dev v .rsp) ≠ []

/-- The turn of a vault. -/
theorem Falls.turn (received : Received c) {vault : Vault c} (hgoes : Vault.GoesOn (List.finRange c.numBanks)
      ((u.devs.get dev).vaults.get v) vault) (hle : ∀ dev v b, u.delay dev v b ≤ s.delay dev v b) :
    (∀ dev' v' b, (u.setVault dev v vault).delay dev' v' b ≤ s.delay dev' v' b) ∧
      Falls received s (u.setVault dev v vault) dev v ∧
        ∀ dev' v', Falls received s u dev' v' → Falls received s (u.setVault dev v vault) dev' v' := by
  have hdelay (dev' : Fin c.numDevs) (v' : Fin c.numVaults) (b : Fin c.numBanks) :
      (u.setVault dev v vault).delay dev' v' b ≤ u.delay dev' v' b := by
    unfold delay
    rw [vault_setVault]
    split_ifs with h
    · obtain ⟨rfl, rfl⟩ := h
      exact hgoes.le b
    · exact le_rfl
  refine ⟨fun dev' v' b => (hdelay dev' v' b).trans (hle dev' v' b), fun b hpos => ?_, fun dev' v' h b hpos => ?_⟩
  · rw [shown_setVault_self]
    have hself : (u.setVault dev v vault).delay dev v b = vault.delay b := by
      unfold delay
      rw [vault_setVault, if_pos ⟨rfl, rfl⟩]
    rw [hself]
    rcases Nat.eq_zero_or_pos (u.delay dev v b) with hzero | hpos'
    · exact Or.inl (((hgoes.le b).trans_eq hzero).trans_lt hpos)
    · exact (hgoes.falls b (List.mem_finRange b) hpos').imp (·.trans_le (hle dev v b)) id
  · refine (h b hpos).imp ((hdelay dev' v' b).trans_lt ·) fun hrsp => ?_
    by_cases hsame : dev = dev' ∧ v = v'
    · obtain ⟨rfl, rfl⟩ := hsame
      rw [shown_setVault_self]
      exact hgoes.rsp hrsp
    · rw [shown_setVault_of_ne]
      · exact hrsp
      · rintro place heq
        cases heq
        exact hsame ⟨rfl, rfl⟩

/-- **The banks** go on, or their responses wait. -/
theorem Packing.clockBankUpdate_proceeds (h : s.Packing ordered received N) :
    Ensures bad s.clockBankUpdate fun t => (t.Packing ordered received N ∧ s.Proceeds received t ∧
      ∀ dev v b, t.delay dev v b ≤ s.delay dev v b) ∧ ∀ dev, ∀ v ∈ c.vaults, Falls received s t dev v := by
  refine eachVault_each (fun u dev v hv hu => ensures_ok ?_) ⟨h, .refl, fun _ _ _ => le_rfl⟩
  obtain ⟨hpacking, hsu, hle⟩ := hu
  have hpacked := hpacking.vaults dev v hv
  obtain ⟨hcarries, hkept, hrsp, hrqst⟩ :
      ((u.devs.get dev).vaults.get v).Carries ordered regs dev v _ ∧ _ :=
    Vault.carries_bankUpdate ((hpacking.kept dev).vaults v) hpacked.2
  obtain ⟨M, hM, hfollows⟩ := hpacking.follows.rebase
  obtain ⟨hle', hfalls, hstays⟩ := Falls.turn received
    (((u.devs.get dev).vaults.get v).goesOn_bankUpdate) hle
  refine ⟨⟨{ hpacking.setVault hcarries hkept with vaults := ?_ }, ?_, hle'⟩, hfalls, hstays⟩
  · exact forall_setDev hpacking.vaults ((hpacking.vaults dev).setVault ⟨hrqst ▸ hpacked.1, hrsp⟩)
  · exact hsu.trans ((hfollows.carry (hcarries received u rfl)).proceeds hM)

end HMCSim

/-! ### The requests of the vaults -/

namespace Vault

variable {regs : Registers c} {bad : Fault → Prop} {ordered : Prop} {dev : Fin c.numDevs}
  {i : Fin c.numVaults} {v v₀ : Vault c} {slot : Fin c.queueDepth}

/-- The banks are as before, or a request has left the queue. -/
def Quiet (v₀ v : Vault c) : Prop :=
  v.banks = v₀.banks ∧ (v.shown .rqst).length = (v₀.shown .rqst).length ∨
    (v.shown .rqst).length < (v₀.shown .rqst).length

theorem Quiet.trans {v' : Vault c} (h : v₀.Quiet v) (h' : v.Quiet v') : v₀.Quiet v' := by
  rcases h with ⟨hbanks, hlength⟩ | hlt
  · rcases h' with ⟨hbanks', hlength'⟩ | hlt'
    · exact Or.inl ⟨hbanks'.trans hbanks, hlength'.trans hlength⟩
    · exact Or.inr (hlt'.trans_eq hlength)
  · rcases h' with ⟨-, hlength'⟩ | hlt'
    · exact Or.inr (hlength'.trans_lt hlt)
    · exact Or.inr (hlt'.trans hlt)

/-- The turn of a slot leaves the banks, or serves the request. -/
theorem quiet_serve (slot : Fin c.queueDepth) {reg : UInt64} {cmcs : Vector HmcCmc maxCmc} {v' : Vault c} (hkept : v.Kept)
    (hanswered : ∀ w ∈ v.shown .rqst, lastWord (requestOf w).length < maxUqPacket ∧
      Answered (maxBlocksize reg) (requestOf w).cmd)
    (h : v.serve reg cmcs slot = .ok v') : v.Quiet v' := by
  obtain ⟨queue, hqueue⟩ : ∃ queue, v.rqstQueue.get slot = queue := ⟨_, rfl⟩
  have hget : v.rqstQueue[slot.val] = queue := hqueue
  by_cases hvalid : queue.valid = .invalid
  · unfold serve at h
    rw [access_of_lt slot.isLt, Outcome.ok_bind, hget, if_neg fun hne => hne.1 hvalid] at h
    cases h
    exact Or.inl ⟨rfl, rfl⟩
  · have hheld : (v.rqstQueue.get slot).held = some queue.packet := by
      rw [hqueue]
      exact HmcQueue.held_of_valid hvalid
    obtain ⟨htail, hanswered⟩ := hanswered _ (mem_contents.mpr ⟨slot, hheld⟩)
    have hconflict : queue.valid ≠ .conflict := hqueue ▸ hkept.waiting slot
    rw [serve_of_valid slot.isLt hget hvalid hconflict, processRqst_eq slot.isLt hget htail] at h
    change (if (requestOf queue.packet).cmd = 0 then _ else
      if 0 < (v.bankOf reg (requestOf queue.packet)).delay then _ else _ : Outcome _).map _ = _ at h
    rw [if_neg hanswered.cmd_ne_zero] at h
    split_ifs at h
    · cases h
      refine Or.inl ⟨rfl, congrArg List.length (contents_keep ?_)⟩
      rw [hqueue, HmcQueue.held_stalled hvalid]
    · have hbank := (bankIndex c reg queue.packet).isLt
      have hperform : v.perform cmcs slot (bankIndex c reg queue.packet) (maxBlocksize reg) queue
          (requestOf queue.packet) = .ok (0, v.served reg slot queue.packet) :=
        perform_answered_eq cmcs hbank slot.isLt hanswered (maxBlocksize_lt _)
      change (v.perform cmcs slot (bankIndex c reg queue.packet) (maxBlocksize reg) queue
        (requestOf queue.packet)).map Prod.snd = _ at h
      rw [hperform] at h
      cases h
      obtain ⟨hleft, hleft'⟩ := contents_take hheld HmcQueue.held_zero
      right
      change (contents HmcQueue.held _).length < (contents HmcQueue.held _).length
      rw [served, hleft, hleft', List.length_append, List.length_append, List.length_cons]
      omega

/-- A request that stays waits for a bank that works. -/
theorem Blocked.busy {reg : UInt64} (h : v.Blocked reg c.queueDepth) (hrqst : v.shown .rqst ≠ []) :
    ∃ b, 0 < v.delay b := by
  obtain ⟨w, hw⟩ := List.exists_mem_of_ne_nil _ hrqst
  obtain ⟨j, hj⟩ := mem_contents.mp hw
  exact ⟨bankIndex c reg w, h j w j.isLt hj⟩

end Vault

namespace HMCSim

variable {regs : Registers c} {bad : Fault → Prop} {ordered : Prop} {received : Received c}
  {N : Network (Place c) (Sent c regs)} {s t u : HMCSim c} {dev : Fin c.numDevs} {v : Fin c.numVaults}

/-- The requests of a vault wait for banks that work. -/
def RqstsWait (received : Received c) (s : HMCSim c) (dev : Fin c.numDevs) (v : Fin c.numVaults) : Prop :=
  s.shown received (.vault dev v .rqst) ≠ [] → ∃ b, 0 < s.delay dev v b

/-- The turn of a vault, with what it does. -/
theorem Between.rwOps (h : s.Between ordered received N) (dev : Fin c.numDevs) (v : Fin c.numVaults) :
    Ensures bad (((s.devs.get dev).vaults.get v).rwOps (s.devs.get dev).addressConfig s.cmcs)
      fun vault => Vault.Serving regs ordered dev v ((s.devs.get dev).vaults.get v) c.queueDepth vault ∧
        ((s.devs.get dev).vaults.get v).Quiet vault := by
  obtain ⟨v₀, hv₀⟩ : ∃ v₀, (s.devs.get dev).vaults.get v = v₀ := ⟨_, rfl⟩
  have hsent : ∀ w ∈ v₀.shown .rqst, ∃ x : Sent c regs, .vault dev v .rqst ∈ x.path.route ∧ x.words = w := by
    intro w hw
    have hmem : w ∈ ((s.devs.get dev).vaults.get v).shown .rqst := by
      rw [hv₀]
      exact hw
    exact h.follows.exists_of_mem hmem
  have hstart : Vault.Serving regs ordered dev v v₀ 0 v₀ := {
    carries := Vault.carries_of_shown fun _ => rfl
    kept := hv₀ ▸ (h.kept dev).vaults v
    blocked := fun _ _ hj => absurd hj (Nat.not_lt_zero _)
    rest := fun _ => id }
  rw [hv₀, (h.kept dev).reg]
  refine foldlM_range (I := fun k vault => Vault.Serving regs ordered dev v v₀ k vault ∧ v₀.Quiet vault)
    (fun vault slot hslot hvault => ?_) ⟨hstart, Or.inl ⟨rfl, rfl⟩⟩
  obtain ⟨hserving, hquiet⟩ := hvault
  refine (hserving.turn ⟨slot, hslot⟩ hsent s.cmcs).and fun vault' hvault' => hquiet.trans ?_
  refine Vault.quiet_serve ⟨slot, hslot⟩ hserving.kept (fun w hw => ?_) hvault'
  obtain ⟨x, hx, rfl⟩ := hsent w (hserving.rest w hw)
  obtain ⟨rfl, -⟩ := Path.rqst_mem_route.mp hx
  exact ⟨x.tail, x.answered⟩

/-- **The requests of the vaults** go on, or wait for banks. -/
theorem Between.clockRwOps_proceeds (h : s.Between ordered received N) :
    Ensures bad s.clockRwOps fun t => (t.Between ordered received N ∧ s.Proceeds received t ∧
      (t.remaining received < s.remaining received ∨ t.delay = s.delay)) ∧
        ∀ dev, ∀ v ∈ c.vaults, t.remaining received < s.remaining received ∨ s.RqstsWait received dev v := by
  refine eachVault_each (fun u dev v _ hu => ?_) ⟨h, .refl, Or.inr rfl⟩
  obtain ⟨hbetween, hsu, hdelay⟩ := hu
  refine (hbetween.rwOps dev v).bind fun vault ⟨hserving, hquiet⟩ => ensures_ok ?_
  obtain ⟨M, hM, hfollows⟩ := hbetween.follows.rebase
  have hut : u.Proceeds received (u.setVault dev v vault) :=
    (hfollows.carry (hserving.carries received u rfl)).proceeds hM
  have hst := hsu.trans hut
  have hstill : (u.setVault dev v vault).remaining received < s.remaining received ∨
      (u.setVault dev v vault).shown received = s.shown received ∧
        (u.setVault dev v vault).delay = s.delay := by
    -- Nothing has moved only when no vault so far has; then the delays are those of the start.
    rcases hut with heq | hlt
    · rcases hsu with heq' | hlt'
      · rcases hdelay with hlt | hdelay
        · exact Or.inl ((remaining_congr heq).trans_lt hlt)
        · refine Or.inr ⟨heq.trans heq', ?_⟩
          have hlength := congrArg List.length (congrFun heq (.vault dev v .rqst))
          rw [shown_setVault_self] at hlength
          rcases hquiet with ⟨hbanks, -⟩ | hless
          · rw [← hdelay]
            funext dev' v' b
            unfold delay
            rw [vault_setVault]
            split_ifs with hsame
            · obtain ⟨rfl, rfl⟩ := hsame
              unfold Vault.delay
              rw [hbanks]
            · rfl
          · exact absurd hlength (ne_of_lt hless)
      · exact Or.inl ((remaining_congr heq).trans_lt hlt')
    · exact Or.inl (hlt.trans_le hsu.le)
  refine ⟨⟨hbetween.setVault hserving.carries hserving.kept, hst, hstill.imp id And.right⟩, ?_,
    fun _ _ hwait => hwait.imp (hut.le.trans_lt ·) id⟩
  refine hstill.imp id fun ⟨hshown, hdelay⟩ hrqst => ?_
  rw [← hshown, shown_setVault_self] at hrqst
  obtain ⟨b, hb⟩ := hserving.blocked.busy hrqst
  refine ⟨b, ?_⟩
  rw [← hdelay]
  unfold delay
  rw [vault_setVault, if_pos ⟨rfl, rfl⟩]
  exact hb

end HMCSim

/-! ### The responses of the vaults -/

namespace HMCSim

variable {regs : Registers c} {bad : Fault → Prop} {ordered : Prop} {received : Received c}
  {N : Network (Place c) (Sent c regs)} {s t u : HMCSim c} {dev : Fin c.numDevs} {v : Fin c.numVaults}
  {d : HmcDev c} {link : Fin c.numLinks}

/-- The responses of a vault wait for links that have responses. -/
def RspsWait (shown : Place c → List Words) (dev : Fin c.numDevs) (v : Fin c.numVaults) : Prop :=
  shown (.vault dev v .rsp) ≠ [] → ∃ link, shown (.xbarRsp dev link) ≠ []

/-- What comes after the turns of all slots. -/
theorem Leaving.waits (h : s.Leaving ordered received N dev v c.queueDepth) :
    RspsWait (s.shown received) dev v := by
  intro hrsp
  obtain ⟨w, hw⟩ := List.exists_mem_of_ne_nil _ hrsp
  obtain ⟨x, -, hanswer⟩ := h.follows.exists_of_mem hw
  obtain ⟨j, hj⟩ := mem_contents.mp hw
  have hlink : linkOf w = x.link := by
    rw [← hanswer]
    exact x.slid_answer
  exact ⟨x.link, (h.blocked j w j.isLt hj x.link hlink).contents_ne_nil c.xbarDepth_pos⟩

/-- **The responses of the vaults** go on, or wait for links. -/
theorem Between.clockRegResponses_proceeds (h : s.Between ordered received N) :
    Ensures bad s.clockRegResponses fun t => (t.Between ordered received N ∧ s.Proceeds received t) ∧
      ∀ dev, ∀ v ∈ c.vaults,
        t.remaining received < s.remaining received ∨ RspsWait (s.shown received) dev v := by
  refine eachVault_each (J := fun u => u.Between ordered received N ∧ s.Proceeds received u)
    (P := fun u dev v => u.remaining received < s.remaining received ∨
      RspsWait (s.shown received) dev v) (fun u dev v _ hu => ?_) ⟨h, .refl⟩
  obtain ⟨hbetween, hsu⟩ := hu
  obtain ⟨M, hM, hfollows⟩ := hbetween.follows.rebase
  have hstart : u.Leaving ordered received N dev v 0 :=
    { hbetween with blocked := fun _ _ hj => absurd hj (Nat.not_lt_zero _) }
  have hbase : u.Leaving ordered received M dev v 0 := { hstart with follows := hfollows }
  have hturns : Ensures bad ((List.finRange c.queueDepth).foldlM (registerResponse dev v) u)
      (Leaving ordered received M dev v c.queueDepth) := foldlM_finRange (fun t j ht => ht.turn j) hbase
  have hproceeds : ∀ t, (List.finRange c.queueDepth).foldlM (registerResponse dev v) u = .ok t →
      u.Proceeds received t := fun t ht => (hturns.1 t ht).follows.proceeds hM
  refine Ensures.mono (Ensures.and (foldlM_finRange (fun t j ht => ht.turn j) hstart) hproceeds)
    fun t ⟨ht, hut⟩ => ?_
  have hst := hsu.trans hut
  refine ⟨⟨ht.toBetween, hst⟩, ?_, fun _ _ hwait => hwait.imp (hut.le.trans_lt ·) id⟩
  rcases hst with heq | hlt
  · exact Or.inr (heq ▸ ht.waits)
  · exact Or.inl hlt

/-! ### What the stages leave -/

/-- The links that lead to the host. -/
def hosts (s : HMCSim c) (dev : Fin c.numDevs) : Vector Bool c.numLinks := (s.devs.get dev).hostLinks

/-- The links and the cycles of the banks are the same. -/
structure Alike (s t : HMCSim c) : Prop where
  hosts : t.hosts = s.hosts
  delay : t.delay = s.delay

theorem Alike.refl : s.Alike s := ⟨rfl, rfl⟩

theorem Alike.trans (h : s.Alike t) (h' : t.Alike u) : s.Alike u :=
  ⟨h'.hosts.trans h.hosts, h'.delay.trans h.delay⟩

theorem hosts_setDev (h : d.hostLinks = (s.devs.get dev).hostLinks) : (s.setDev dev d).hosts = s.hosts := by
  funext dev'
  unfold hosts
  rw [get_setDev]
  split_ifs with hdev
  · rw [h, hdev]
  · rfl

theorem alike_setDev (h : d.hostLinks = (s.devs.get dev).hostLinks)
    (hbanks : ∀ v, (d.vaults.get v).banks = ((s.devs.get dev).vaults.get v).banks) :
    s.Alike (s.setDev dev d) := by
  refine ⟨hosts_setDev h, ?_⟩
  funext dev' v b
  unfold delay Vault.delay
  rw [get_setDev]
  split_ifs with hdev
  · rw [hbanks, hdev]
  · rfl

theorem deliver_alike (d : HmcDev c) (link : Fin c.numLinks) (i : Fin c.xbarDepth) (queue : HmcQueue) (q : Request) :
    (d.deliver link i queue q).2.hostLinks = d.hostLinks ∧
      ∀ v, ((d.deliver link i queue q).2.vaults.get v).banks = (d.vaults.get v).banks := by
  unfold HmcDev.deliver
  dsimp only
  split
  · exact ⟨rfl, fun _ => rfl⟩
  · refine ⟨rfl, fun v => ?_⟩
    rw [HmcDev.vaults_setRqst, HmcDev.vaults_setVault]
    split_ifs with hv
    · rw [hv]
    · rfl

theorem get_setDev_setRqst {dev' : Fin c.numDevs} {l : Fin c.numLinks} {slot : Fin c.xbarDepth} {x : HmcQueue}
    (dev : Fin c.numDevs) :
    (((s.setDev dev' ((s.devs.get dev').setRqst l slot x)).devs.get dev).hostLinks =
        (s.devs.get dev).hostLinks) ∧
      ((s.setDev dev' ((s.devs.get dev').setRqst l slot x)).devs.get dev).vaults = (s.devs.get dev).vaults := by
  rw [get_setDev]
  split_ifs with hdev
  · subst hdev
    exact ⟨rfl, rfl⟩
  · exact ⟨rfl, rfl⟩

theorem forward_alike (w : Wiring c) (i : Fin c.xbarDepth) (j : ℕ) :
    Yields (s.forward w dev link i j) fun r => s.Alike r.2 := by
  refine ⟨fun r hr => ?_, fun _ _ => id⟩
  unfold forward at hr
  dsimp only at hr
  split_ifs at hr with hvalid
  · cases hr
    exact .refl
  · obtain ⟨tail, -, hr⟩ := Outcome.bind_eq_ok.mp hr
    split_ifs at hr with hdev
    · cases hr
      obtain ⟨hhost, hbanks⟩ := deliver_alike (s.devs.get dev) link i
        (((s.devs.get dev).xbar.get link).rqst.get i) ⟨_, tail⟩
      exact alike_setDev hhost hbanks
    · unfold passOn at hr
      dsimp only at hr
      split at hr
      · cases hr
        exact alike_setDev rfl fun _ => rfl
      · split_ifs at hr with hcub
        · split at hr
          · cases hr
            exact alike_setDev rfl fun _ => rfl
          · obtain ⟨words, -, hr⟩ := Outcome.bind_eq_ok.mp hr
            cases hr
            have hfirst (dev' : Fin c.numDevs) (l : Fin c.numLinks) (slot : Fin c.xbarDepth) (x : HmcQueue) :
                s.Alike (s.setDev dev' ((s.devs.get dev').setRqst l slot x)) :=
              alike_setDev rfl fun _ => rfl
            refine (hfirst _ _ _ _).trans (alike_setDev ?_ fun v => ?_)
            · exact (get_setDev_setRqst dev).1.symm
            · exact congrArg (fun vaults => (vaults.get v).banks) (get_setDev_setRqst dev).2.symm

theorem clockRootXbar_alike (w : Wiring c) : Yields (s.clockRootXbar w) s.Alike := by
  refine foldlM_ensures (fun u dev _ hu => ?_) .refl
  split_ifs
  · refine foldlM_ensures (fun u i _ hu => foldlM_ensures (fun u link _ hu => ?_) hu) hu
    unfold processRqstQueueNew
    exact (forward_alike w i 0).bind fun r hr => ensures_ok (hu.trans hr)
  · exact ensures_ok hu

theorem registerResponse_alike (x : Fin c.queueDepth) : Yields (registerResponse dev v s x) s.Alike := by
  refine ⟨fun t ht => ?_, fun _ _ => id⟩
  unfold registerResponse at ht
  dsimp only at ht
  split_ifs at ht with hvalid hlink
  · cases ht
    exact .refl
  · split at ht
    · obtain ⟨tokens, -, ht⟩ := Outcome.bind_eq_ok.mp ht
      cases ht
      refine Alike.trans (t := s.setDev dev _) (alike_setDev ?_ fun v' => ?_) ⟨rfl, rfl⟩
      · rfl
      · rw [HmcDev.vaults_setVault]
        split_ifs with hv
        · rw [hv]
        · rfl
    · cases ht
      refine alike_setDev rfl fun v' => ?_
      rw [HmcDev.vaults_setVault]
      split_ifs with hv
      · rw [hv]
      · rfl

theorem clockRegResponses_alike (s : HMCSim c) : Yields s.clockRegResponses s.Alike :=
  eachVault_ensures (fun _ _ _ _ hu =>
    foldlM_ensures (fun _ x _ hu => (registerResponse_alike x).mono fun _ ht => hu.trans ht) hu) .refl

theorem hosts_setVault (vault : Vault c) : (s.setVault dev v vault).hosts = s.hosts := hosts_setDev rfl

theorem clockBankUpdate_hosts (s : HMCSim c) : Yields s.clockBankUpdate fun t => t.hosts = s.hosts :=
  eachVault_ensures (fun _ _ _ _ hu => ensures_ok ((hosts_setVault _).trans hu)) rfl

theorem clockRwOps_hosts (s : HMCSim c) : Yields s.clockRwOps fun t => t.hosts = s.hosts := by
  refine eachVault_ensures (fun u dev v _ hu => ?_) rfl
  have hany : Yields (((u.devs.get dev).vaults.get v).rwOps (u.devs.get dev).addressConfig u.cmcs)
      fun _ => True := yields_iff.mpr fun _ _ => trivial
  exact hany.bind fun vault _ => ensures_ok ((hosts_setVault vault).trans hu)

theorem clockQueueReorg_alike (s : HMCSim c) : Yields s.clockQueueReorg s.Alike := by
  refine eachVault_ensures (fun u dev v _ hu => ensures_ok (hu.trans (alike_setDev rfl fun v' => ?_))) ⟨?_, ?_⟩
  · rw [HmcDev.vaults_setVault]
    split_ifs with hv
    · rw [hv]
      rfl
    · rfl
  · funext dev
    have hget : (s.devs.map HmcDev.reorgXbars).get dev = (s.devs.get dev).reorgXbars :=
      Vector.getElem_map _ dev.isLt
    exact (congrArg HmcDev.hostLinks hget).trans rfl
  · funext dev v b
    have hget : (s.devs.map HmcDev.reorgXbars).get dev = (s.devs.get dev).reorgXbars :=
      Vector.getElem_map _ dev.isLt
    exact (congrArg (fun d : HmcDev c => (d.vaults.get v).delay b) hget).trans rfl

/-! ### A clock -/

/-- The cycles that all banks have left. -/
def totalDelay (s : HMCSim c) : ℕ := ∑ dev, ∑ v, ∑ b, s.delay dev v b

theorem totalDelay_congr (h : t.delay = s.delay) : t.totalDelay = s.totalDelay := by
  unfold totalDelay
  rw [h]

/-- Cycles that fall nowhere but do not grow. -/
theorem delay_eq_of_le (hle : ∀ dev v b, t.delay dev v b ≤ s.delay dev v b)
    (htotal : s.totalDelay ≤ t.totalDelay) : t.delay = s.delay := by
  funext dev v b
  refine (hle dev v b).antisymm (not_lt.mp fun hlt => htotal.not_gt ?_)
  unfold totalDelay
  refine Finset.sum_lt_sum (fun dev _ => Finset.sum_le_sum fun v _ => Finset.sum_le_sum fun b _ => hle dev v b)
    ⟨dev, Finset.mem_univ dev, ?_⟩
  refine Finset.sum_lt_sum (fun v _ => Finset.sum_le_sum fun b _ => hle dev v b) ⟨v, Finset.mem_univ v, ?_⟩
  exact Finset.sum_lt_sum (fun b _ => hle dev v b) ⟨b, Finset.mem_univ b, hlt⟩

theorem Proceeds.shown_eq (h : s.Proceeds received t) (hle : s.remaining received ≤ t.remaining received) :
    t.shown received = s.shown received :=
  h.resolve_right hle.not_gt

/-- What waits in a vault waits in one of a quadrant. -/
theorem Follows.mem_vaults (h : s.Follows ordered received N) {place : VaultPlace c}
    (hshown : s.shown received (.vault dev v place) ≠ []) : v ∈ c.vaults := by
  obtain ⟨w, hw⟩ := List.exists_mem_of_ne_nil _ hshown
  obtain ⟨x, hx, -⟩ := h.exists_of_mem hw
  have hv : v = x.path.v := by
    cases place with
    | rqst => exact (Path.rqst_mem_route.mp hx).2
    | bank b => exact (Path.bank_mem_route.mp hx).2.1
    | rsp => exact (Path.rsp_mem_route.mp hx).2
  rw [hv]
  exact vaultOf_mem_vaults _ _

/-- All packets have been received. -/
def Finished (received : Received c) (s : HMCSim c) : Prop :=
  ∀ p, s.shown received p ≠ [] → ∃ dev link, p = .received dev link

/-- A clock leaves the links as they are. -/
theorem clock_hosts (s : HMCSim c) {w : Wiring c} (hroot : ∀ dev, w.isRoot dev = true) :
    Yields (s.clock w) fun t => t.hosts = s.hosts := by
  unfold HMCSim.clock
  rw [clockChildXbar_eq hroot, Outcome.ok_bind]
  refine (clockRootXbar_alike w).bind fun s₁ a₁ => ?_
  refine (clockBankUpdate_hosts s₁).bind fun s₂ a₂ => ?_
  refine (clockRwOps_hosts s₂).bind fun s₃ a₃ => ?_
  refine (clockRegResponses_alike s₃).bind fun s₄ a₄ => ?_
  refine (clockQueueReorg_alike s₄).mono fun t a₅ => ?_
  rw [a₅.hosts, a₄.hosts, a₃, a₂, a₁.hosts]

/-- Nothing waits in the cubes when nothing works and no response waits at a link. -/
theorem finished_of_waits (hfollows : s.Follows ordered received N) (hkept : s.Kept regs)
    (hready : ∀ dev link, s.shown received (.xbarRsp dev link) = [])
    (hdelay : ∀ dev, ∀ v ∈ c.vaults, ∀ b, s.delay dev v b = 0)
    (hrsp : ∀ dev, ∀ v ∈ c.vaults, s.shown received (.vault dev v .rsp) = [])
    (hrqst : ∀ dev, ∀ v ∈ c.vaults, s.shown received (.vault dev v .rqst) = [])
    (hxbar : ∀ dev, XbarsWait (s.shown received) dev) : s.Finished received := by
  intro p hp
  cases p with
  | received dev link => exact ⟨dev, link, rfl⟩
  | xbarRsp dev link => exact absurd (hready dev link) hp
  | xbarRqst dev link =>
    obtain ⟨v, hv⟩ := hxbar dev link hp
    exact absurd (hrqst dev v (hfollows.mem_vaults hv)) hv
  | vault dev v place =>
    have hv := hfollows.mem_vaults hp
    cases place with
    | rqst => exact absurd (hrqst dev v hv) hp
    | rsp => exact absurd (hrsp dev v hv) hp
    | bank b =>
      refine absurd ?_ hp
      change (((s.devs.get dev).vaults.get v).banks.get b).held.toList = []
      -- A bank that keeps a response works.
      have hidle : ¬ ((s.devs.get dev).vaults.get v).Pending b := by
        intro hpending
        have hpos : 0 < s.delay dev v b := ((hkept dev).vaults v).working b hpending
        rw [hdelay dev v hv b] at hpos
        exact lt_irrefl 0 hpos
      exact congrArg Option.toList (if_neg hidle)

/-- **A clock goes on.** When no response waits at a link, packets move, or banks work, or all packets have
been received. -/
theorem Settled.clock_proceeds (h : s.Settled ordered received N) (hordered : ordered → s.RspPacked)
    {w : Wiring c} (hroot : ∀ dev, w.isRoot dev = true)
    (hready : ∀ dev link, s.shown received (.xbarRsp dev link) = []) :
    Ensures bad (s.clock w) fun t => t.Settled ordered received N ∧ t.hosts = s.hosts ∧
      (t.remaining received < s.remaining received ∨
        t.shown received = s.shown received ∧ (t.totalDelay < s.totalDelay ∨ s.Finished received)) := by
  have hstart : s.Packing ordered received N := {
    follows := h.follows
    kept := h.kept
    packed := hordered
    vaults := h.vaults }
  unfold HMCSim.clock
  rw [clockChildXbar_eq hroot, Outcome.ok_bind]
  refine ((hstart.clockRootXbar_proceeds hroot).and (clockRootXbar_alike w).1).bind
    fun s₁ ⟨⟨⟨h₁, p₁⟩, hxbar⟩, a₁⟩ => ?_
  refine ((h₁.clockBankUpdate_proceeds).and (clockBankUpdate_hosts s₁).1).bind
    fun s₂ ⟨⟨⟨h₂, p₂, hle⟩, hfalls⟩, a₂⟩ => ?_
  refine ((h₂.toBetween.clockRwOps_proceeds).and (clockRwOps_hosts s₂).1).bind
    fun s₃ ⟨⟨⟨h₃, p₃, hstill⟩, hrqsts⟩, a₃⟩ => ?_
  refine ((h₃.clockRegResponses_proceeds).and (clockRegResponses_alike s₃).1).bind
    fun s₄ ⟨⟨⟨h₄, p₄⟩, hrsps⟩, a₄⟩ => ?_
  obtain ⟨M, hM, hfollows⟩ := h₄.follows.rebase
  have hbase : s₄.Between ordered received M := { h₄ with follows := hfollows }
  have hreorg : Ensures bad s₄.clockQueueReorg fun t => t.Settled ordered received M ∧ t.RspPacked :=
    hbase.clockQueueReorg
  refine ((h₄.clockQueueReorg.and hreorg.1).and
    (clockQueueReorg_alike s₄).1).mono fun t ⟨⟨⟨ht, _⟩, hM', _⟩, a₅⟩ => ⟨ht, ?_, ?_⟩
  · rw [a₅.hosts, a₄.hosts, a₃, a₂, a₁.hosts]
  have p₅ : s₄.Proceeds received t := hM'.follows.proceeds hM
  have hst := (((p₁.trans p₂).trans p₃).trans p₄).trans p₅
  rcases lt_or_ge (t.remaining received) (s.remaining received) with hlt | hge
  · exact Or.inl hlt
  -- No packet has moved, so every stage shows what the first one does.
  refine Or.inr ⟨hst.shown_eq hge, ?_⟩
  have hle₁ := p₁.le
  have hle₂ := p₂.le
  have hle₃ := p₃.le
  have hle₄ := p₄.le
  have hle₅ := p₅.le
  have e₁ := p₁.shown_eq (by omega)
  have e₂ := (p₂.shown_eq (by omega)).trans e₁
  have e₃ := (p₃.shown_eq (by omega)).trans e₂
  have d₃ : s₃.delay = s₂.delay := hstill.resolve_left (by omega)
  have dt : t.totalDelay = s₂.totalDelay := totalDelay_congr (a₅.delay.trans (a₄.delay.trans d₃))
  have ds : s₁.totalDelay = s.totalDelay := totalDelay_congr a₁.delay
  rcases lt_or_ge s₂.totalDelay s₁.totalDelay with hlt | hge'
  · exact Or.inl (dt.trans_lt (hlt.trans_eq ds))
  -- No bank works.
  right
  have hsame := delay_eq_of_le hle hge'
  have hrsp : ∀ dev, ∀ v ∈ c.vaults, s.shown received (.vault dev v .rsp) = [] := by
    intro dev v hv
    by_contra hne
    rcases hrsps dev v hv with hlt | hwait
    · omega
    · rw [e₃] at hwait
      obtain ⟨link, hlink⟩ := hwait hne
      exact hlink (hready dev link)
  have hidle : ∀ dev, ∀ v ∈ c.vaults, ∀ b, s₁.delay dev v b = 0 := by
    intro dev v hv b
    by_contra hne
    rcases hfalls dev v hv b (Nat.pos_of_ne_zero hne) with hlt | hwait
    · rw [hsame] at hlt
      exact lt_irrefl _ hlt
    · rw [e₂] at hwait
      exact hwait (hrsp dev v hv)
  refine finished_of_waits h.follows h.kept hready (fun dev v hv b => ?_) hrsp (fun dev v hv => ?_)
    fun dev => ?_
  · rw [← hidle dev v hv b, a₁.delay]
  · by_contra hne
    rcases hrqsts dev v hv with hlt | hwait
    · omega
    · unfold RqstsWait at hwait
      rw [e₂] at hwait
      obtain ⟨b, hb⟩ := hwait hne
      rw [hsame, hidle dev v hv b] at hb
      exact lt_irrefl 0 hb
  · exact (hxbar dev).resolve_left (by omega)

end HMCSim

/-! ### Rounds -/

namespace HMCSim

variable {regs : Registers c} {bad : Fault → Prop} {ordered : Prop} {received received' : Received c}
  {N : Network (Place c) (Sent c regs)} {s s' t : HMCSim c} {dev : Fin c.numDevs} {link : Fin c.numLinks}
  {slot : Fin c.xbarDepth} {packet : List UInt64}

/-- A link of the host stalls when no response is ready. -/
theorem recv_ready (hhost : (s.hosts dev).get link = true) {words : List UInt64} {code : Int}
    {packet' : Option (List UInt64)} (hrecv : s.recv dev link (some words) = .ok (code, s', packet'))
    (hcode : code ≠ 0) :
    code = hmcStall ∧ lastFound ((s.devs.get dev).xbar.get link).rsp .valid = none := by
  unfold recv at hrecv
  rw [if_neg dev.isLt.not_gt, if_neg link.isLt.not_gt, atHost_eq dev.isLt link.isLt] at hrecv
  change (if (s.hosts dev).get link = true then _ else _) = _ at hrecv
  rw [if_pos hhost] at hrecv
  unfold extract at hrecv
  split at hrecv
  · cases hrecv
    exact ⟨rfl, by assumption⟩
  · obtain ⟨_, -, hrecv⟩ := Outcome.bind_eq_ok.mp hrecv
    obtain ⟨_, -, hrecv⟩ := Outcome.bind_eq_ok.mp hrecv
    cases hrecv
    exact absurd rfl hcode

/-- A link without a response that is ready shows none. -/
theorem Kept.shown_eq_nil (h : s.Kept regs)
    (hnone : lastFound ((s.devs.get dev).xbar.get link).rsp .valid = none) :
    s.shown received (.xbarRsp dev link) = [] := by
  rw [List.eq_nil_iff_forall_not_mem]
  intro w hw
  obtain ⟨i, hi⟩ := mem_contents.mp hw
  rcases (h dev).ready link i with hfree | hready
  · exact (HmcQueue.held_eq_some.mp hi).1 hfree
  · exact lastFound_eq_none.mp hnone i hready

/-- The response that is received is the first one of its link. -/
theorem Gives.shown_eq (received received' : Received c) (hrecv : s.Gives packet s' dev link slot) (h : s.Kept regs) :
    s.shown received (.xbarRsp dev link) =
      arrayOf packet :: s'.shown received' (.xbarRsp dev link) := by
  obtain ⟨hvalid, hlowest⟩ := lastFound_spec hrecv.found
  have hne : (((s.devs.get dev).xbar.get link).rsp.get slot).valid ≠ .invalid := by
    rw [hvalid]
    decide
  have hheld : (((s.devs.get dev).xbar.get link).rsp.get slot).held = some (arrayOf packet) := by
    rw [HmcQueue.held_of_valid hne, hrecv.words]
  obtain ⟨hleft, hleft'⟩ := contents_take hheld HmcQueue.held_zero
  rw [hrecv.below_eq_nil h] at hleft hleft'
  rw [hrecv.taken, shown_setDev_xbarRsp, HmcDev.rsp_setRsp, if_pos rfl]
  exact hleft.trans (congrArg (arrayOf packet :: ·) hleft'.symm)

theorem Gives.alike (hrecv : s.Gives packet s' dev link slot) : s.Alike s' := by
  have halike : s.Alike (s.setDev dev ((s.devs.get dev).setRsp link slot .zero)) :=
    alike_setDev rfl fun _ => rfl
  rw [hrecv.taken]
  exact halike

/-- **A response that is received** has come to the end of its way. -/
theorem Settled.receive_proceeds (h : s.Settled ordered received N) (hrecv : s.Gives packet s' dev link slot) :
    s'.remaining (Traffic.note received dev link (arrayOf packet)) < s.remaining received := by
  obtain ⟨M, hM, hfollows⟩ := h.follows.rebase
  have hbase : s.Settled ordered received M := { h with follows := hfollows }
  refine ((hbase.receive hrecv).follows.proceeds hM).resolve_left fun heq => ?_
  have hlength := congrArg List.length (congrFun heq (.received dev link))
  have hnoted : Traffic.note received dev link (arrayOf packet) dev link =
      received dev link ++ [arrayOf packet] := if_pos ⟨rfl, rfl⟩
  change (Traffic.note received dev link (arrayOf packet) dev link).length = (received dev link).length at hlength
  rw [hnoted, List.length_append, List.length_singleton] at hlength
  omega

theorem Accepts.alike (hsend : s.Accepts packet s' dev link slot) : s.Alike s' := by
  have halike : s.Alike (s.setDev dev ((s.devs.get dev).setRqst link slot ⟨.valid, slotOf packet⟩)) :=
    alike_setDev rfl fun _ => rfl
  obtain ⟨tokens, hsent⟩ := hsend.sent
  rw [hsent]
  exact ⟨halike.hosts, halike.delay⟩

/-- The responses of the other links stay. -/
theorem ready_setDev (received : Received c) {x : HmcQueue} {dev' : Fin c.numDevs} {link' : Fin c.numLinks}
    (hne : (dev', link') ≠ (dev, link)) :
    contents HmcQueue.held (((s.setDev dev ((s.devs.get dev).setRsp link slot x)).devs.get dev').xbar.get
      link').rsp = s.shown received (.xbarRsp dev' link') := by
  rw [get_setDev]
  split_ifs with hdev
  · subst hdev
    have hlink : link ≠ link' := by
      rintro rfl
      exact hne rfl
    rw [HmcDev.rsp_setRsp, if_neg hlink]
    rfl
  · rfl

end HMCSim

namespace Traffic

variable {regs : Registers c} {ordered : Prop} {w : Wiring c} {t t' : Traffic c} {dev : Fin c.numDevs}
  {link : Fin c.numLinks}

/-- The links of the requests lead to the host. -/
def Hosted (t : Traffic c) : Prop :=
  ∀ words ∈ t.accepted, ∀ (dev : Fin c.numDevs) (link : Fin c.numLinks), (requestOf words).cub = dev →
    (requestOf words).slid.toNat = link → (t.sim.hosts dev).get link = true

theorem Hosted.of_eq (h : t.Hosted) (haccepted : t'.accepted = t.accepted) (hhosts : t'.sim.hosts = t.sim.hosts) :
    t'.Hosted := by
  intro words hwords
  rw [hhosts]
  exact h words (haccepted ▸ hwords)

/-- The responses that wait at a link. -/
abbrev ready (t : Traffic c) (dev : Fin c.numDevs) (link : Fin c.numLinks) : List Words :=
  t.sim.shown t.received (.xbarRsp dev link)

/-- **A link with responses** leads to the host. -/
theorem Tracked.host_of_ready (h : t.Tracked regs ordered) (hhosted : t.Hosted)
    (hready : t.ready dev link ≠ []) : (t.sim.hosts dev).get link = true := by
  obtain ⟨N, -, hN⟩ := h.accounts
  have hitems : N.items (.xbarRsp dev link) ≠ [] := by
    intro hnil
    have hshown := hN.shown (.xbarRsp dev link)
    rw [hnil] at hshown
    exact hready hshown
  obtain ⟨x, hx⟩ := List.exists_mem_of_ne_nil _ hitems
  obtain ⟨rfl, rfl⟩ := Path.xbarRsp_mem_route.mp (hN.route _ x hx)
  exact hhosted x.words (hN.words ▸ List.mem_map_of_mem (hN.accepted _ x hx)) x.dev x.link x.cub x.slid

/-- The host asks a link for a response. -/
def ask (place : Fin c.numDevs × Fin c.numLinks) : HostEvent c :=
  .recv place.1 place.2 (some (List.replicate maxUqPacket 0))

/-- What is the same after the host has asked for responses, and how far the packets are. -/
structure Takes (t t' : Traffic c) : Prop where
  accepted : t'.accepted = t.accepted
  hosts : t'.sim.hosts = t.sim.hosts
  delay : t'.sim.delay = t.sim.delay
  remaining : t'.sim.remaining t'.received ≤ t.sim.remaining t.received

theorem Takes.refl : t.Takes t := ⟨rfl, rfl, rfl, le_rfl⟩

theorem Takes.trans {t'' : Traffic c} (h : t.Takes t') (h' : t'.Takes t'') : t.Takes t'' where
  accepted := h'.accepted.trans h.accepted
  hosts := h'.hosts.trans h.hosts
  delay := h'.delay.trans h.delay
  remaining := h'.remaining.trans h.remaining

/-- **The host asks a link**, and receives its first response. -/
theorem Tracked.receives (h : t.Tracked regs ordered) (hhosted : t.Hosted)
    (place : Fin c.numDevs × Fin c.numLinks) :
    ∃ t', t.step w (ask place) = .ok t' ∧ t'.Tracked regs ordered ∧ t.Takes t' ∧
      ∀ dev link, t'.ready dev link = (t.ready dev link).drop (if (dev, link) = place then 1 else 0) := by
  obtain ⟨dev, link⟩ := place
  obtain ⟨⟨code, sim, packet'⟩, hrecv, -⟩ :=
    (HMCSim.recv_iff (s := t.sim) dev link (some (List.replicate maxUqPacket 0))).mpr
      (Or.inr (Or.inr ⟨dev.isLt, link.isLt, fun _ _ => ⟨_, rfl, List.length_replicate.ge⟩⟩))
  have hstep : t.step w (ask (dev, link)) = (if code = 0 then
      .ok { t with sim := sim, received := note t.received dev link (arrayOf (packet'.getD [])) }
      else .ok { t with sim := sim }) := by
    change (t.sim.recv dev link _ >>= _) = _
    rw [hrecv]
    rfl
  obtain ⟨N, -, -, -, hsettled⟩ := id h
  rcases HMCSim.recv_cases hrecv with ⟨hcode, rfl⟩ | ⟨rfl, hd, hl, words, slot, rfl, hgives⟩
  · rw [if_neg hcode] at hstep
    have hnone : t.ready dev link = [] := by
      by_contra hready
      exact hready (hsettled.kept.shown_eq_nil
        (HMCSim.recv_ready (h.host_of_ready hhosted hready) hrecv hcode).2)
    refine ⟨t, hstep, h, .refl, fun dev' link' => ?_⟩
    split_ifs with hsame
    · obtain ⟨rfl, rfl⟩ := Prod.mk.inj hsame
      rw [hnone]
      rfl
    · rfl
  · rw [if_pos rfl] at hstep
    refine ⟨_, hstep, h.recv hstep, ⟨rfl, ?_, ?_, ?_⟩, fun dev' link' => ?_⟩
    · exact hgives.alike.hosts
    · exact hgives.alike.delay
    · exact (hsettled.receive_proceeds hgives).le
    · split_ifs with hsame
      · obtain ⟨rfl, rfl⟩ := Prod.mk.inj hsame
        have hfirst := hgives.shown_eq t.received
          (note t.received dev' link' (arrayOf words)) hsettled.kept
        change _ = (t.sim.shown t.received (.xbarRsp dev' link')).drop 1
        rw [hfirst]
        rfl
      · change contents HmcQueue.held ((sim.devs.get dev').xbar.get link').rsp = t.ready dev' link'
        rw [hgives.taken]
        exact HMCSim.ready_setDev t.received hsame

/-- **The host asks some links**, and receives the first responses of each of them. -/
theorem Tracked.receivesAll (h : t.Tracked regs ordered) (hhosted : t.Hosted)
    (places : List (Fin c.numDevs × Fin c.numLinks)) :
    ∃ t', exec (Traffic.step w) t (places.map ask) = .ok t' ∧ t'.Tracked regs ordered ∧ t.Takes t' ∧
      ∀ dev link, t'.ready dev link = (t.ready dev link).drop (places.count (dev, link)) := by
  induction places generalizing t with
  | nil => exact ⟨t, rfl, h, .refl, fun _ _ => rfl⟩
  | cons place places ih =>
    obtain ⟨t₁, hstep, h₁, htakes, hready⟩ := h.receives (w := w) hhosted place
    obtain ⟨t₂, hexec, h₂, htakes', hready'⟩ := ih h₁ (hhosted.of_eq htakes.accepted htakes.hosts)
    refine ⟨t₂, exec_cons_eq_ok.mpr ⟨t₁, hstep, hexec⟩, h₂, htakes.trans htakes', fun dev link => ?_⟩
    rw [hready', hready, List.drop_drop, List.count_cons, Nat.add_comm]
    simp only [beq_iff_eq, @eq_comm _ (dev, link)]

/-- All links of the cubes. -/
def places (c : Cube) : List (Fin c.numDevs × Fin c.numLinks) :=
  (List.finRange c.numDevs).flatMap fun dev => (List.finRange c.numLinks).map fun link => (dev, link)

/-- The host asks every link as often as it may have responses, and lets the cubes go on. -/
def round (c : Cube) : List (HostEvent c) :=
  (List.replicate c.xbarDepth (places c)).flatten.map ask ++ [.clock]

theorem mem_places (dev : Fin c.numDevs) (link : Fin c.numLinks) : (dev, link) ∈ places c :=
  List.mem_flatMap.mpr ⟨dev, List.mem_finRange dev, List.mem_map.mpr ⟨link, List.mem_finRange link, rfl⟩⟩

theorem length_ready_le (t : Traffic c) (dev : Fin c.numDevs) (link : Fin c.numLinks) :
    (t.ready dev link).length ≤ c.xbarDepth := by
  refine (List.length_filterMap_le _ _).trans ?_
  rw [Vector.length_toList]

/-- What is left to do: the way of the packets, and then the cycles of the banks. -/
def toGo (t : Traffic c) : Lex (ℕ × ℕ) := toLex (t.sim.remaining t.received, t.sim.totalDelay)

/-- All packets have been received. -/
def Finished (t : Traffic c) : Prop := t.sim.Finished t.received

/-- **A round** brings the packets closer to the host. -/
theorem Tracked.round (h : t.Tracked regs False) (hhosted : t.Hosted) (hroot : ∀ dev, w.isRoot dev = true) :
    ∃ t', exec (Traffic.step w) t (Traffic.round c) = .ok t' ∧ t'.Tracked regs False ∧ t'.accepted = t.accepted ∧
      t'.sim.hosts = t.sim.hosts ∧ (t'.toGo < t.toGo ∨ t'.Finished) := by
  obtain ⟨t₁, hexec, h₁, htakes, hready⟩ :=
    h.receivesAll (w := w) hhosted (List.replicate c.xbarDepth (places c)).flatten
  have hcleared : ∀ dev link, t₁.ready dev link = [] := by
    intro dev link
    have hpos : 0 < (places c).count (dev, link) := List.count_pos_iff.mpr (mem_places dev link)
    rw [hready, List.drop_eq_nil_iff, List.count_flatten, List.map_replicate, List.sum_replicate_nat]
    exact (t.length_ready_le dev link).trans (Nat.le_mul_of_pos_right _ hpos)
  obtain ⟨N, hsteps, hwords, hnumber, hsettled⟩ := h₁
  have hclock : Ensures (fun _ => True) (t₁.sim.clock w) _ :=
    hsettled.clock_proceeds False.elim hroot hcleared
  cases hsim : t₁.sim.clock w with
  | error f => exact absurd trivial (hclock.2 f hsim)
  | ok sim =>
    obtain ⟨hsettled', hhosts, hgoes⟩ := hclock.1 sim hsim
    have hstep : Traffic.step w t₁ .clock = .ok { t₁ with sim := sim } := by
      change (t₁.sim.clock w >>= _) = _
      rw [hsim]
      rfl
    refine ⟨_, exec_append_eq_ok.mpr ⟨t₁, hexec, exec_cons_eq_ok.mpr ⟨_, hstep, rfl⟩⟩,
      ⟨N, hsteps, hwords, hnumber, hsettled'⟩, htakes.accepted, hhosts.trans htakes.hosts, ?_⟩
    have hdelay := HMCSim.totalDelay_congr htakes.delay
    rcases hgoes with hlt | ⟨hshown, hlt | hfinished⟩
    · exact Or.inl (Prod.Lex.toLex_lt_toLex.mpr (Or.inl (hlt.trans_le htakes.remaining)))
    · have hsame := HMCSim.remaining_congr hshown
      left
      rcases htakes.remaining.lt_or_eq with hless | heq
      · exact Prod.Lex.toLex_lt_toLex.mpr (Or.inl (hsame.trans_lt hless))
      · exact Prod.Lex.toLex_lt_toLex.mpr (Or.inr ⟨hsame.trans heq, hlt.trans_eq hdelay⟩)
    · right
      intro p hp
      exact hfinished p (hshown ▸ hp)

/-- **The rounds** come to an end. -/
theorem Tracked.rounds (h : t.Tracked regs False) (hhosted : t.Hosted) (hroot : ∀ dev, w.isRoot dev = true) :
    ∃ n t', exec (Traffic.step w) t (List.replicate n (Traffic.round c)).flatten = .ok t' ∧ t'.Tracked regs False ∧
      t'.accepted = t.accepted ∧ t'.Finished := by
  obtain ⟨m, hm⟩ : ∃ m, t.toGo = m := ⟨_, rfl⟩
  induction m using WellFoundedLT.induction generalizing t with
  | ind m ih =>
    obtain ⟨t₁, hround, h₁, haccepted, hhosts, hgoes⟩ := h.round (w := w) hhosted hroot
    rcases hgoes with hlt | hfinished
    · obtain ⟨n, t₂, hexec, h₂, haccepted', hfinished⟩ :=
        ih t₁.toGo (hm ▸ hlt) h₁ (hhosted.of_eq haccepted hhosts) rfl
      refine ⟨n + 1, t₂, ?_, h₂, haccepted'.trans haccepted, hfinished⟩
      rw [List.replicate_succ, List.flatten_cons]
      exact exec_append_eq_ok.mpr ⟨t₁, hround, hexec⟩
    · refine ⟨1, t₁, ?_, h₁, haccepted, hfinished⟩
      rw [List.replicate_one, List.flatten_singleton]
      exact hround

/-! ### Runs -/

/-- What the host does leaves the links as they are, and it puts requests on links of its own. -/
theorem Hosted.step (h : t.Hosted) (hroot : ∀ dev, w.isRoot dev = true) {e : HostEvent c}
    (hstep : Traffic.step w t e = .ok t') : t'.Hosted := by
  cases e with
  | clock =>
    obtain ⟨sim, hclock, hstep⟩ := Outcome.bind_eq_ok.mp hstep
    cases hstep
    exact h.of_eq rfl ((t.sim.clock_hosts hroot).1 sim hclock)
  | recv dev link packet =>
    obtain ⟨⟨code, sim, packet'⟩, hrecv, hstep⟩ := Outcome.bind_eq_ok.mp hstep
    rcases HMCSim.recv_cases hrecv with ⟨hcode, rfl⟩ | ⟨rfl, hd, hl, words, slot, rfl, hgives⟩
    · dsimp only at hstep
      rw [if_neg hcode] at hstep
      cases hstep
      exact h
    · cases hstep
      exact h.of_eq rfl hgives.alike.hosts
  | send packet =>
    obtain ⟨⟨code, sim⟩, hsend, hstep⟩ := Outcome.bind_eq_ok.mp hstep
    rcases HMCSim.send_cases hsend with ⟨hcode, rfl⟩ | ⟨rfl, words, dev, link, slot, rfl, haccepts⟩
    · dsimp only at hstep
      rw [if_neg hcode] at hstep
      cases hstep
      exact h
    · cases hstep
      have hhosts : sim.hosts = t.sim.hosts := haccepts.alike.hosts
      intro v hv dev' link' hdev hlink
      change (sim.hosts dev').get link' = true
      rw [hhosts]
      rcases List.mem_append.mp hv with hold | hnew
      · exact h v hold dev' link' hdev hlink
      · obtain rfl := List.mem_singleton.mp hnew
        obtain rfl : dev = dev' := Fin.ext (haccepts.cub.symm.trans hdev)
        obtain rfl : link = link' := Fin.ext (haccepts.slid.symm.trans hlink)
        exact haccepts.host

theorem hosted_of_exec {hostLinks : Fin c.numDevs → Vector Bool c.numLinks} {cmcs : Vector HmcCmc maxCmc}
    {es : List (HostEvent c)} (hroot : ∀ dev, w.isRoot dev = true)
    (ht : exec (Traffic.step w) (start hostLinks regs cmcs) es = .ok t) : t.Hosted := by
  refine exec_invariant (fun _ _ _ h hstep => h.step hroot hstep) ?_ ht
  intro words hwords
  cases hwords

/-- **Every request is answered.** From every state that the host can bring the cubes to, some rounds bring
the response of every accepted request to the link that the request came from. -/
theorem answers_accepted (hostLinks : Fin c.numDevs → Vector Bool c.numLinks) (cmcs : Vector HmcCmc maxCmc)
    {es : List (HostEvent c)} (hroot : ∀ dev, w.isRoot dev = true) (hes : ∀ e ∈ es, e.WellFormed regs)
    (ht : exec (Traffic.step w) (start hostLinks regs cmcs) es = .ok t) :
    ∃ n t', exec (Traffic.step w) t (List.replicate n (Traffic.round c)).flatten = .ok t' ∧
      t'.accepted = t.accepted ∧ ∃ N : Network (Place c) (Sent c regs),
        t'.Accounts N ∧ ∀ x ∈ N.accepted, x ∈ N.items (.received x.dev x.link) := by
  have htracked : t.Tracked regs False := tracked_of_exec hroot hes (along_of_not _ es) ht
  obtain ⟨n, t', hexec, htracked', haccepted, hfinished⟩ :=
    htracked.rounds (hosted_of_exec hroot ht) hroot
  obtain ⟨N, -, hN⟩ := htracked'.accounts
  refine ⟨n, t', hexec, haccepted, N, hN, fun x hx => ?_⟩
  obtain ⟨p, hp, -⟩ := hN.once x hx
  have hshown : t'.sim.shown t'.received p ≠ [] := by
    rw [hN.shown p]
    exact List.ne_nil_of_mem (List.mem_map_of_mem hp)
  obtain ⟨dev, link, rfl⟩ := hfinished p hshown
  obtain ⟨rfl, rfl⟩ := Path.received_mem_route.mp (hN.route _ x hp)
  exact hp

theorem answers_accepted_overtaking :
    ∃ (n : ℕ) (t t' : Traffic fourLinks) (N : Network (Place fourLinks) (Sent fourLinks fun _ => 0)),
      exec (step hostWiring) hostStart overtaking = .ok t ∧
        exec (step hostWiring) t (List.replicate n (Traffic.round fourLinks)).flatten = .ok t' ∧
          t'.accepted.length = 3 ∧ t'.Accounts N ∧ ∀ x ∈ N.accepted, x ∈ N.items (.received x.dev x.link) := by
  have hrun := exec_overtaking
  cases hexec : exec (step hostWiring) hostStart overtaking with
  | error f =>
    rw [hexec] at hrun
    cases hrun
  | ok t =>
    rw [hexec] at hrun
    obtain ⟨-, haccepted⟩ := Prod.mk.inj (Option.some.inj hrun)
    obtain ⟨n, t', hexec', haccepted', N, hN, hall⟩ :=
      answers_accepted _ _ (by decide) overtaking_wellFormed hexec
    exact ⟨n, t, t', N, rfl, hexec', by rw [haccepted', haccepted]; rfl, hN, hall⟩

end Traffic

end PIMSim.HMC
