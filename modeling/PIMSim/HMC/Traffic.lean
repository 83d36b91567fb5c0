import PIMSim.HMC.Transport

/-!
# Traffic between the host and the cubes

The host sends requests, receives responses and lets the cubes go on, in any order. A request is accepted
when `hmcsim_send` puts it into a crossbar, and a response is received when `hmcsim_recv` takes it out of
one.

When every request has a response, the simulator never loses a packet, makes a second copy of one or
mixes two of them up. The order is another matter. The host leaves a hole when it takes the first of
several responses at a link, and a response that comes in the next clock is put there, before older ones.

## Main definitions

* `HostEvent`, `Traffic`, `Traffic.step`: what the host does
* `Traffic.start`: the state after `hmcsim_init`
* `HostEvent.WellFormed`: requests with a response
* `Traffic.Accounts`: where the requests are
* `Traffic.InOrder`: the order of the responses

## Main results

* `Traffic.conserved`: every accepted request is at one place, and every response answers a request
* `Traffic.received_inOrder`: the responses of a class are received in the order of the requests
* `Traffic.clock_returns`: a clock does not fail
-/

namespace PIMSim.HMC

open CSharp Fields Slots Transition

variable {c : Cube}

/-! ### The machine -/

/-- What the host does. -/
inductive HostEvent (c : Cube)
  | send (packet : Option (List UInt64))
  | clock
  | recv (dev link : ℕ) (packet : Option (List UInt64))

/-- The words of a packet in a slot: those of its flits. -/
def slotOf (packet : List UInt64) : Words :=
  Vector.ofFn fun i => if i < (field (packet.getD 0 0) 7 0x1F).toNat * 2 then packet.getD i 0 else 0

/-- The words that a response fills. -/
def arrayOf (packet : List UInt64) : Words := Vector.ofFn fun i => packet.getD i 0

/-- The cubes, with the requests that they have accepted and the responses that have been received. -/
structure Traffic (c : Cube) where
  sim : HMCSim c
  accepted : List Words := []
  received : Received c := fun _ _ => []

namespace Traffic

/-- The response at a link is noted. -/
def note (received : Received c) (dev link : ℕ) (w : Words) : Received c := fun d l =>
  if d.val = dev ∧ l.val = link then received d l ++ [w] else received d l

def step (w : Wiring c) (t : Traffic c) : HostEvent c → Outcome (Traffic c)
  | .send packet => do
    let (code, sim) ← t.sim.send packet
    if code = 0 then return { t with sim, accepted := t.accepted ++ packet.toList.map slotOf }
    else return { t with sim }
  | .clock => return { t with sim := ← t.sim.clock w }
  | .recv dev link packet => do
    let (code, sim, packet) ← t.sim.recv dev link packet
    if code = 0 then
      return { t with sim, received := note t.received dev link (arrayOf (packet.getD [])) }
    else return { t with sim }

/-- The state after `hmcsim_init`, with the links that lead to the host, the address configuration
registers and the custom commands. -/
def start (hostLinks : Fin c.numDevs → Vector Bool c.numLinks) (regs : Registers c)
    (cmcs : Vector HmcCmc maxCmc) : Traffic c where
  sim := {
    devs := Vector.ofFn fun dev => {
      hostLinks := hostLinks dev
      xbar := Vector.replicate _ ⟨Vector.replicate _ .zero, Vector.replicate _ .zero⟩
      vaults := Vector.replicate _ (Vault.start c)
      addressConfig := regs dev }
    cmcs
    tokens := Vector.replicate _ 0 }

end Traffic

/-- A packet that is sent is a request with a response. -/
def HostEvent.WellFormed (regs : Registers c) : HostEvent c → Prop
  | .send packet => ∀ words, packet = some words → ∀ header, words[0]? = some header →
    ∀ dev : Fin c.numDevs, (Request.mk header 0).cub = dev →
      Answered (maxBlocksize (regs dev)) (Request.mk header 0).cmd
  | .clock | .recv _ _ _ => True

/-! ### Sending -/

theorem HmcDev.RqstPacked.setRqst {d : HmcDev c} {link : Fin c.numLinks} {slot : Fin c.xbarDepth}
    (h : d.RqstPacked) (hslot : lastFound (d.xbar.get link).rqst .invalid = some slot) (w : Words) :
    (d.setRqst link slot ⟨.valid, w⟩).RqstPacked := by
  intro l
  rw [HmcDev.rqst_setRqst]
  split_ifs with hl
  · subst hl
    exact packed_put (h link) hslot w
  · exact h l

namespace HMCSim

variable {s s' : HMCSim c} {code : Int}

theorem withXbar_eq (dev : Fin c.numDevs) (link : Fin c.numLinks) (xbar : Xbar c) :
    s.withXbar dev link xbar =
      s.setDev dev { s.devs.get dev with xbar := (s.devs.get dev).xbar.set link xbar link.isLt } := by
  have hdevs : (s.withXbar dev link xbar).devs = (s.setDev dev
      { s.devs.get dev with xbar := (s.devs.get dev).xbar.set link xbar }).devs := by
    refine Vector.ext fun d hd => ?_
    change (s.withXbar dev link xbar).devs.get ⟨d, hd⟩ = (s.setDev dev _).devs.get ⟨d, hd⟩
    rw [devs_withXbar, get_setDev]
    by_cases hdev : d = dev
    · have hfin : dev = ⟨d, hd⟩ := Fin.ext hdev.symm
      rw [if_pos hdev, if_pos hfin, ← hfin]
      refine congrArg (fun xbar => { s.devs.get dev with xbar := xbar }) (Vector.ext fun l hl => ?_)
      rw [Vector.getElem_mapIdx, Vector.getElem_set]
      exact if_congr eq_comm rfl rfl
    · rw [if_neg hdev, if_neg fun h => hdev (congrArg Fin.val h).symm]
  exact congrArg (fun devs => { s with devs := devs }) hdevs

/-- The words that are copied into a slot. -/
theorem copy_slotOf {packet : List UInt64} {q : Request} {words : Words}
    (hhead : packet[0]? = some q.head) (hlength : q.length * 2 ≤ packet.length) (hfits : q.length ≤ 17)
    (h : copy .indexOutOfRange (fun i => arrayAt packet i) (List.range (q.length * 2))
      HmcQueue.zero.packet = .ok words) : words = slotOf packet := by
  have hread : ∀ i ∈ List.range (q.length * 2), i < maxUqPacket ∧
      arrayAt packet (i : Int) = .ok (packet.getD i 0) := by
    intro i hi
    have hlt := List.mem_range.mp hi
    refine ⟨?_, arrayAt_eq_ok.mpr ⟨Int.natCast_nonneg i, ?_⟩⟩
    · change i < 34
      omega
    · have hpacket : i < packet.length := by omega
      simp [hpacket]
  obtain ⟨words', hcopy, hvalues⟩ := copy_eq_ok HmcQueue.zero.packet hread
  obtain rfl : words' = words := Except.ok.inj (hcopy.symm.trans h)
  have hfirst : packet.getD 0 0 = q.head := by
    rw [List.getD_eq_getElem?_getD, hhead]
    rfl
  refine Vector.ext fun i hi => ?_
  unfold slotOf
  rw [hvalues i hi, Vector.getElem_ofFn, hfirst]
  refine if_congr List.mem_range rfl ?_
  exact Vector.getElem_replicate hi

/-- The request in a slot that a packet is copied to. -/
theorem requestOf_slotOf {packet : List UInt64} {q : Request} (hhead : packet[0]? = some q.head)
    (hpos : 1 ≤ q.length) (hfits : q.length ≤ 17) (htail : packet[q.length * 2 - 1]? = some q.tail) :
    requestOf (slotOf packet) = q := by
  have hfirst : packet.getD 0 0 = q.head := by
    rw [List.getD_eq_getElem?_getD, hhead]
    rfl
  have hword (i : ℕ) (hi : i < q.length * 2) : (slotOf packet)[i]? = some (packet.getD i 0) := by
    have hlt : i < maxUqPacket := by
      change i < 34
      omega
    rw [Vector.getElem?_eq_getElem hlt]
    unfold slotOf
    rw [Vector.getElem_ofFn, hfirst]
    exact congrArg some (if_pos hi)
  have hhead' : headWord (slotOf packet) = q.head := by
    have h0 := hword 0 (by omega)
    rw [Vector.getElem?_eq_getElem (by decide), Option.some.injEq, hfirst] at h0
    exact h0
  have hlast : lastWord q.length = q.length * 2 - 1 := lastWord_of_pos hpos (by omega)
  have htail' : (requestOf (slotOf packet)).tail = q.tail := by
    change ((slotOf packet)[lastWord (field (headWord (slotOf packet)) 7 0x1F).toNat]?).getD 0 = _
    rw [hhead']
    change ((slotOf packet)[lastWord q.length]?).getD 0 = _
    rw [hlast, hword _ (by omega), List.getD_eq_getElem?_getD, htail]
    rfl
  have hq : requestOf (slotOf packet) = ⟨q.head, q.tail⟩ :=
    congrArg₂ Request.mk hhead' htail'
  exact hq

/-- A packet that is accepted goes to the lowest free slot of its link. -/
structure Accepts (s : HMCSim c) (packet : List UInt64) (s' : HMCSim c) (dev : Fin c.numDevs)
    (link : Fin c.numLinks) (slot : Fin c.xbarDepth) : Prop where
  header : packet[0]? = some (requestOf (slotOf packet)).head
  cub : (requestOf (slotOf packet)).cub = dev
  slid : (requestOf (slotOf packet)).slid.toNat = link
  tail : lastWord (requestOf (slotOf packet)).length < maxUqPacket
  host : (s.devs.get dev).hostLinks.get link = true
  found : lastFound ((s.devs.get dev).xbar.get link).rqst .invalid = some slot
  sent : ∃ tokens, s' =
    { s.setDev dev ((s.devs.get dev).setRqst link slot ⟨.valid, slotOf packet⟩) with tokens := tokens }

/-- **Sending** leaves everything, or accepts the packet. -/
theorem send_cases {packet : Option (List UInt64)} (h : s.send packet = .ok (code, s')) :
    code ≠ 0 ∧ s' = s ∨ code = 0 ∧
      ∃ words dev link slot, packet = some words ∧ s.Accepts words s' dev link slot := by
  cases packet with
  | none =>
    cases h
    exact Or.inl ⟨by decide, rfl⟩
  | some packet =>
    obtain ⟨q, hhead, hpos, htail⟩ := words_of_send h
    rw [send_of_words hhead hpos htail] at h
    split_ifs at h
    · cases h
      exact Or.inl ⟨by decide, rfl⟩
    · cases h
      exact Or.inl ⟨by decide, rfl⟩
    · by_cases hreach : q.cub < c.numDevs ∧ q.slid.toNat < c.numLinks
      · rw [atHost_eq hreach.1 hreach.2] at h
        -- Accepted only here: the link is one of the host and a slot of its queue is free.
        split_ifs at h with hhost
        · unfold inject at h
          split at h
          · cases h
            exact Or.inl ⟨by decide, rfl⟩
          · next target htarget =>
            obtain ⟨words, hcopy, h⟩ := Outcome.bind_eq_ok.mp h
            obtain ⟨tokens, -, h⟩ := Outcome.bind_eq_ok.mp h
            have hlength : q.length * 2 ≤ packet.length := by
              have hlt := (List.getElem?_eq_some_iff.mp htail).1
              omega
            have hfits : q.length ≤ 17 := by
              have hwords := (copy_returns hlength _).mp ⟨words, hcopy⟩
              change _ ≤ 34 at hwords
              omega
            obtain rfl := copy_slotOf hhead hlength hfits hcopy
            obtain rfl := requestOf_slotOf hhead hpos hfits htail
            cases h
            refine Or.inr ⟨rfl, packet, ⟨_, hreach.1⟩, ⟨_, hreach.2⟩, target, rfl, {
              header := hhead
              cub := rfl
              slid := rfl
              tail := ?_
              host := hhost
              found := htarget
              sent := ⟨tokens, ?_⟩ }⟩
            · rw [lastWord_of_pos hpos (by omega)]
              change _ < 34
              omega
            · exact congrArg (fun s : HMCSim c => { s with tokens := tokens }) 
                (withXbar_eq (s := s) ⟨_, hreach.1⟩ ⟨_, hreach.2⟩ _)
        · cases h
          exact Or.inl ⟨by decide, rfl⟩
      · exact absurd h (atHost_ne_ok hreach _)

/-! ### Receiving -/

/-- A response that is received comes from the lowest slot that has one. -/
structure Gives (s : HMCSim c) (packet : List UInt64) (s' : HMCSim c) (dev : Fin c.numDevs)
    (link : Fin c.numLinks) (slot : Fin c.xbarDepth) : Prop where
  found : lastFound ((s.devs.get dev).xbar.get link).rsp .valid = some slot
  room : maxUqPacket ≤ packet.length
  words : arrayOf packet = (((s.devs.get dev).xbar.get link).rsp.get slot).packet
  taken : s' = s.setDev dev ((s.devs.get dev).setRsp link slot .zero)

/-- **Receiving** leaves everything, or takes a response. -/
theorem recv_cases {dev link : ℕ} {packet packet' : Option (List UInt64)}
    (h : s.recv dev link packet = .ok (code, s', packet')) :
    code ≠ 0 ∧ s' = s ∨ code = 0 ∧ ∃ (hd : dev < c.numDevs) (hl : link < c.numLinks) (words : List UInt64)
      (slot : Fin c.xbarDepth), packet' = some words ∧ s.Gives words s' ⟨dev, hd⟩ ⟨link, hl⟩ slot := by
  unfold recv at h
  split_ifs at h
  · cases h
    exact Or.inl ⟨by decide, rfl⟩
  · cases h
    exact Or.inl ⟨by decide, rfl⟩
  · by_cases hreach : dev < c.numDevs ∧ link < c.numLinks
    · obtain ⟨hd, hl⟩ := hreach
      rw [atHost_eq hd hl] at h
      split_ifs at h
      · unfold extract at h
        split at h
        · cases h
          exact Or.inl ⟨by decide, rfl⟩
        · next slot hslot =>
          obtain ⟨words, -, h⟩ := Outcome.bind_eq_ok.mp h
          obtain ⟨words', hassign, h⟩ := Outcome.bind_eq_ok.mp h
          cases h
          have hread : ∀ j ∈ List.range maxUqPacket, access .indexOutOfRange
              (((s.devs.get ⟨dev, hd⟩).xbar.get ⟨link, hl⟩).rsp.get slot).packet j =
                .ok ((((s.devs.get ⟨dev, hd⟩).xbar.get
                  ⟨link, hl⟩).rsp.get slot).packet.toList.getD j 0) := by
            intro j hj
            have hlt := List.mem_range.mp hj
            rw [access_of_lt hlt]
            simp [hlt]
          have hword (i : ℕ) (hi : i < maxUqPacket) := getElem?_assignAll hread hassign i
          refine Or.inr ⟨rfl, hd, hl, words', slot, rfl, ⟨hslot, ?_, ?_, withXbar_eq ⟨dev, hd⟩ ⟨link, hl⟩ _⟩⟩
          · have hlast := hword 33 (by decide)
            rw [if_pos (List.mem_range.mpr (by decide))] at hlast
            exact (List.getElem?_eq_some_iff.mp hlast).1
          · refine Vector.ext fun i hi => ?_
            unfold arrayOf
            rw [Vector.getElem_ofFn, List.getD_eq_getElem?_getD, hword i hi, if_pos (List.mem_range.mpr hi)]
            simp [hi]
      · cases h
        exact Or.inl ⟨by decide, rfl⟩
    · exact absurd h (atHost_ne_ok hreach _)

/-! ### What is kept between the events -/

variable {regs : Registers c} {ordered : Prop} {received : Received c}
  {N : Network (Place c) (Sent c regs)} {dev : Fin c.numDevs} {link : Fin c.numLinks}
  {slot : Fin c.xbarDepth} {packet : List UInt64}

/-- **A request is accepted.** -/
theorem Settled.accept (h : s.Settled ordered received N) (x : Sent c regs)
    (hsend : s.Accepts packet s' x.dev x.link slot) (hwords : x.words = slotOf packet) :
    ∃ N', Relation.ReflTransGen (Network.Step Sent.path Path.route ordered) N N' ∧
      N'.accepted = N.accepted ++ [x] ∧ s'.Settled ordered received N' := by
  obtain ⟨tokens, hsent⟩ := hsend.sent
  obtain ⟨t, ht⟩ : ∃ t, t = s.setDev x.dev ((s.devs.get x.dev).setRqst x.link slot ⟨.valid, x.words⟩) :=
    ⟨_, rfl⟩
  rw [← hwords, ← ht] at hsent
  obtain ⟨N₁, hsteps, haccepted, hroute, hshows⟩ := h.follows
  have hfree := HmcQueue.held_eq_none.mpr (lastFound_spec hsend.found).1
  have hpacked := h.rqst x.dev x.link
  obtain ⟨hp, hp'⟩ := contents_put hfree (HmcQueue.held_mk x.words)
  have hstart : s.shown received (.xbarRqst x.dev x.link) = _ := hp
  have hentered : t.shown received (.xbarRqst x.dev x.link) = contents HmcQueue.held
      (((s.devs.get x.dev).xbar.get x.link).rqst.set slot ⟨.valid, x.words⟩) := by
    rw [ht, shown_setDev_xbarRqst, HmcDev.rqst_setRqst, if_pos rfl]
  have hother : ∀ o, o ≠ .xbarRqst x.dev x.link → t.shown received o = s.shown received o := by
    intro o ho
    rw [ht]
    refine shown_setDev_eq rfl ?_ ?_ fun _ _ _ => rfl
    · rintro link' rfl
      have hne : x.link ≠ link' := by
        rintro rfl
        exact ho rfl
      rw [HmcDev.rqst_setRqst, if_neg hne]
    · intro link' _
      rw [HmcDev.rsp_setRqst]
  -- The packet enters at the first place of its route, behind everything that waits there.
  obtain ⟨N₂, hstep, haccepted', hshows'⟩ : ∃ N₂, Network.Step Sent.path Path.route ordered N₁ N₂ ∧
      N₂.accepted = N₁.accepted ++ [x] ∧ N₂.Shows Sent.view (t.shown received) := by
    refine hshows.accept hstart (hentered.trans hp') hother ⟨_, rfl⟩ fun _ y _ habove => ?_
    rw [hpacked.above_eq_nil hfree] at habove
    cases habove
  have hsettled : t.Settled ordered received N₂ := {
    follows := ⟨N₂, .refl, rfl, hstep.onRoute path_route_nodup hroute, hshows'⟩
    kept := ht ▸ forall_setDev h.kept (h.kept x.dev).setRqst
    vaults := ht ▸ forall_setDev h.vaults (h.vaults x.dev)
    rqst := ht ▸ forall_setDev h.rqst ((h.rqst x.dev).setRqst hsend.found x.words) }
  rw [hsent]
  exact ⟨N₂, hsteps.tail hstep, haccepted ▸ haccepted', {
    follows := hsettled.follows
    kept := hsettled.kept
    vaults := hsettled.vaults
    rqst := hsettled.rqst }⟩

/-- No response is before the one that is received. -/
theorem Gives.below_eq_nil (hrecv : s.Gives packet s' dev link slot) (h : s.Kept regs) :
    below HmcQueue.held ((s.devs.get dev).xbar.get link).rsp slot = [] := by
  obtain ⟨-, hlowest⟩ := lastFound_spec hrecv.found
  rw [List.eq_nil_iff_forall_not_mem]
  intro w hw
  obtain ⟨j, hj, hjheld⟩ := mem_below.mp hw
  rcases (h dev).ready link j with hfree | hready
  · exact (HmcQueue.held_eq_some.mp hjheld).1 hfree
  · exact hlowest j (Fin.lt_def.mpr hj) hready

/-- **A response is received.** -/
theorem Settled.receive (h : s.Settled ordered received N) (hrecv : s.Gives packet s' dev link slot) :
    s'.Settled ordered (Traffic.note received dev link (arrayOf packet)) N := by
  obtain rfl := hrecv.taken
  obtain ⟨hvalid, -⟩ := lastFound_spec hrecv.found
  have hne : (((s.devs.get dev).xbar.get link).rsp.get slot).valid ≠ .invalid := by
    rw [hvalid]
    decide
  have hheld : (((s.devs.get dev).xbar.get link).rsp.get slot).held = some (arrayOf packet) := by
    rw [HmcQueue.held_of_valid hne, hrecv.words]
  -- The slot that is taken is the lowest that is full, so that the packet is the oldest of its
  -- queue.
  have hfirst := hrecv.below_eq_nil h.kept
  obtain ⟨hleft, hleft'⟩ := contents_take hheld HmcQueue.held_zero
  have hp : s.shown received (.xbarRsp dev link) = _ := hleft
  have hq : s.shown received (.received dev link) = received dev link ++ [] := (List.append_nil _).symm
  have hq' : (s.setDev dev ((s.devs.get dev).setRsp link slot .zero)).shown
      (Traffic.note received dev link (arrayOf packet)) (.received dev link) =
        received dev link ++ arrayOf packet :: [] :=
    if_pos ⟨rfl, rfl⟩
  refine {
    follows := h.follows.carry (Network.carries_move (by simp) hp hq (Eq.trans ?_ hleft') hq' ?_ ?_)
    kept := forall_setDev h.kept ((h.kept dev).setRsp (Or.inl rfl))
    vaults := forall_setDev h.vaults (h.vaults dev)
    rqst := forall_setDev h.rqst (h.rqst dev).setRsp }
  · rw [shown_setDev_xbarRsp, HmcDev.rsp_setRsp, if_pos rfl]
  · intro o ho ho'
    by_cases hrecv : ∃ dev' link', o = .received dev' link'
    · obtain ⟨dev', link', rfl⟩ := hrecv
      refine if_neg fun hsame => ho' ?_
      rw [Fin.ext hsame.1, Fin.ext hsame.2]
    · have hshown : (s.setDev dev ((s.devs.get dev).setRsp link slot .zero)).shown received o =
          s.shown received o := by
        refine shown_setDev_eq rfl ?_ ?_ fun _ _ _ => rfl
        · intro link' _
          rw [HmcDev.rqst_setRsp]
        · rintro link' rfl
          have hne : link ≠ link' := by
            rintro rfl
            exact ho rfl
          rw [HmcDev.rsp_setRsp, if_neg hne]
      rw [← hshown]
      cases o with
      | received dev' link' => exact absurd ⟨dev', link', rfl⟩ hrecv
      | xbarRqst dev' link' => rfl
      | xbarRsp dev' link' => rfl
      | vault dev' v place => rfl
  · intro x hx hanswer
    obtain ⟨hdev, hlink⟩ := Path.xbarRsp_mem_route.mp hx
    refine ⟨hanswer, ?_, fun _ => ⟨fun y _ hbelow => ?_, fun _ _ h => absurd h List.not_mem_nil⟩⟩
    · rw [hdev, hlink]
      exact ⟨[_, _, _, _], [], rfl⟩
    · rw [hfirst] at hbelow
      cases hbelow

/-- A queue whose slots are all free. -/
theorem contents_replicate (n : ℕ) : contents HmcQueue.held (Vector.replicate n HmcQueue.zero) = [] := by
  rw [List.eq_nil_iff_forall_not_mem]
  intro w hw
  obtain ⟨i, hi⟩ := mem_contents.mp hw
  have hget : (Vector.replicate n HmcQueue.zero).get i = HmcQueue.zero := Vector.getElem_replicate i.isLt
  rw [hget] at hi
  cases hi

theorem packed_replicate (n : ℕ) : Packed HmcQueue.held (Vector.replicate n HmcQueue.zero) := by
  intro i j _ _
  exact congrArg HmcQueue.held (Vector.getElem_replicate j.isLt)

/-- **After `hmcsim_init`** nothing is there. -/
theorem settled_start (hostLinks : Fin c.numDevs → Vector Bool c.numLinks) (regs : Registers c)
    (cmcs : Vector HmcCmc maxCmc) :
    (Traffic.start hostLinks regs cmcs).sim.Settled ordered (fun _ _ => [])
        ({} : Network (Place c) (Sent c regs)) ∧
      (Traffic.start hostLinks regs cmcs).sim.RspPacked := by
  have hdev (dev : Fin c.numDevs) : (Traffic.start hostLinks regs cmcs).sim.devs.get dev = {
      hostLinks := hostLinks dev
      xbar := Vector.replicate _ ⟨Vector.replicate _ .zero, Vector.replicate _ .zero⟩
      vaults := Vector.replicate _ (Vault.start c)
      addressConfig := regs dev } :=
    Vector.getElem_ofFn dev.isLt
  have hxbar (dev : Fin c.numDevs) (link : Fin c.numLinks) :
      ((Traffic.start hostLinks regs cmcs).sim.devs.get dev).xbar.get link =
        ⟨Vector.replicate _ .zero, Vector.replicate _ .zero⟩ := by
    rw [hdev]
    exact Vector.getElem_replicate link.isLt
  have hvault (dev : Fin c.numDevs) (v : Fin c.numVaults) :
      ((Traffic.start hostLinks regs cmcs).sim.devs.get dev).vaults.get v = Vault.start c := by
    rw [hdev]
    exact Vector.getElem_replicate v.isLt
  -- Every slot starts blank, so that no place shows a packet.
  have hnone (p : Place c) : (Traffic.start hostLinks regs cmcs).sim.shown (fun _ _ => []) p = [] := by
    unfold shown
    cases p with
    | received dev link => rfl
    | xbarRqst dev link =>
      dsimp only
      rw [hxbar]
      exact contents_replicate _
    | xbarRsp dev link =>
      dsimp only
      rw [hxbar]
      exact contents_replicate _
    | vault dev v place =>
      dsimp only
      rw [hvault]
      cases place with
      | rqst => exact contents_replicate _
      | rsp => exact contents_replicate _
      | bank b =>
        rw [Vault.shown_bank, show (Vault.start c).banks.get b = {} from Vector.getElem_replicate b.isLt]
        rfl
  refine ⟨{
    follows := ⟨{}, .refl, rfl, fun _ _ hx => absurd hx List.not_mem_nil, hnone⟩
    kept := ?_
    vaults := ?_
    rqst := ?_ }, ?_⟩
  · intro dev
    refine { reg := by rw [hdev], vaults := fun v => ?_, ready := fun link slot => ?_ }
    · rw [hvault]
      refine ⟨Vault.working_start c, fun slot => ?_⟩
      rw [show (Vault.start c).rqstQueue.get slot = .zero from Vector.getElem_replicate slot.isLt]
      decide
    · rw [hxbar]
      exact Or.inl (congrArg HmcQueue.valid (Vector.getElem_replicate slot.isLt))
  · intro dev v _
    rw [hvault]
    exact ⟨packed_replicate _, packed_replicate _⟩
  · intro dev link
    rw [hxbar]
    exact packed_replicate _
  · intro dev link
    rw [hxbar]
    exact packed_replicate _

end HMCSim

/-! ### Runs -/

namespace Traffic

variable {regs : Registers c} {ordered : Prop} {w : Wiring c} {t t' : Traffic c}

/-- What is seen is what a network holds that has accepted the requests. -/
def Tracked (regs : Registers c) (ordered : Prop) (t : Traffic c) : Prop :=
  ∃ N : Network (Place c) (Sent c regs),
    Relation.ReflTransGen (Network.Step Sent.path Path.route ordered) {} N ∧
      N.accepted.map Sent.words = t.accepted ∧ N.accepted.map Sent.number = List.range t.accepted.length ∧
        t.sim.Settled ordered t.received N

/-- The host leaves no holes in the responses of the crossbars that a clock finds. -/
def FindsPacked (t : Traffic c) : HostEvent c → Prop
  | .clock => t.sim.RspPacked
  | .send _ | .recv _ _ _ => True

theorem tracked_start (hostLinks : Fin c.numDevs → Vector Bool c.numLinks) (cmcs : Vector HmcCmc maxCmc) :
    (start hostLinks regs cmcs).Tracked regs ordered :=
  ⟨{}, .refl, rfl, rfl, (HMCSim.settled_start hostLinks regs cmcs).1⟩

theorem Tracked.send (h : t.Tracked regs ordered) {packet : Option (List UInt64)}
    (hwell : (HostEvent.send packet : HostEvent c).WellFormed regs)
    (hstep : t.step w (.send packet) = .ok t') : t'.Tracked regs ordered := by
  obtain ⟨N, hsteps, hwords, hnumber, hsettled⟩ := h
  obtain ⟨⟨code, sim⟩, hsend, hstep⟩ := Outcome.bind_eq_ok.mp hstep
  rcases HMCSim.send_cases hsend with ⟨hcode, rfl⟩ | ⟨rfl, words, dev, link, slot, rfl, haccepts⟩
  · dsimp only at hstep
    rw [if_neg hcode] at hstep
    cases hstep
    exact ⟨N, hsteps, hwords, hnumber, hsettled⟩
  · cases hstep
    have hanswered := hwell words rfl _ haccepts.header dev haccepts.cub
    let x : Sent c regs := ⟨t.accepted.length, slotOf words, dev, link, haccepts.cub, haccepts.slid,
      haccepts.tail, hanswered⟩
    obtain ⟨N', hsteps', haccepted, hsettled'⟩ := hsettled.accept x haccepts rfl
    refine ⟨N', hsteps.trans hsteps', ?_, ?_, hsettled'⟩
    · rw [haccepted, List.map_append, hwords]
      rfl
    · rw [haccepted, List.map_append, hnumber]
      change _ = List.range (t.accepted ++ [slotOf words]).length
      rw [List.length_append, List.length_singleton, List.range_succ]
      rfl

theorem Tracked.recv (h : t.Tracked regs ordered) {dev link : ℕ} {packet : Option (List UInt64)}
    (hstep : t.step w (.recv dev link packet) = .ok t') : t'.Tracked regs ordered := by
  obtain ⟨N, hsteps, hwords, hnumber, hsettled⟩ := h
  obtain ⟨⟨code, sim, packet'⟩, hrecv, hstep⟩ := Outcome.bind_eq_ok.mp hstep
  rcases HMCSim.recv_cases hrecv with ⟨hcode, rfl⟩ | ⟨rfl, hd, hl, words, slot, rfl, hgives⟩
  · dsimp only at hstep
    rw [if_neg hcode] at hstep
    cases hstep
    exact ⟨N, hsteps, hwords, hnumber, hsettled⟩
  · cases hstep
    exact ⟨N, hsteps, hwords, hnumber, hsettled.receive hgives⟩

/-- A settled state is one of a network that the steps lead to. -/
theorem Tracked.clock (h : t.Tracked regs ordered) (hroot : ∀ dev, w.isRoot dev = true)
    (hordered : ordered → t.sim.RspPacked) (bad : Fault → Prop) :
    Ensures bad (t.step w .clock) (Tracked regs ordered) := by
  obtain ⟨N, hsteps, hwords, hnumber, hsettled⟩ := h
  refine (hsettled.clock hordered hroot).bind fun sim hsim => ensures_ok ?_
  exact ⟨N, hsteps, hwords, hnumber, hsim.1⟩

/-- **Every event** is one of the network. -/
theorem Tracked.step (h : t.Tracked regs ordered) {e : HostEvent c} (hwell : e.WellFormed regs)
    (hroot : ∀ dev, w.isRoot dev = true) (hordered : ordered → t.FindsPacked e)
    (hstep : t.step w e = .ok t') : t'.Tracked regs ordered := by
  cases e with
  | send packet => exact h.send hwell hstep
  | recv dev link packet => exact h.recv hstep
  | clock => exact (h.clock hroot hordered fun _ => True).1 t' hstep

/-- Where the requests are: every accepted request is at one place of its route, as itself or as its
response, and nothing else is there. -/
structure Accounts (t : Traffic c) (N : Network (Place c) (Sent c regs)) : Prop where
  words : N.accepted.map Sent.words = t.accepted
  number : N.accepted.map Sent.number = List.range t.accepted.length
  once : ∀ x ∈ N.accepted, ∃! p, x ∈ N.items p
  nodup : ∀ p, (N.items p).Nodup
  accepted : ∀ p, ∀ x ∈ N.items p, x ∈ N.accepted
  route : ∀ p, ∀ x ∈ N.items p, p ∈ x.path.route
  shown : ∀ p, t.sim.shown t.received p = (N.items p).map (Sent.view p)

/-- The responses of each class have been received in the order in which the requests were accepted. -/
def InOrder (N : Network (Place c) (Sent c regs)) : Prop :=
  ∀ k : Path c, (N.items (.received k.dev k.link)).filter (fun x => x.path = k) <+:
    N.accepted.filter fun x => x.path = k

theorem Tracked.accounts (h : t.Tracked regs ordered) :
    ∃ N : Network (Place c) (Sent c regs),
      Relation.ReflTransGen (Network.Step Sent.path Path.route ordered) {} N ∧ t.Accounts N := by
  obtain ⟨N, hsteps, hwords, hnumber, hsettled⟩ := h
  obtain ⟨N', hsteps', haccepted, hroute, hshows⟩ := hsettled.follows
  have hrun := hsteps.trans hsteps'
  have hconserved := Network.conserved_of_steps path_route_nodup hrun
  have hnodup : N'.accepted.Nodup := by
    rw [haccepted]
    refine List.Nodup.of_map Sent.number ?_
    rw [hnumber]
    exact List.nodup_range
  exact ⟨N', hrun, {
    words := haccepted.symm ▸ hwords
    number := haccepted.symm ▸ hnumber
    once := fun x hx => hconserved.existsUnique hnodup hx
    nodup := hconserved.nodup hnodup
    accepted := fun p x hx => hconserved.mem_iff.mp ⟨p, hx⟩
    route := hroute
    shown := hshows }⟩

variable {es : List (HostEvent c)}

theorem along_of_wellFormed {P : Traffic c → HostEvent c → Prop} (hes : ∀ e ∈ es, e.WellFormed regs)
    (h : Along (step w) P t es) : Along (step w) (fun t e => e.WellFormed regs ∧ P t e) t es := by
  induction es generalizing t with
  | nil => trivial
  | cons e es ih =>
    exact ⟨⟨hes e List.mem_cons_self, h.1⟩, fun t' ht' =>
      ih (fun e he => hes e (List.mem_cons_of_mem _ he)) (h.2 t' ht')⟩

/-- **Every run** is one of the network. -/
theorem tracked_of_exec {hostLinks : Fin c.numDevs → Vector Bool c.numLinks} {cmcs : Vector HmcCmc maxCmc}
    (hroot : ∀ dev, w.isRoot dev = true) (hes : ∀ e ∈ es, e.WellFormed regs)
    (hordered : Along (step w) (fun t e => ordered → t.FindsPacked e) (start hostLinks regs cmcs) es)
    (ht : exec (step w) (start hostLinks regs cmcs) es = .ok t) : t.Tracked regs ordered :=
  exec_along (fun _ _ _ h hgood hstep => h.step hgood.1 hroot hgood.2 hstep)
    (tracked_start hostLinks cmcs) (along_of_wellFormed hes hordered) ht

theorem along_of_not {P : Traffic c → HostEvent c → Prop} (t : Traffic c) (es : List (HostEvent c)) :
    Along (step w) (fun t e => False → P t e) t es := by
  induction es generalizing t with
  | nil => trivial
  | cons e es ih => exact ⟨False.elim, fun t' _ => ih t'⟩

/-- **No packet is lost or made twice.** -/
theorem conserved (hostLinks : Fin c.numDevs → Vector Bool c.numLinks) (cmcs : Vector HmcCmc maxCmc)
    (hroot : ∀ dev, w.isRoot dev = true) (hes : ∀ e ∈ es, e.WellFormed regs)
    (ht : exec (step w) (start hostLinks regs cmcs) es = .ok t) :
    ∃ N : Network (Place c) (Sent c regs), t.Accounts N := by
  obtain ⟨N, -, hN⟩ := (tracked_of_exec hroot hes (along_of_not _ es) ht).accounts
  exact ⟨N, hN⟩

/-- **The responses of a class** are received in the order of the requests, when the host leaves no holes
for a clock to fill. -/
theorem received_inOrder (hostLinks : Fin c.numDevs → Vector Bool c.numLinks)
    (cmcs : Vector HmcCmc maxCmc) (hroot : ∀ dev, w.isRoot dev = true)
    (hes : ∀ e ∈ es, e.WellFormed regs)
    (hpacked : Along (step w) FindsPacked (start hostLinks regs cmcs) es)
    (ht : exec (step w) (start hostLinks regs cmcs) es = .ok t) :
    ∃ N : Network (Place c) (Sent c regs), t.Accounts N ∧ InOrder N := by
  have htracked : t.Tracked regs True := tracked_of_exec hroot hes (hpacked.mono fun _ _ h _ => h) ht
  obtain ⟨N, hsteps, hN⟩ := htracked.accounts
  refine ⟨N, hN, fun k => ?_⟩
  rw [← Network.line_of_steps path_route_nodup hsteps k]
  exact Network.ofClass_prefix_line (Path.route_eq k)

/-- **A clock does not fail.** -/
theorem clock_returns (hostLinks : Fin c.numDevs → Vector Bool c.numLinks) (cmcs : Vector HmcCmc maxCmc)
    (hroot : ∀ dev, w.isRoot dev = true) (hes : ∀ e ∈ es, e.WellFormed regs)
    (ht : exec (step w) (start hostLinks regs cmcs) es = .ok t) :
    ∃ sim, t.sim.clock w = .ok sim := by
  have htracked := tracked_of_exec hroot hes (along_of_not _ es) ht
  cases hclock : t.sim.clock w with
  | ok sim => exact ⟨sim, rfl⟩
  | error f =>
    have hstep : t.step w .clock = .error f := by
      unfold step
      rw [hclock]
      rfl
    exact absurd trivial ((htracked.clock hroot False.elim fun _ => True).2 f hstep)

/-! ### Runs of a cube -/

/-- A cube whose links lead to the host. -/
def hostWiring : Wiring fourLinks where
  srcCub := fun _ _ => 2
  destCub := fun _ _ => 0

def hostStart : Traffic fourLinks :=
  start (fun _ => Vector.replicate _ true) (fun _ => 0) (Vector.replicate _ {})

/-- A read of the first block. -/
def readOf (tag : UInt64) : List UInt64 := [0xB0 ||| place tag 12, 0]

def takeFirst : HostEvent fourLinks := .recv 0 0 (some (List.replicate maxUqPacket 0))

/-- The host takes the first of two responses before the clock in which the third one comes. -/
def overtaking : List (HostEvent fourLinks) :=
  [.send (some (readOf 1)), .send (some (readOf 2)), .clock, .send (some (readOf 3)), .clock, .clock,
    .clock, .clock, .clock, takeFirst, .clock, takeFirst, takeFirst]

/-- The path of the reads. -/
def firstPath : Path fourLinks where
  dev := ⟨0, by decide⟩
  link := ⟨0, by decide⟩
  v := ⟨0, by decide⟩
  bank := ⟨0, by decide⟩

theorem readOf_wellFormed {tag : UInt64} (htag : (Request.mk (0xB0 ||| place tag 12) 0).cmd = 48) :
    HostEvent.WellFormed (c := fourLinks) (fun _ => 0) (.send (some (readOf tag))) := by
  intro words hwords header hheader dev _
  cases hwords
  cases hheader
  rw [htag]
  exact ⟨.rdRs, 2, dramlatency, 0, by decide, Nat.zero_le _⟩

theorem overtaking_wellFormed :
    ∀ e ∈ overtaking, HostEvent.WellFormed (c := fourLinks) (fun _ => 0) e := by
  intro e he
  simp only [overtaking, List.mem_cons, List.not_mem_nil, or_false] at he
  rcases he with rfl | rfl | rfl | rfl | rfl | rfl | rfl | rfl | rfl | rfl | rfl | rfl | rfl
  all_goals first
    | exact readOf_wellFormed (by decide)
    | trivial

/-- The head of the response to a packet. -/
def answerHead (w : Words) : UInt64 := headWord (answerOf (maxBlocksize 0) (requestOf w))

theorem answerHead_overtaking :
    [slotOf (readOf 1), slotOf (readOf 2), slotOf (readOf 3)].map answerHead =
      [0x1138, 0x2138, 0x3138] := by
  decide +kernel

/-- The requests have the same path. -/
theorem path_of_words {x : Sent fourLinks fun _ => 0}
    (h : x.words ∈ [slotOf (readOf 1), slotOf (readOf 2), slotOf (readOf 3)]) : x.path = firstPath := by
  have hvault : ∀ w ∈ [slotOf (readOf 1), slotOf (readOf 2), slotOf (readOf 3)],
      (requestOf w).slid.toNat = 0 ∧ (vaultOf fourLinks 32 (requestOf w).addr).val = 0 ∧
        decodeBank fourLinks 32 (requestOf w).addr = 0 := by
    decide +kernel
  obtain ⟨hlink, hv, hbank⟩ := hvault _ h
  have hdev : x.dev = firstPath.dev := Subsingleton.elim (α := Fin 1) _ _
  have hslid : x.link = firstPath.link := Fin.ext (x.slid.symm.trans hlink)
  unfold Sent.path
  rw [hdev, hslid]
  exact congrArg₂ (Path.mk firstPath.dev firstPath.link) (Fin.ext hv) (Fin.ext hbank)

/-- What the run leaves: the third response has been received before the second one. -/
theorem exec_overtaking :
    (exec (step hostWiring) hostStart overtaking).toOption.map (fun t =>
      ((t.received firstPath.dev firstPath.link).map headWord, t.accepted)) =
        some ([0x1138, 0x3138, 0x2138], [slotOf (readOf 1), slotOf (readOf 2), slotOf (readOf 3)]) := by
  decide +kernel

/-- **A response is overtaken.** -/
theorem not_received_inOrder :
    ¬ ∀ (c : Cube) (w : Wiring c) (hostLinks : Fin c.numDevs → Vector Bool c.numLinks)
      (regs : Registers c) (cmcs : Vector HmcCmc maxCmc) (es : List (HostEvent c)) (t : Traffic c),
        (∀ dev, w.isRoot dev = true) → (∀ e ∈ es, e.WellFormed regs) →
          exec (step w) (start hostLinks regs cmcs) es = .ok t →
            ∃ N : Network (Place c) (Sent c regs), t.Accounts N ∧ InOrder N := by
  intro h
  have hrun := exec_overtaking
  cases hexec : exec (step hostWiring) hostStart overtaking with
  | error f =>
    rw [hexec] at hrun
    cases hrun
  | ok t =>
    rw [hexec] at hrun
    obtain ⟨hreceived, haccepted⟩ := Prod.mk.inj (Option.some.inj hrun)
    obtain ⟨N, hN, hordered⟩ := h fourLinks hostWiring _ _ _ overtaking t (by decide)
      overtaking_wellFormed hexec
    have hwords := hN.words.trans haccepted
    have hall : ∀ x ∈ N.accepted, x.path = firstPath := by
      intro x hx
      exact path_of_words (hwords ▸ List.mem_map_of_mem hx)
    have hanswers : N.accepted.map (fun x => headWord x.answer) = [0x1138, 0x2138, 0x3138] := by
      rw [← answerHead_overtaking, ← hwords, List.map_map]
      rfl
    have hitems : (N.items (.received firstPath.dev firstPath.link)).map (fun x => headWord x.answer) =
        [0x1138, 0x3138, 0x2138] := by
      rw [← hreceived]
      have hshown : t.received firstPath.dev firstPath.link = _ :=
        hN.shown (.received firstPath.dev firstPath.link)
      rw [hshown, List.map_map]
      rfl
    have hprefix := (hordered firstPath).map fun x => headWord x.answer
    rw [List.filter_eq_self.mpr fun x hx => decide_eq_true (hall x (hN.accepted _ x hx)),
      List.filter_eq_self.mpr fun x hx => decide_eq_true (hall x hx), hanswers, hitems] at hprefix
    exact absurd hprefix (by decide)

theorem conserved_overtaking :
    ∃ (t : Traffic fourLinks) (N : Network (Place fourLinks) (Sent fourLinks fun _ => 0)),
      exec (step hostWiring) hostStart overtaking = .ok t ∧ t.Accounts N := by
  have hrun := exec_overtaking
  cases hexec : exec (step hostWiring) hostStart overtaking with
  | error f =>
    rw [hexec] at hrun
    cases hrun
  | ok t =>
    obtain ⟨N, hN⟩ := conserved _ _ (by decide) overtaking_wellFormed hexec
    exact ⟨t, N, rfl, hN⟩

theorem clock_returns_overtaking :
    ∃ (t : Traffic fourLinks) (sim : HMCSim fourLinks),
      exec (step hostWiring) hostStart overtaking = .ok t ∧ t.sim.clock hostWiring = .ok sim := by
  have hrun := exec_overtaking
  cases hexec : exec (step hostWiring) hostStart overtaking with
  | error f =>
    rw [hexec] at hrun
    cases hrun
  | ok t =>
    obtain ⟨sim, hsim⟩ := clock_returns _ _ (by decide) overtaking_wellFormed hexec
    exact ⟨t, sim, rfl, hsim⟩

instance (t : Traffic c) (e : HostEvent c) : Decidable (t.FindsPacked e) :=
  match e with
  | .clock => inferInstanceAs (Decidable (∀ dev link, ∀ i j : Fin c.xbarDepth, i < j →
      (((t.sim.devs.get dev).xbar.get link).rsp.get i).held = none →
        (((t.sim.devs.get dev).xbar.get link).rsp.get j).held = none))
  | .send _ | .recv _ _ _ => .isTrue trivial

/-- Two reads, the response of the first of which is taken before the second one is sent. -/
def oneByOne : List (HostEvent fourLinks) :=
  [.send (some (readOf 1)), .clock, .clock, .clock, takeFirst,
    .send (some (readOf 2)), .clock, .clock, .clock, takeFirst]

/-- Both responses are received. -/
theorem received_inOrder_oneByOne :
    ∃ (t : Traffic fourLinks) (N : Network (Place fourLinks) (Sent fourLinks fun _ => 0)),
      exec (step hostWiring) hostStart oneByOne = .ok t ∧
        (t.received firstPath.dev firstPath.link).length = 2 ∧ t.Accounts N ∧ InOrder N := by
  have hreturns : ((exec (step hostWiring) hostStart oneByOne).toOption.map fun t =>
      (t.received firstPath.dev firstPath.link).length) = some 2 := by decide +kernel
  cases hexec : exec (step hostWiring) hostStart oneByOne with
  | error f =>
    rw [hexec] at hreturns
    cases hreturns
  | ok t =>
    rw [hexec] at hreturns
    have hes : ∀ e ∈ oneByOne, HostEvent.WellFormed (c := fourLinks) (fun _ => 0) e := by
      intro e he
      simp only [oneByOne, List.mem_cons, List.not_mem_nil, or_false] at he
      rcases he with rfl | rfl | rfl | rfl | rfl | rfl | rfl | rfl | rfl | rfl
      all_goals first
        | exact readOf_wellFormed (by decide)
        | trivial
    obtain ⟨N, hN⟩ := received_inOrder _ _ (by decide) hes (by decide +kernel) hexec
    exact ⟨t, N, rfl, Option.some.inj hreturns, hN⟩

end Traffic

end PIMSim.HMC
