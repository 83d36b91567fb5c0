import PIMSim.HMC.Answering

/-!
# The limit of the tags

The memory object counts its requests without a limit, and a response carries the lower ten bits of the
number. One request after another, each of them answered before the next one comes, brings the number to 1024
while no entry waits. The entry of the next request has a number that no tag reaches. The response to it comes
all the same, since the cubes neither lose nor hold back a packet, and the lookup of its entry fails.

## Main definitions

* `HMCMem.Late`: all entries have numbers of more than ten bits, and a response has not come
* `HMCMem.Idle`: nothing waits to be sent or for a response

## Main results

* `HMC.Traffic.Tracked.accepted_eq`: with nothing left in the cubes, the responses that have been received
  count the requests
* `HMCMem.Late.idle`, `HMCMem.Late.fails`: the response comes at last, and its entry is missing
* `HMCMem.Idle.next`, `HMCMem.Idle.reaches`: one request after another
* `HMCMem.not_responses_matched`: a run in which a lookup fails
-/

namespace PIMSim

open CSharp HMC Fields Slots Transition

variable {c : Cube}

/-! ### What has been accepted -/

namespace HMC.Traffic

variable {regs : Registers c} {ordered : Prop} {t t' : Traffic c}

/-- The packets at all places are as many as have been accepted. -/
theorem Tracked.count (h : t.Tracked regs ordered) :
    ∑ p, (t.sim.shown t.received p).length = t.accepted.length := by
  obtain ⟨N, hsteps, hN⟩ := h.accounts
  have hconserved := congrArg Multiset.card (Network.conserved_of_steps path_route_nodup hsteps)
  rw [Multiset.card_sum, Multiset.coe_card] at hconserved
  have hlength := congrArg List.length hN.words
  rw [List.length_map] at hlength
  rw [← hlength, ← hconserved]
  refine Finset.sum_congr rfl fun p _ => ?_
  rw [hN.shown p, List.length_map]
  rfl

/-- With nothing left in the cubes, what has been received says how many requests there were. -/
theorem Tracked.accepted_eq (h : t.Tracked regs ordered) (h' : t'.Tracked regs ordered) (hfinished : t.Finished)
    (hfinished' : t'.Finished) (hreceived : t'.received = t.received) :
    t'.accepted.length = t.accepted.length := by
  rw [← h.count, ← h'.count]
  refine Finset.sum_congr rfl fun p _ => congrArg List.length ?_
  have hplace {u u' : Traffic c} (hu : u.Finished) (heq : u.received = u'.received)
      (hne : u.sim.shown u.received p ≠ []) : u.sim.shown u.received p = u'.sim.shown u'.received p := by
    obtain ⟨dev, link, rfl⟩ := hu p hne
    change u.received dev link = u'.received dev link
    rw [heq]
  by_cases hne : t.sim.shown t.received p = []
  · by_contra hother
    rw [hne] at hother
    exact hother (hplace hfinished' hreceived hother ▸ hne)
  · exact (hplace hfinished hreceived.symm hne).symm

/-- Without a request nothing is in the cubes. -/
theorem Tracked.finished_of_nil (h : t.Tracked regs ordered) (haccepted : t.accepted = []) : t.Finished := by
  intro p hp
  have hcount := h.count
  rw [haccepted, List.length_nil, Finset.sum_eq_zero_iff] at hcount
  exact absurd (List.eq_nil_of_length_eq_zero (hcount p (Finset.mem_univ p))) hp

end HMC.Traffic

namespace HMCMem

variable {regs : Registers c} {R : MemRequest → Prop} {m m' : HMCMem c} {a a' : Activity} {sim : Simulator}
  {w : Wiring c}

/-! ### A request under a number of eleven bits -/

/-- A request has been sent, and all entries have numbers of more than ten bits. -/
structure Late (regs : Registers c) (m : HMCMem c) (a : Activity) : Prop where
  tracked : (traffic m.hmc a).Tracked regs False
  hosts : ∀ dev link, (m.hmc.hosts dev).get link = true
  sent : ∀ p ∈ a.sent, ∃ req tag, p = sentOf req tag
  keys : ∀ e ∈ m.callback, 1024 ≤ e.1.toNat
  unanswered : ∃ t : Traffic c, t.Tracked regs False ∧ t.Finished ∧ t.received = (traffic m.hmc a).received ∧
    t.accepted.length < a.sent.length

/-- The response has not come. -/
theorem Late.not_finished (h : Late regs m a) : ¬(traffic m.hmc a).Finished := by
  intro hfinished
  obtain ⟨t, ht, htfinished, hreceived, hless⟩ := h.unanswered
  have hcount := ht.accepted_eq h.tracked htfinished hfinished hreceived.symm
  change (a.sent.map _).length = _ at hcount
  rw [List.length_map] at hcount
  omega

theorem Late.next (h : Late regs m a) {hmc : HMCSim c} (htracked : (traffic hmc a).Tracked regs False)
    (hhosts : hmc.hosts = m.hmc.hosts) : Late regs { m with hmc } a where
  tracked := htracked
  hosts := fun dev link => by
    rw [hhosts]
    exact h.hosts dev link
  sent := h.sent
  keys := h.keys
  unanswered := h.unanswered

/-- The responses are those of packets that have been sent. -/
theorem exists_sent {hmc hmc' : HMCSim c} (hsent : ∀ p ∈ a.sent, ∃ req tag, p = sentOf req tag)
    (htracked : (traffic hmc a).Tracked regs False) {z : ℕ} {packet : Option (List UInt64)} {words : List UInt64}
    (hd : 0 < c.numDevs) (hl : z < c.numLinks) (hrecv : hmc.recv 0 z packet = .ok (0, hmc', some words)) :
    ∃ (x : Sent c regs) (req : MemRequest) (tag : UInt32), x.words = slotOf (sentOf req tag).1 ∧
      arrayOf words = x.answer := by
  have hstep : (traffic hmc a).step ⟨fun _ _ => 0, fun _ _ => 0⟩ (.recv 0 z packet) =
      .ok (received hmc' a z words) := by
    change (hmc.recv 0 z packet >>= _) = _
    rw [hrecv]
    rfl
  obtain ⟨N, -, hN⟩ := (htracked.recv hstep).accounts
  have hplace : (received hmc' a z words).received ⟨0, hd⟩ ⟨z, hl⟩ =
      (traffic hmc' a).received ⟨0, hd⟩ ⟨z, hl⟩ ++ [arrayOf words] := if_pos ⟨rfl, rfl⟩
  have hshown : (received hmc' a z words).received ⟨0, hd⟩ ⟨z, hl⟩ = _ := hN.shown (.received ⟨0, hd⟩ ⟨z, hl⟩)
  have hin : arrayOf words ∈ (received hmc' a z words).received ⟨0, hd⟩ ⟨z, hl⟩ := by
    rw [hplace]
    exact List.mem_append_right _ (List.mem_singleton_self _)
  rw [hshown] at hin
  obtain ⟨x, hx, hanswer⟩ := List.mem_map.mp hin
  have haccepted : (received hmc' a z words).accepted = a.sent.map fun p => slotOf p.1 := rfl
  obtain ⟨p, hp, hslot, -⟩ := sent_of_mem haccepted hN (hN.accepted _ x hx)
  obtain ⟨req, tag, rfl⟩ := hsent p (List.mem_of_getElem? hp)
  exact ⟨x, req, tag, hslot, hanswer.symm⟩

/-- **The turn of a link** stalls, or looks up an entry that is missing. -/
theorem Late.recvLink (notify : Notify) (sim : Simulator) {r : Receiving c}
    (h : Late regs r.mem (r.history a)) (hroom : maxUqPacket ≤ r.packet.length) (z : Fin c.numLinks) :
    (∃ r', (∀ missing, recvLink missing notify sim r z = .ok (true, r')) ∧ r'.mem = r.mem ∧
      r'.receipts = r.receipts ∧ maxUqPacket ≤ r'.packet.length ∧
        (r.traffic a).ready ⟨0, c.numDevs_le.1⟩ z = []) ∨
      ∀ missing, recvLink missing notify sim r z = .error missing := by
  have hd : 0 < c.numDevs := c.numDevs_le.1
  obtain ⟨⟨code, hmc, packet'⟩, hrecv, -⟩ := (HMCSim.recv_iff (s := r.mem.hmc) 0 z (some r.packet)).mpr
    (Or.inr (Or.inr ⟨hd, z.isLt, fun _ _ => ⟨_, rfl, hroom⟩⟩))
  unfold HMCMem.recvLink
  simp only [hrecv, Outcome.ok_bind]
  rcases HMCSim.recv_cases hrecv with ⟨hcode, hsame⟩ | ⟨hcode, _, _, words, slot, hwords, hgives⟩
  · left
    have hhost : (r.mem.hmc.hosts ⟨0, hd⟩).get z = true := h.hosts _ _
    obtain ⟨hstall, hnone⟩ := HMCSim.recv_ready hhost hrecv hcode
    obtain ⟨N, -, -, -, hsettled⟩ := id h.tracked
    refine ⟨{ r with packet := zeroPacket }, fun missing => ?_, rfl, rfl, length_zeroPacket,
      hsettled.kept.shown_eq_nil hnone⟩
    rw [if_pos hstall, hsame]
    rfl
  · right
    intro missing
    subst hcode
    cases hwords
    have hne : ¬(0 : Int) = hmcStall := by decide
    obtain ⟨x, req, tag, hslot, hanswer⟩ := exists_sent h.sent h.tracked hd z.isLt hrecv
    obtain ⟨out, hdecode, htype, houttag⟩ :=
      decode_answer req.address tag (rqstOf req.memtype) hslot hanswer hgives.room r.out
    have hstep : out.type = .rdRs ∨ out.type = .wrRs := by
      rw [htype]
      cases req.memtype <;> decide
    have hnone : r.mem.callback.find? (fun s => s.1 = out.tag) = none := by
      refine List.find?_eq_none.mpr fun e he heq => ?_
      have hkey := h.keys e he
      have hlt : (tagOf words).toNat < 2 ^ 10 := field_lt (by decide) (by decide)
      rw [of_decide_eq_true heq, houttag] at hkey
      omega
    simp only [if_neg hne, hdecode, Outcome.ok_bind]
    unfold HMCMem.receive
    simp only [if_pos hstep, hnone]
    rfl

/-- **A pass over the links** finds nothing, or looks up an entry that is missing. -/
theorem Late.recvLinks (notify : Notify) (sim : Simulator) {r : Receiving c} (h : Late regs r.mem (r.history a))
    (hroom : maxUqPacket ≤ r.packet.length) :
    (∃ r', (∀ missing, recvLinks missing notify sim r = .ok (c.numLinks, r')) ∧ Stalled a c.numLinks r r') ∨
      ∀ missing, recvLinks missing notify sim r = .error missing := by
  unfold HMCMem.recvLinks
  have hpass : ∀ k ≤ c.numLinks,
      (∃ r', (∀ missing, (List.range k).foldlM (fun (p : ℕ × Receiving c) z => do
        let turn ← HMCMem.recvLink missing notify sim p.2 z
        return (if turn.1 then p.1 + 1 else p.1, turn.2)) (0, r) = .ok (k, r')) ∧
          maxUqPacket ≤ r'.packet.length ∧ Stalled a k r r') ∨
        ∀ missing, (List.range k).foldlM (fun (p : ℕ × Receiving c) z => do
          let turn ← HMCMem.recvLink missing notify sim p.2 z
          return (if turn.1 then p.1 + 1 else p.1, turn.2)) (0, r) = .error missing := by
    -- Induction on the number of links that had their turn: as long as all have stalled the memory
    -- is unchanged.
    intro k
    induction k with
    | zero =>
      intro _
      exact Or.inl ⟨r, fun _ => rfl, hroom, rfl, rfl, fun _ hlt => absurd hlt (Nat.not_lt_zero _)⟩
    | succ k ih =>
      intro hk
      simp only [List.range_succ, List.foldlM_append, List.foldlM_cons, List.foldlM_nil, bind_pure]
      rcases ih (Nat.le_of_succ_le hk) with ⟨r', hrun, hroom', hstalled⟩ | hfails
      · have hlate : Late regs r'.mem (r'.history a) := by
          unfold Receiving.history
          rw [hstalled.mem, hstalled.receipts]
          exact h
        rcases hlate.recvLink notify sim hroom' ⟨k, hk⟩ with
          ⟨r'', hturn, hmem, hreceipts, hroom'', hready⟩ | hfails
        · refine Or.inl ⟨r'', fun missing => ?_, hroom'', hmem.trans hstalled.mem,
            hreceipts.trans hstalled.receipts, fun link hlt => ?_⟩
          · rw [hrun, Outcome.ok_bind]
            dsimp only
            rw [hturn]
            rfl
          · rcases Nat.lt_succ_iff_lt_or_eq.mp hlt with hbelow | heq
            · exact hstalled.ready link hbelow
            · rw [← hstalled.traffic_eq, show link = ⟨k, hk⟩ from Fin.ext heq]
              exact hready
        · refine Or.inr fun missing => ?_
          rw [hrun, Outcome.ok_bind]
          dsimp only
          rw [hfails]
          rfl
      · refine Or.inr fun missing => ?_
        rw [hfails]
        rfl
  rcases hpass _ le_rfl with ⟨r', hrun, -, hstalled⟩ | hfails
  · exact Or.inl ⟨r', hrun, hstalled⟩
  · exact Or.inr hfails

/-- **A step without a request** waits for the response, or looks up an entry that is missing. -/
theorem Late.idle (sim : Simulator) (h : Late regs m a) (hqueue : m.transationQueue = []) (hroot : ∀ dev, w.isRoot dev = true) :
    (∃ m', (∀ missing, m.stepWith missing sim w [] = .ok (m', {})) ∧ Late regs m' a ∧
      m'.transationQueue = [] ∧ (traffic m'.hmc a).toGo < (traffic m.hmc a).toGo) ∨
        ∀ missing, m.stepWith missing sim w [] = .error missing := by
  have hstart : Late regs m (Receiving.history a { mem := m, packet := zeroPacket : Receiving c }) := by
    rw [Receiving.history_start]
    exact h
  have hbegin : (Receiving.traffic a { mem := m, packet := zeroPacket : Receiving c }) = traffic m.hmc a := by
    unfold Receiving.traffic
    rw [Receiving.history_start]
  rcases Late.recvLinks idleReceive sim (r := { mem := m, packet := zeroPacket }) hstart length_zeroPacket with
    ⟨r, hrun, hstalled⟩ | hfails
  · have hready : ∀ link, (traffic m.hmc a).ready ⟨0, c.numDevs_le.1⟩ link = [] := by
      intro link
      rw [← hbegin]
      exact hstalled.ready link link.isLt
    have hclock := clock_goes h.sent h.tracked hroot hready
    cases hsim : m.hmc.clock w with
    | error f => exact absurd trivial (hclock.2 f hsim)
    | ok hmc =>
      obtain ⟨htracked, hhosts, hgoes⟩ := hclock.1 hmc hsim
      have hlate := h.next htracked hhosts
      refine Or.inl ⟨{ m with hmc }, fun missing => ?_, hlate, hqueue, hgoes.resolve_right hlate.not_finished⟩
      rw [stepWith_nil hqueue, hrun missing, Outcome.ok_bind]
      dsimp only
      unfold HMCMem.clock
      rw [hstalled.mem, hstalled.receipts, hsim]
      rfl
  · refine Or.inr fun missing => ?_
    rw [stepWith_nil hqueue, hfails missing]
    rfl

/-- **The response** comes at last, and its entry is missing. -/
theorem Late.fails (sim : Simulator) (h : Late regs m a) (hqueue : m.transationQueue = []) (hroot : ∀ dev, w.isRoot dev = true) :
    ∃ n m', exec (logged sim w) (m, a) (List.replicate n []) = .ok (m', a) ∧
      ∀ missing, m'.stepWith missing sim w [] = .error missing := by
  obtain ⟨k, hk⟩ : ∃ k, (traffic m.hmc a).toGo = k := ⟨_, rfl⟩
  induction k using WellFoundedLT.induction generalizing m with
  | ind k ih =>
    rcases h.idle sim hqueue hroot with ⟨m₁, hstep, h₁, hqueue₁, hlt⟩ | hfails
    · obtain ⟨n, m', hexec, hfails⟩ := ih _ (hk ▸ hlt) h₁ hqueue₁ rfl
      have hlogged : logged sim w (m, a) [] = .ok (m₁, a) := by
        change (m.stepWith _ sim w [] >>= _) = _
        rw [hstep, Outcome.ok_bind]
        exact congrArg (fun a => Except.ok (m₁, a)) (append_nothing a)
      refine ⟨n + 1, m', ?_, hfails⟩
      rw [List.replicate_succ]
      exact exec_cons_eq_ok.mpr ⟨_, hlogged, hexec⟩
    · exact ⟨0, m, rfl, hfails⟩

/-- The passes find nothing, or look up an entry that is missing. -/
theorem Late.recvAll (notify : Notify) (sim : Simulator) {r : Receiving c} (h : Late regs r.mem (r.history a))
    (hroom : maxUqPacket ≤ r.packet.length) :
    (∃ r', (∀ missing, recvAll missing notify sim r = .ok r') ∧ Stalled a c.numLinks r r') ∨
      ∀ missing, recvAll missing notify sim r = .error missing := by
  have hround (missing : Fault) : HMCMem.recvAll missing notify sim r = (do
      let pass ← HMCMem.recvLinks missing notify sim r
      if pass.1 ≠ c.numLinks then
        doWhile (fun r => do
          let pass ← HMCMem.recvLinks missing notify sim r
          return (pass.2, pass.1 ≠ c.numLinks)) r.mem.callback.length pass.2
      else return pass.2) := by
    unfold HMCMem.recvAll
    cases hrun : HMCMem.recvLinks missing notify sim r with
    | error f =>
      change ((HMCMem.recvLinks missing notify sim r >>= _) >>= _) = _
      rw [hrun]
      rfl
    | ok p =>
      change ((HMCMem.recvLinks missing notify sim r >>= _) >>= _) = _
      rw [hrun]
      change (if decide (p.1 ≠ c.numLinks) = true then _ else _) = (if p.1 ≠ c.numLinks then _ else _)
      simp only [decide_eq_true_eq]
  rcases h.recvLinks notify sim hroom with ⟨r', hrun, hstalled⟩ | hfails
  · refine Or.inl ⟨r', fun missing => ?_, hstalled⟩
    rw [hround, hrun missing, Outcome.ok_bind]
    exact if_neg (not_not_intro rfl)
  · refine Or.inr fun missing => ?_
    rw [hround, hfails missing]
    rfl

/-! ### A request in idle cubes -/

/-- A link without requests has room. -/
theorem send_of_finished {hmc : HMCSim c} {received : Received c} (hfinished : hmc.Finished received)
    (hhosts : ∀ dev link, (hmc.hosts dev).get link = true) (req : MemRequest) (tag : UInt32) :
    ∃ hmc', hmc.send (some (sentOf req tag).1) = .ok (0, hmc') := by
  have hd : 0 < c.numDevs := c.numDevs_le.1
  have hl : 0 < c.numLinks := by
    rcases c.numLinks_eq with h | h <;> rw [h] <;> decide
  obtain ⟨status, hmc', hsend⟩ := send_packetOf hmc req.address tag (rqstOf req.memtype)
  refine ⟨hmc', ?_⟩
  suffices hstatus : status = 0 by
    rw [hstatus] at hsend
    exact hsend
  have hlength := buildMemrequest_length req.address tag (rqstOf req.memtype)
  have hcub := buildMemrequest_cub req.address tag (rqstOf req.memtype)
  have hslid := buildMemrequest_slid req.address tag (rqstOf req.memtype)
  have hhead : (packetOf (rqstOf req.memtype)
      (buildMemrequest 0 req.address tag (rqstOf req.memtype) 0))[0]? =
        some (buildMemrequest 0 req.address tag (rqstOf req.memtype) 0).head := by
    cases rqstOf req.memtype <;> rfl
  have hpos : 1 ≤ (buildMemrequest 0 req.address tag (rqstOf req.memtype) 0).length := by
    rw [hlength]
    cases rqstOf req.memtype <;> decide
  have htail : (packetOf (rqstOf req.memtype) (buildMemrequest 0 req.address tag (rqstOf req.memtype) 0))[
      (buildMemrequest 0 req.address tag (rqstOf req.memtype) 0).length * 2 - 1]? =
        some (buildMemrequest 0 req.address tag (rqstOf req.memtype) 0).tail := by
    rw [hlength]
    cases rqstOf req.memtype <;> rfl
  rw [HMCSim.send_of_words hhead hpos htail, hcub, hslid, if_neg (Nat.not_lt_zero _), if_neg hd.ne] at hsend
  change hmc.atHost 0 0 _ _ = _ at hsend
  have hhost : (hmc.devs.get ⟨0, hd⟩).hostLinks.get ⟨0, hl⟩ = true := hhosts ⟨0, hd⟩ ⟨0, hl⟩
  rw [HMCSim.atHost_eq hd hl, if_pos hhost] at hsend
  unfold HMCSim.inject at hsend
  split at hsend
  · next hnone =>
    -- A full queue has a request in its first slot.
    have hslot := lastFound_eq_none.mp hnone ⟨0, c.xbarDepth_pos⟩
    have hmem := mem_contents.mpr ⟨_, HmcQueue.held_of_valid hslot⟩
    obtain ⟨dev, link, hplace⟩ := hfinished (.xbarRqst ⟨0, hd⟩ ⟨0, hl⟩) (List.ne_nil_of_mem hmem)
    cases hplace
  · obtain ⟨_, -, hsend⟩ := Outcome.bind_eq_ok.mp hsend
    obtain ⟨_, -, hsend⟩ := Outcome.bind_eq_ok.mp hsend
    cases hsend
    rfl

/-- A step with one request that is accepted. -/
theorem stepWith_send {req : MemRequest} (hqueue : m.transationQueue = []) (hmerge : mergeSame [req] = .ok [req])
    {hmc : HMCSim c} (hsend : m.hmc.send (some (sentOf req m.tag).1) = .ok (0, hmc)) (missing : Fault) :
    m.stepWith missing sim w [req] = (do
      let r ← HMCMem.recvAll missing busyReceive sim
        { mem := { hmc, tag := m.tag + 1, callback := m.callback ++ [(sentOf req m.tag).2] }
          packet := (sentOf req m.tag).1 }
      return (← r.mem.clock w, ⟨[sentOf req m.tag], r.receipts⟩)) := by
  obtain ⟨hmc₀, tag, callback, queue⟩ := m
  cases hqueue
  unfold HMCMem.stepWith
  change (mergeSame [req] >>= _) = _
  rw [hmerge, Outcome.ok_bind]
  change (hmc₀.send _ >>= _) = _
  unfold sentOf at hsend
  dsimp only at hsend
  rw [hsend, Outcome.ok_bind]
  simp only [if_true, UInt32.add_sub_cancel]
  rfl

/-- Nothing waits to be sent or for a response. -/
structure Idle (regs : Registers c) (R : MemRequest → Prop) (m : HMCMem c) (a : Activity) : Prop where
  linked : Linked regs R m a
  queue : m.transationQueue = []
  finished : (traffic m.hmc a).Finished

/-- **A request in idle cubes** is answered, and its number is the next one. -/
theorem Idle.next (h : Idle regs R m a) (hregs : ∀ dev, 64 ≤ maxBlocksize (regs dev))
    (hroot : ∀ dev, w.isRoot dev = true) (hbusy : Takes (fun _ => True) sim busyReceive R)
    (hidle : Takes (fun _ => True) sim idleReceive R) (htag : m.tag.toNat < 1024) {req : MemRequest} (hreq : R req)
    (hmerge : mergeSame [req] = .ok [req]) :
    ∃ n m' a', exec (logged sim w) (m, a) ([req] :: List.replicate n []) = .ok (m', a') ∧ Idle regs R m' a' ∧
      m'.tag = m.tag + 1 := by
  obtain ⟨hmc, hsend⟩ := send_of_finished h.finished h.linked.hosts req m.tag
  have hqueued : Linked regs R { m with transationQueue := [req] } a :=
    { h.linked with queue := fun r hr => List.mem_singleton.mp hr ▸ hreq }
  have hsent := hqueued.send hregs htag rfl hsend
  rw [← Receiving.history_start (a.append _) _ (sentOf req m.tag).1] at hsent
  have hstep : Ensures (fun _ => True) (m.step sim w [req]) fun p =>
      Linked regs R p.1 (a.append p.2) ∧ p.1.transationQueue = [] ∧ p.1.tag = m.tag + 1 := by
    unfold HMCMem.step
    rw [stepWith_send h.queue hmerge hsend]
    refine ((recvAll_unaffected (r := { mem := _, packet := (sentOf req m.tag).1 }) hbusy hsent
      (length_packetOf _ _).ge).ensures _).bind fun r hr => ?_
    refine (hr.linked.clock_le hroot).bind fun m' hm' => ensures_ok ?_
    obtain ⟨hmc', rfl, hlinked, -⟩ := hm'
    unfold Receiving.history at hlinked
    rw [append_received] at hlinked
    exact ⟨hlinked, hr.queue, hr.tag⟩
  cases hrun : m.step sim w [req] with
  | error f => exact absurd trivial (hstep.2 f hrun)
  | ok p =>
    obtain ⟨m₁, a₁⟩ := p
    obtain ⟨h₁, hqueue₁, htag₁⟩ := hstep.1 _ hrun
    obtain ⟨n, m', a', hexec, h', hqueue', htag', -, hfinished⟩ := h₁.idles hqueue₁ hroot hidle
    have hlogged : logged sim w (m, a) [req] = .ok (m₁, a.append a₁) := by
      unfold logged
      rw [hrun]
      rfl
    exact ⟨n, m', a', exec_cons_eq_ok.mpr ⟨_, hlogged, hexec⟩, ⟨h', hqueue', hfinished⟩, htag'.trans htag₁⟩

/-- **One request after another** brings the number to its limit. -/
theorem Idle.reaches (h : Idle regs R m a) (hregs : ∀ dev, 64 ≤ maxBlocksize (regs dev))
    (hroot : ∀ dev, w.isRoot dev = true) (hbusy : Takes (fun _ => True) sim busyReceive R)
    (hidle : Takes (fun _ => True) sim idleReceive R) {req : MemRequest} (hreq : R req)
    (hmerge : mergeSame [req] = .ok [req]) (hstart : m.tag = 0) {k : ℕ} (hk : k ≤ 1024) :
    ∃ arrivals m' a', exec (logged sim w) (m, a) arrivals = .ok (m', a') ∧ Idle regs R m' a' ∧
      m'.tag.toNat = k := by
  induction k with
  | zero => exact ⟨[], m, a, rfl, h, by rw [hstart]; rfl⟩
  | succ k ih =>
    obtain ⟨arrivals, m₁, a₁, hexec, h₁, htag₁⟩ := ih (Nat.le_of_succ_le hk)
    have hlt : m₁.tag.toNat < 1024 := htag₁.trans_lt hk
    obtain ⟨n, m', a', hexec', h', htag'⟩ := h₁.next hregs hroot hbusy hidle hlt hreq hmerge
    refine ⟨arrivals ++ [req] :: List.replicate n [], m', a', exec_append_eq_ok.mpr ⟨_, hexec, hexec'⟩, h', ?_⟩
    rw [htag', toNat_succ hlt, htag₁]

/-- **The request with the number 1024** is one whose entry will be missing. -/
theorem Idle.late (h : Idle regs R m a) (hregs : ∀ dev, 64 ≤ maxBlocksize (regs dev)) (htag : m.tag.toNat = 1024)
    {req : MemRequest} {hmc : HMCSim c} (hsend : m.hmc.send (some (sentOf req m.tag).1) = .ok (0, hmc)) :
    Late regs { hmc, tag := m.tag + 1, callback := m.callback ++ [(sentOf req m.tag).2] }
      (a.append ⟨[sentOf req m.tag], []⟩) := by
  have hstep : (traffic m.hmc a).step ⟨fun _ _ => 0, fun _ _ => 0⟩ (.send (some (sentOf req m.tag).1)) =
      .ok (traffic hmc (a.append ⟨[sentOf req m.tag], []⟩)) := by
    change (m.hmc.send _ >>= _) = _
    rw [hsend]
    unfold traffic Activity.append
    rw [List.map_append, List.append_nil]
    rfl
  have hempty := h.linked.callback_eq_nil h.finished
  refine {
    tracked := h.linked.tracked.send (packetOf_wellFormed _ _ _ hregs) hstep
    hosts := ?_
    sent := ?_
    keys := ?_
    unanswered := ⟨traffic m.hmc a, h.linked.tracked, h.finished, ?_, ?_⟩ }
  · rcases HMCSim.send_cases hsend with ⟨hcode, -⟩ | ⟨-, words, dev, link, slot, -, haccepts⟩
    · exact absurd rfl hcode
    · intro dev' link'
      rw [haccepts.alike.hosts]
      exact h.linked.hosts dev' link'
  · intro p hp
    rcases List.mem_append.mp hp with hp | hp
    · exact h.linked.sentOf_of_mem p hp
    · exact ⟨req, m.tag, List.mem_singleton.mp hp⟩
  · intro e he
    rw [hempty, List.nil_append, List.mem_singleton] at he
    rw [he]
    exact htag.ge
  · unfold traffic Activity.append
    rw [List.append_nil]
  · change (a.sent.map _).length < (a.sent ++ [_]).length
    rw [List.length_map, List.length_append, List.length_singleton]
    exact Nat.lt_succ_self _

/-- **Behind the limit** a lookup fails. -/
theorem Idle.fails (h : Idle regs R m a) (hregs : ∀ dev, 64 ≤ maxBlocksize (regs dev))
    (hroot : ∀ dev, w.isRoot dev = true) (htag : m.tag.toNat = 1024) {req : MemRequest}
    (hmerge : mergeSame [req] = .ok [req]) :
    ∃ arrivals arriving m' a', exec (logged sim w) (m, a) arrivals = .ok (m', a') ∧
      ∀ missing, m'.stepWith missing sim w arriving = .error missing := by
  obtain ⟨hmc, hsend⟩ := send_of_finished h.finished h.linked.hosts req m.tag
  have hlate := h.late hregs htag hsend
  have hstart := hlate
  rw [← Receiving.history_start (a.append _) _ (sentOf req m.tag).1] at hstart
  rcases Late.recvAll busyReceive sim (r := { mem := _, packet := (sentOf req m.tag).1 }) hstart
    (length_packetOf _ _).ge with ⟨r, hrun, hstalled⟩ | hfails
  · have hready : ∀ link, (traffic hmc (a.append ⟨[sentOf req m.tag], []⟩)).ready ⟨0, c.numDevs_le.1⟩ link = [] := by
      intro link
      have hlink := hstalled.ready link link.isLt
      unfold Receiving.traffic at hlink
      rw [Receiving.history_start] at hlink
      exact hlink
    have hclock := clock_goes hlate.sent hlate.tracked hroot hready
    cases hsim : hmc.clock w with
    | error f => exact absurd trivial (hclock.2 f hsim)
    | ok hmc' =>
      obtain ⟨htracked, hhosts, -⟩ := hclock.1 hmc' hsim
      have hnext := hlate.next htracked hhosts
      have hlogged : logged sim w (m, a) [req] = .ok
          ({ hmc := hmc', tag := m.tag + 1, callback := m.callback ++ [(sentOf req m.tag).2] },
            a.append ⟨[sentOf req m.tag], []⟩) := by
        change (m.stepWith _ sim w [req] >>= _) = _
        rw [stepWith_send h.queue hmerge hsend, hrun, Outcome.ok_bind]
        unfold HMCMem.clock
        rw [hstalled.mem, hstalled.receipts, hsim]
        rfl
      obtain ⟨n, m', hexec, hfails⟩ := hnext.fails sim rfl hroot
      exact ⟨[req] :: List.replicate n [], [], m', _, exec_cons_eq_ok.mpr ⟨_, hlogged, hexec⟩, hfails⟩
  · refine ⟨[], [req], m, a, rfl, fun missing => ?_⟩
    rw [stepWith_send h.queue hmerge hsend, hfails missing]
    rfl

/-- **A response without an entry.** -/
theorem not_responses_matched :
    ¬ ∀ (c : Cube) (sim : Simulator) (w : Wiring c) (cmcs : Vector HmcCmc maxCmc) (bsize : ℕ) (m₀ m : HMCMem c)
      (a : Activity) (arrivals : List (List MemRequest)), make c cmcs bsize = .ok (w, m₀) →
        exec (logged sim w) (m₀, {}) arrivals = .ok (m, a) →
          ∀ arriving missing, m.stepWith missing sim w arriving = m.step sim w arriving := by
  intro h
  have hmade : smallCube.toOption.isSome = true := by decide +kernel
  cases hmake : smallCube with
  | error f =>
    rw [hmake] at hmade
    cases hmade
  | ok p =>
    obtain ⟨w, m₀⟩ := p
    have hregs (dev : Fin fourLinks.numDevs) : 64 ≤ maxBlocksize (setAllMaxBlocksize 0 64) := by decide
    obtain ⟨hlinked, hroot⟩ := linked_make hmake
    have hbusy : Takes (fun _ => True) readingHost busyReceive fun req => req = firstRead := by
      rintro _ rfl
      exact ensures_ok trivial
    have hidle : Takes (fun _ => True) readingHost idleReceive fun req => req = firstRead := by
      rintro _ rfl
      exact ensures_ok trivial
    obtain ⟨htag, hqueue⟩ : m₀.tag = 0 ∧ m₀.transationQueue = [] := by
      obtain ⟨l, -, hpair⟩ := Outcome.bind_eq_ok.mp hmake
      cases hpair
      exact ⟨rfl, rfl⟩
    have hstart : Idle (fun _ => setAllMaxBlocksize 0 64) (fun req => req = firstRead) m₀ {} := {
      linked := { hlinked with
        sent := fun _ hp => absurd hp List.not_mem_nil
        queue := fun _ hr => absurd (hqueue ▸ hr) List.not_mem_nil }
      queue := hqueue
      finished := hlinked.tracked.finished_of_nil rfl }
    have hmerge : mergeSame [firstRead] = .ok [firstRead] := rfl
    obtain ⟨arrivals, m, a, hexec, hready, hlimit⟩ :=
      hstart.reaches hregs hroot hbusy hidle rfl hmerge htag le_rfl
    obtain ⟨arrivals', arriving, m', a', hexec', hfails⟩ := hready.fails hregs hroot hlimit hmerge
    have hsame := h fourLinks readingHost w _ 64 m₀ m' a' (arrivals ++ arrivals') hmake
      (exec_append_eq_ok.mpr ⟨_, hexec, hexec'⟩) arriving .nullReference
    unfold HMCMem.step at hsame
    rw [hfails, hfails] at hsame
    cases hsame

end HMCMem

end PIMSim
