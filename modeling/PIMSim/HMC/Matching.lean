import PIMSim.HMC.HMCMem

/-!
# The entries of the responses

A request is sent under a number that the memory object counts, and the cubes give a response the lower
ten bits of it. As long as no request is sent under a number of more than ten bits, the number of an entry
is the tag of its response. The packets in the cubes then answer the requests whose entries wait, each of
them one, so that every response that is received finds the entry of the very request that it answers.

The fault of a lookup without an entry is a parameter of a step. That no lookup fails is stated as a step
that does not depend on it.

## Main definitions

* `HMCMem.traffic`: the cubes with what has been sent and received
* `HMCMem.Linked`: the entries are those of the requests in the cubes
* `HMCMem.Moves`, `HMCMem.Took`, `HMCMem.Stalled`: what the loops over the links keep, and whether they have
  received something
* `HMCMem.Fits`: the requests of a step have numbers of ten bits
* `HMCMem.Matched`: every response has been matched with its entry

## Main results

* `HMCMem.Linked.receive`, `HMCMem.Linked.send`: a response and a request
* `HMCMem.recvLink_unaffected`, `HMCMem.recvLinks_unaffected`, `HMCMem.recvAll_unaffected`: the loops
* `HMCMem.serve_unaffected`, `HMCMem.stepWith_unaffected`: a step
* `HMCMem.responses_matched`: runs
-/

namespace PIMSim

open CSharp HMC Fields Slots Transition

variable {c : Cube}

/-! ### Packets -/

namespace HMC

variable (addr : UInt64) (tag : UInt32) (type : HmcRqst)

theorem buildMemrequest_cmd : (buildMemrequest 0 addr tag type 0).cmd = type.cmd.toNat := by
  unfold buildMemrequest
  rw [BuildRequest.cmd_request]
  dsimp only
  cases type <;> decide

theorem buildMemrequest_length : (buildMemrequest 0 addr tag type 0).length = type.flits.toNat := by
  unfold buildMemrequest
  rw [BuildRequest.length_request]
  dsimp only
  cases type <;> decide

theorem buildMemrequest_cub : (buildMemrequest 0 addr tag type 0).cub = 0 := by
  unfold buildMemrequest
  rw [BuildRequest.cub_request]
  dsimp only
  decide

theorem buildMemrequest_slid : (buildMemrequest 0 addr tag type 0).slid = 0 := by
  unfold buildMemrequest
  rw [BuildRequest.slid_request]
  dsimp only
  decide

/-- The response carries the tag without its bits from the tenth one on. -/
theorem buildMemrequest_rspTag :
    (buildMemrequest 0 addr tag type 0).rspTag.toNat = tag.toNat % 2 ^ 10 := by
  unfold buildMemrequest
  rw [BuildRequest.rspTag_request]
  rfl

/-- The response to a type of packet, with its flits. -/
def HmcRqst.response : HmcRqst → HmcResponse × ℕ
  | .rd64 => (.rdRs, 5)
  | .wr64 => (.wrRs, 1)

theorem HmcRqst.command_eq :
    command type.cmd.toNat = some ⟨.answered type.response.1 type.response.2 dramlatency, 64⟩ := by
  cases type <;> decide

end HMC

namespace HMCMem

variable (addr : UInt64) (tag : UInt32) (type : HmcRqst)

/-- What is sent: the request of the packet, in its slot. -/
theorem requestOf_packetOf :
    requestOf (slotOf (packetOf type (buildMemrequest 0 addr tag type 0))) =
      buildMemrequest 0 addr tag type 0 := by
  have hlength := buildMemrequest_length addr tag type
  cases type with
  | rd64 =>
    change _ = 1 at hlength
    refine HMCSim.requestOf_slotOf rfl (by omega) (by omega) ?_
    rw [hlength]
    rfl
  | wr64 =>
    change _ = 5 at hlength
    refine HMCSim.requestOf_slotOf rfl (by omega) (by omega) ?_
    rw [hlength]
    rfl

theorem length_packetOf (q : Request) : (packetOf type q).length = maxUqPacket := by
  cases type <;> rfl

/-- **What is sent is answered** when blocks have 64 bytes. -/
theorem packetOf_wellFormed {regs : Registers c} (hregs : ∀ dev, 64 ≤ maxBlocksize (regs dev)) :
    HostEvent.WellFormed regs (.send (some (packetOf type (buildMemrequest 0 addr tag type 0)))) := by
  intro words hwords header hheader dev _
  cases hwords
  have hhead : header = (buildMemrequest 0 addr tag type 0).head := by
    cases type <;> exact (Option.some.inj hheader).symm
  have hcmd : (Request.mk header 0).cmd = type.cmd.toNat := by
    rw [hhead]
    exact buildMemrequest_cmd addr tag type
  rw [hcmd]
  exact ⟨_, _, _, _, type.command_eq, hregs dev⟩

/-- The tag of a response. -/
def tagOf (packet : List UInt64) : UInt64 := field (packet.getD 0 0) 12 0x3FF

/-- The words of an array that has been filled. -/
theorem getElem?_of_arrayOf {words : List UInt64} {answer : Words} (hanswer : arrayOf words = answer)
    (hroom : maxUqPacket ≤ words.length) {i : ℕ} {w : UInt64} (h : answer.toList[i]? = some w) :
    words[i]? = some w := by
  obtain ⟨hi, hw⟩ := List.getElem?_eq_some_iff.mp h
  rw [Vector.length_toList] at hi
  have hfilled : (arrayOf words)[i] = words.getD i 0 := Vector.getElem_ofFn hi
  rw [hanswer] at hfilled
  have hlt : i < words.length := hi.trans_le hroom
  rw [List.getElem?_eq_getElem hlt, ← hw, Vector.getElem_toList, hfilled, List.getD_eq_getElem _ _ hlt]

/-- **The response to a packet** is decoded, with its type and its tag. -/
theorem decode_answer {regs : Registers c} {x : Sent c regs} {words : List UInt64}
    (hx : x.words = slotOf (packetOf type (buildMemrequest 0 addr tag type 0)))
    (hanswer : arrayOf words = x.answer) (hroom : maxUqPacket ≤ words.length) (out : MemResponse) :
    ∃ out', decodeMemresponse (some words) out = .ok (0, out') ∧ out'.type = type.response.1 ∧
      out'.tag = tagOf words := by
  have hq : requestOf x.words = buildMemrequest 0 addr tag type 0 := by
    rw [hx]
    exact requestOf_packetOf addr tag type
  have hcmd : (requestOf x.words).cmd = type.cmd.toNat := by
    rw [hq]
    exact buildMemrequest_cmd addr tag type
  obtain ⟨rspCmd, n, hop, hpos, hn, hbuild, -⟩ := answerOf_spec x.answered (maxBlocksize_lt _)
  -- The command has one response.
  obtain ⟨_, _, _, block, hcommand, hblock⟩ := x.answered
  rw [hcmd, type.command_eq] at hcommand
  cases hcommand
  rw [hcmd, operation_of_fits type.command_eq hblock] at hop
  cases hop
  obtain ⟨packet, hpacket, -, hhead, htail⟩ := buildResponse_eq_ok (requestOf x.words) type.response.1 hpos hn
  obtain rfl : packet = x.answer := Except.ok.inj (hpacket.symm.trans hbuild)
  have hword {i : ℕ} {w : UInt64} (h : x.answer.toList[i]? = some w) : words[i]? = some w :=
    getElem?_of_arrayOf hanswer hroom h
  have hdecode := Request.decodeMemresponse_eq_ok (requestOf x.words) (by cases type <;> decide) hpos (by omega)
    (hword hhead) (hword htail) out
  have hn' : type.response.2 < 32 := by omega
  refine ⟨_, hdecode, rfl, ?_⟩
  change (requestOf x.words).rspTag = tagOf words
  unfold tagOf
  rw [List.getD_eq_getElem?_getD, hword hhead]
  exact (Request.field_rspHead_tag _ _ hn').1.symm

/-! ### The history -/

/-- What is sent for a request under a number. -/
def sentOf (req : MemRequest) (tag : UInt32) : List UInt64 × Entry :=
  (packetOf (rqstOf req.memtype) (buildMemrequest 0 req.address tag (rqstOf req.memtype) 0),
    (tag.toUInt64, System.callBackInfo req))

/-- The cubes with what has been sent and received. -/
def traffic (hmc : HMCSim c) (a : Activity) : Traffic c where
  sim := hmc
  accepted := a.sent.map fun p => slotOf p.1
  received := fun dev link =>
    (a.receipts.filter fun r => dev.val = 0 ∧ r.link = link.val).map fun r => arrayOf r.packet

/-- **The entries are those of the requests in the cubes**, whose numbers fit the tag of a response. -/
structure Linked (regs : Registers c) (R : MemRequest → Prop) (m : HMCMem c) (a : Activity) : Prop where
  tracked : (traffic m.hmc a).Tracked regs False
  hosts : ∀ dev link, (m.hmc.hosts dev).get link = true
  sent : ∀ p ∈ a.sent, ∃ req tag, p = sentOf req tag ∧ tag.toNat < 1024 ∧ R req
  numbers : (a.sent.map fun p => p.2.1).Nodup
  fresh : ∀ p ∈ a.sent, p.2.1.toNat < m.tag.toNat
  found : ∀ r ∈ a.receipts, r.link < c.numLinks ∧ r.entry ∈ a.sent.map Prod.snd ∧ tagOf r.packet = r.entry.1
  waiting : ∀ e, e ∈ m.callback ↔ e ∈ a.sent.map Prod.snd ∧ ∀ r ∈ a.receipts, r.entry ≠ e
  nodup : (m.callback.map Prod.fst).Nodup
  queue : ∀ req ∈ m.transationQueue, R req

variable {regs : Registers c} {R : MemRequest → Prop} {m : HMCMem c} {a : Activity} {t : Traffic c}
  {N : Network (Place c) (Sent c regs)}

/-- The request of an accepted item. -/
theorem sent_of_mem (ht : t.accepted = a.sent.map fun p => slotOf p.1) (hN : t.Accounts N) {x : Sent c regs}
    (hx : x ∈ N.accepted) :
    ∃ p, a.sent[x.number]? = some p ∧ x.words = slotOf p.1 ∧ N.accepted[x.number]? = some x := by
  obtain ⟨i, hi, rfl⟩ := List.mem_iff_getElem.mp hx
  have hat : N.accepted[i]? = some N.accepted[i] := List.getElem?_eq_getElem hi
  have hnumber := congrArg (fun l => l[i]?) hN.number
  have hwords := congrArg (fun l => l[i]?) (hN.words.trans ht)
  simp only [List.getElem?_map, hat, Option.map_some] at hnumber hwords
  obtain ⟨hrange, hnum⟩ := List.getElem?_eq_some_iff.mp hnumber.symm
  rw [List.getElem_range hrange] at hnum
  rw [← hnum]
  obtain ⟨p, hp, hslot⟩ := Option.map_eq_some_iff.mp hwords.symm
  exact ⟨p, hp, hslot.symm, hat⟩

/-- Requests with the same number are one. -/
theorem eq_of_number (hnumbers : (a.sent.map fun p => p.2.1).Nodup)
    (ht : t.accepted = a.sent.map fun p => slotOf p.1) (hN : t.Accounts N)
    {x y : Sent c regs} (hx : x ∈ N.accepted) (hy : y ∈ N.accepted)
    {p q : List UInt64 × Entry} (hp : a.sent[x.number]? = some p) (hq : a.sent[y.number]? = some q)
    (heq : p.2.1 = q.2.1) : x = y := by
  obtain ⟨-, -, -, hatx⟩ := sent_of_mem ht hN hx
  obtain ⟨-, -, -, haty⟩ := sent_of_mem ht hN hy
  have hxkey : (a.sent.map fun p => p.2.1)[x.number]? = some p.2.1 := by
    rw [List.getElem?_map, hp]
    rfl
  have hykey : (a.sent.map fun p => p.2.1)[y.number]? = some p.2.1 := by
    rw [List.getElem?_map, hq, heq]
    rfl
  have hlt := (List.getElem?_eq_some_iff.mp hxkey).1
  have hnumber : x.number = y.number := (List.getElem?_inj hlt hnumbers).mp (hxkey.trans hykey.symm)
  rw [hnumber, haty] at hatx
  exact (Option.some.inj hatx).symm

/-- The tag of an answer is the one that its request gives it. -/
theorem tagOf_eq {x : Sent c regs} {words : List UInt64} (hanswer : arrayOf words = x.answer) :
    tagOf words = (requestOf x.words).rspTag := by
  obtain ⟨rspCmd, n, -, -, hn, -, hhead⟩ := answerOf_spec x.answered (maxBlocksize_lt _)
  have hfirst : words.getD 0 0 = headWord x.answer := by
    rw [← hanswer]
    exact (Vector.getElem_ofFn (f := fun i : Fin maxUqPacket => words.getD i 0) maxUqPacket_pos).symm
  unfold tagOf
  rw [hfirst]
  exact (congrArg (field · 12 0x3FF) hhead).trans (Request.field_rspHead_tag _ rspCmd (by omega)).1

/-- **The tag of an answer** is the number of its request. -/
theorem Linked.tag_answer (h : Linked regs R m a) (ht : t.accepted = a.sent.map fun p => slotOf p.1)
    (hN : t.Accounts N) {x : Sent c regs} (hx : x ∈ N.accepted) {words : List UInt64}
    (hanswer : arrayOf words = x.answer) :
    ∃ p ∈ a.sent, a.sent[x.number]? = some p ∧ x.words = slotOf p.1 ∧ tagOf words = p.2.1 := by
  obtain ⟨p, hp, hslot, -⟩ := sent_of_mem ht hN hx
  have hmem : p ∈ a.sent := List.mem_of_getElem? hp
  refine ⟨p, hmem, hp, hslot, ?_⟩
  obtain ⟨req, tag, rfl, htag, -⟩ := h.sent p hmem
  rw [tagOf_eq hanswer, hslot]
  refine UInt64.toNat_inj.mp ?_
  unfold sentOf
  rw [requestOf_packetOf, buildMemrequest_rspTag]
  exact Nat.mod_eq_of_lt htag

/-! ### Receiving -/

/-- The cubes with another response that has been received. -/
def received (hmc : HMCSim c) (a : Activity) (z : ℕ) (words : List UInt64) : Traffic c :=
  { traffic hmc a with received := Traffic.note (traffic hmc a).received 0 z (arrayOf words) }

theorem traffic_receipt (hmc : HMCSim c) (a : Activity) (r : Receipt) :
    traffic hmc (a.append ⟨[], [r]⟩) = received hmc a r.link r.packet := by
  have hreceived : (traffic hmc (a.append ⟨[], [r]⟩)).received =
      Traffic.note (traffic hmc a).received 0 r.link (arrayOf r.packet) := by
    funext dev link
    change ((a.receipts ++ [r]).filter _).map _ = if dev.val = 0 ∧ link.val = r.link then _ else _
    rw [List.filter_append, List.map_append]
    by_cases hplace : dev.val = 0 ∧ r.link = link.val
    · have hone : [r].filter (fun r => dev.val = 0 ∧ r.link = link.val) = [r] := by simp [hplace]
      rw [if_pos ⟨hplace.1, hplace.2.symm⟩, hone]
      rfl
    · have hnone : [r].filter (fun r => dev.val = 0 ∧ r.link = link.val) = [] := by simpa using hplace
      rw [if_neg fun h => hplace ⟨h.1, h.2.symm⟩, hnone]
      exact List.append_nil _
  unfold received
  rw [← hreceived]
  unfold traffic Activity.append
  rw [List.append_nil]

theorem Linked.tracked_received (h : Linked regs R m a) {hmc : HMCSim c} {z : ℕ} {packet : Option (List UInt64)}
    {words : List UInt64} (hrecv : m.hmc.recv 0 z packet = .ok (0, hmc, some words)) :
    (received hmc a z words).Tracked regs False := by
  have hstep : (traffic m.hmc a).step ⟨fun _ _ => 0, fun _ _ => 0⟩ (.recv 0 z packet) =
      .ok (received hmc a z words) := by
    change (m.hmc.recv 0 z packet >>= _) = _
    rw [hrecv]
    rfl
  exact h.tracked.recv hstep

/-- **A response is that of a request whose entry waits.** -/
theorem Linked.exists_entry (h : Linked regs R m a) {hmc : HMCSim c} {z : ℕ} {words : List UInt64}
    (hd : 0 < c.numDevs) (hl : z < c.numLinks) (hN : (received hmc a z words).Accounts N) :
    ∃ x : Sent c regs, ∃ p ∈ a.sent, p.2 ∈ m.callback ∧ x.words = slotOf p.1 ∧ arrayOf words = x.answer ∧
      tagOf words = p.2.1 := by
  have hplace : (received hmc a z words).received ⟨0, hd⟩ ⟨z, hl⟩ =
      (traffic hmc a).received ⟨0, hd⟩ ⟨z, hl⟩ ++ [arrayOf words] := if_pos ⟨rfl, rfl⟩
  have hshown : (received hmc a z words).received ⟨0, hd⟩ ⟨z, hl⟩ = _ := hN.shown (.received ⟨0, hd⟩ ⟨z, hl⟩)
  rw [hplace] at hshown
  obtain ⟨before, last, hitems, hbefore, hlast⟩ := List.map_eq_append_iff.mp hshown.symm
  obtain ⟨x, rest, rfl, hx, hrest⟩ := List.map_eq_cons_iff.mp hlast
  obtain rfl := List.map_eq_nil_iff.mp hrest
  have hmem : x ∈ N.items (.received ⟨0, hd⟩ ⟨z, hl⟩) := hitems ▸ by simp
  have haccepted := hN.accepted _ x hmem
  obtain ⟨p, hp, hat, hslot, htag⟩ := h.tag_answer rfl hN haccepted hx.symm
  refine ⟨x, p, hp, (h.waiting p.2).mpr ⟨List.mem_map_of_mem hp, fun r hr heq => ?_⟩, hslot, hx.symm, htag⟩
  obtain ⟨hlink, -, hrtag⟩ := h.found r hr
  -- Another request was the one of an earlier response.
  obtain ⟨y, hy, hyx, hyanswer⟩ : ∃ y ∈ N.accepted, y ≠ x ∧ arrayOf r.packet = y.answer := by
    have hearlier : arrayOf r.packet ∈ (traffic hmc a).received ⟨0, hd⟩ ⟨r.link, hlink⟩ :=
      List.mem_map_of_mem (f := fun r : Receipt => arrayOf r.packet) (List.mem_filter.mpr ⟨hr, by simp⟩)
    by_cases hsame : r.link = z
    · have hin : arrayOf r.packet ∈ before.map (Sent.view (.received ⟨0, hd⟩ ⟨z, hl⟩)) := by
        rw [hbefore, ← show (⟨r.link, hlink⟩ : Fin c.numLinks) = ⟨z, hl⟩ from Fin.ext hsame]
        exact hearlier
      obtain ⟨y, hy, hyanswer⟩ := List.mem_map.mp hin
      have hnodup := hN.nodup (.received ⟨0, hd⟩ ⟨z, hl⟩)
      rw [hitems, List.nodup_append] at hnodup
      refine ⟨y, hN.accepted (.received ⟨0, hd⟩ ⟨z, hl⟩) y ?_, hnodup.2.2 y hy x (by simp), hyanswer.symm⟩
      rw [hitems]
      exact List.mem_append_left _ hy
    · have hother : (received hmc a z words).received ⟨0, hd⟩ ⟨r.link, hlink⟩ =
          (traffic hmc a).received ⟨0, hd⟩ ⟨r.link, hlink⟩ := if_neg fun h => hsame h.2
      have hshown' : (received hmc a z words).received ⟨0, hd⟩ ⟨r.link, hlink⟩ = _ :=
        hN.shown (.received ⟨0, hd⟩ ⟨r.link, hlink⟩)
      rw [hother] at hshown'
      rw [hshown'] at hearlier
      obtain ⟨y, hy, hyanswer⟩ := List.mem_map.mp hearlier
      refine ⟨y, hN.accepted _ y hy, ?_, hyanswer.symm⟩
      rintro rfl
      have hplaces := (hN.once y (hN.accepted _ y hy)).unique hy hmem
      cases hplaces
      exact hsame rfl
  obtain ⟨q, -, hat', -, htag'⟩ := h.tag_answer rfl hN hy hyanswer
  refine hyx (eq_of_number h.numbers rfl hN hy haccepted hat' hat ?_)
  rw [← htag', hrtag, heq]

/-- **A response finds the entry of its request**, and its reception keeps the others. -/
theorem Linked.receive (h : Linked regs R m a) {z : ℕ} {packet packet' : Option (List UInt64)} {hmc : HMCSim c}
    (hrecv : m.hmc.recv 0 z packet = .ok (0, hmc, packet')) :
    ∃ words, packet' = some words ∧ maxUqPacket ≤ words.length ∧ ∃ x : Sent c regs, ∃ p ∈ a.sent,
      p.2 ∈ m.callback ∧ x.words = slotOf p.1 ∧ arrayOf words = x.answer ∧ tagOf words = p.2.1 ∧
        ∀ notices, Linked regs R { m with hmc, callback := m.callback.eraseP fun s => s.1 = p.2.1 }
          (a.append ⟨[], [⟨z, words, p.2, notices⟩]⟩) := by
  rcases HMCSim.recv_cases hrecv with ⟨hcode, -⟩ | ⟨-, hd, hl, words, slot, rfl, hgives⟩
  · exact absurd rfl hcode
  have htracked := h.tracked_received hrecv
  obtain ⟨N, -, hN⟩ := htracked.accounts
  obtain ⟨x, p, hp, hwaiting, hslot, hanswer, htag⟩ := h.exists_entry hd hl hN
  refine ⟨words, rfl, hgives.room, x, p, hp, hwaiting, hslot, hanswer, htag, fun notices => ?_⟩
  have hsent : (a.append ⟨[], [⟨z, words, p.2, notices⟩]⟩).sent = a.sent := List.append_nil _
  exact {
    tracked := traffic_receipt hmc a ⟨z, words, p.2, notices⟩ ▸ htracked
    hosts := fun dev link => by
      rw [hgives.alike.hosts]
      exact h.hosts dev link
    sent := hsent ▸ h.sent
    numbers := hsent ▸ h.numbers
    fresh := hsent ▸ h.fresh
    found := by
      rw [hsent]
      intro r hr
      rcases List.mem_append.mp hr with hr | hr
      · exact h.found r hr
      · obtain rfl := List.mem_singleton.mp hr
        exact ⟨hl, List.mem_map_of_mem hp, htag⟩
    waiting := by
      intro e
      rw [hsent]
      change e ∈ m.callback.eraseP _ ↔ _ ∧ ∀ r ∈ a.receipts ++ [_], _
      rw [FirstMatch.mem_eraseP_key h.nodup hwaiting, h.waiting e]
      simp only [List.mem_append, List.mem_singleton, or_imp, forall_and, forall_eq]
      rw [and_assoc, ne_comm]
    nodup := h.nodup.sublist (List.eraseP_sublist.map _)
    queue := h.queue }

/-- **A response that is received** has come to the end of its way. -/
theorem Linked.receive_takes (h : Linked regs R m a) {z : ℕ} {packet : Option (List UInt64)} {hmc : HMCSim c}
    {words : List UInt64} (hrecv : m.hmc.recv 0 z packet = .ok (0, hmc, some words)) :
    (traffic m.hmc a).Takes (received hmc a z words) ∧
      (received hmc a z words).toGo.1 < (traffic m.hmc a).toGo.1 := by
  obtain ⟨N, -, -, -, hsettled⟩ := id h.tracked
  rcases HMCSim.recv_cases hrecv with ⟨hcode, -⟩ | ⟨-, hd, hl, words', slot, hwords, hgives⟩
  · exact absurd rfl hcode
  cases hwords
  have hless := hsettled.receive_proceeds hgives
  exact ⟨⟨rfl, hgives.alike.hosts, hgives.alike.delay, hless.le⟩, hless⟩

/-! ### Sending -/

/-- A packet for a request goes through. -/
theorem send_packetOf (hmc : HMCSim c) (addr : UInt64) (tag : UInt32) (type : HmcRqst) :
    ∃ status hmc', hmc.send (some (packetOf type (buildMemrequest 0 addr tag type 0))) = .ok (status, hmc') := by
  have hlength := buildMemrequest_length addr tag type
  have hcmd := buildMemrequest_cmd addr tag type
  have hsendable : hmc.Sendable (some (packetOf type (buildMemrequest 0 addr tag type 0))) := by
    intro words hwords
    cases hwords
    refine ⟨buildMemrequest 0 addr tag type 0, ?_, ?_, ?_, Or.inr (Or.inr ?_)⟩
    · cases type <;> rfl
    · rw [hlength]
      cases type <;> decide
    · rw [hlength]
      cases type <;> rfl
    · have hcub : (buildMemrequest 0 addr tag type 0).cub < c.numDevs :=
        (buildMemrequest_cub addr tag type).trans_lt c.numDevs_le.1
      have hslid : (buildMemrequest 0 addr tag type 0).slid.toNat < c.numLinks := by
        rw [buildMemrequest_slid]
        rcases c.numLinks_eq with h | h <;> rw [h] <;> decide
      refine ⟨hcub, hslid, fun _ _ => ⟨?_, ?_, ?_, ?_⟩⟩
      · rw [hlength]
        cases type <;> decide
      · change (buildMemrequest 0 addr tag type 0).cmd ≠ 8
        rw [hcmd]
        cases type <;> decide
      · intro hposted
        change (buildMemrequest 0 addr tag type 0).cmd ∈ _ at hposted
        rw [hcmd] at hposted
        exact absurd hposted (by cases type <;> decide)
      · intro hcustom
        change (buildMemrequest 0 addr tag type 0).cmd ∈ _ at hcustom
        rw [hcmd] at hcustom
        exact absurd hcustom (by cases type <;> decide)
  obtain ⟨⟨status, hmc'⟩, hsend, -⟩ := (HMCSim.send_iff _).mpr hsendable
  exact ⟨status, hmc', hsend⟩

theorem toNat_succ {tag : UInt32} (htag : tag.toNat < 1024) : (tag + 1).toNat = tag.toNat + 1 := by
  rw [UInt32.toNat_add]
  change (tag.toNat + 1) % 2 ^ 32 = _
  omega

/-- A number that is not used. -/
theorem Linked.count (h : Linked regs R m a) (htag : m.tag.toNat < 1024) {hmc : HMCSim c}
    (hsame : hmc = m.hmc) : Linked regs R { m with hmc := hmc, tag := m.tag + 1 } a := by
  subst hsame
  exact { h with
    fresh := fun p hp => (h.fresh p hp).trans ((Nat.lt_succ_self _).trans_eq (toNat_succ htag).symm) }

/-- **A request is sent** under the next number. -/
theorem Linked.send (h : Linked regs R m a) (hregs : ∀ dev, 64 ≤ maxBlocksize (regs dev))
    (htag : m.tag.toNat < 1024) {req : MemRequest} {rest : List MemRequest}
    (hqueue : m.transationQueue = req :: rest)
    {hmc : HMCSim c} (hsend : m.hmc.send (some (sentOf req m.tag).1) = .ok (0, hmc)) :
    Linked regs R
      { hmc, tag := m.tag + 1, callback := m.callback ++ [(sentOf req m.tag).2], transationQueue := rest }
      (a.append ⟨[sentOf req m.tag], []⟩) := by
  have hstep : (traffic m.hmc a).step ⟨fun _ _ => 0, fun _ _ => 0⟩ (.send (some (sentOf req m.tag).1)) =
      .ok (traffic hmc (a.append ⟨[sentOf req m.tag], []⟩)) := by
    change (m.hmc.send _ >>= _) = _
    rw [hsend]
    unfold traffic Activity.append
    rw [List.map_append, List.append_nil]
    rfl
  -- The counter is above every number sent so far, so that the new entry meets no old one.
  have hold : ∀ p ∈ a.sent, p.2.1 ≠ (sentOf req m.tag).2.1 := by
    intro p hp heq
    have hlt := h.fresh p hp
    rw [heq] at hlt
    exact lt_irrefl _ hlt
  have hnew : ∀ r ∈ a.receipts, r.entry ≠ (sentOf req m.tag).2 := by
    intro r hr heq
    obtain ⟨p, hp, hentry⟩ := List.mem_map.mp (h.found r hr).2.1
    exact hold p hp (congrArg Prod.fst (hentry.trans heq))
  have hreceipts : (a.append ⟨[sentOf req m.tag], []⟩).receipts = a.receipts := List.append_nil _
  have hsent : (a.append ⟨[sentOf req m.tag], []⟩).sent = a.sent ++ [sentOf req m.tag] := rfl
  refine {
    tracked := h.tracked.send (packetOf_wellFormed _ _ _ hregs) hstep
    hosts := ?_
    sent := ?_
    numbers := ?_
    fresh := ?_
    found := ?_
    waiting := ?_
    nodup := ?_
    queue := fun r hr => h.queue r (hqueue ▸ List.mem_cons_of_mem req hr) }
  · -- `send` changes a queue of a link and no link itself.
    rcases HMCSim.send_cases hsend with ⟨hcode, -⟩ | ⟨-, words, dev, link, slot, -, haccepts⟩
    · exact absurd rfl hcode
    · intro dev' link'
      rw [haccepts.alike.hosts]
      exact h.hosts dev' link'
  · intro p hp
    rcases List.mem_append.mp hp with hp | hp
    · exact h.sent p hp
    · obtain rfl := List.mem_singleton.mp hp
      exact ⟨req, m.tag, rfl, htag, h.queue req (hqueue ▸ List.mem_cons_self)⟩
  · rw [hsent, List.map_append, List.nodup_append]
    refine ⟨h.numbers, List.nodup_singleton _, ?_⟩
    intro k hk k' hk'
    obtain ⟨p, hp, rfl⟩ := List.mem_map.mp hk
    obtain rfl := List.mem_singleton.mp hk'
    exact hold p hp
  · intro p hp
    change p.2.1.toNat < (m.tag + 1).toNat
    rw [toNat_succ htag]
    rcases List.mem_append.mp hp with hp | hp
    · exact (h.fresh p hp).trans (Nat.lt_succ_self _)
    · obtain rfl := List.mem_singleton.mp hp
      exact Nat.lt_succ_self _
  · rw [hreceipts, hsent]
    intro r hr
    obtain ⟨hlink, hmem, htag'⟩ := h.found r hr
    rw [List.map_append]
    exact ⟨hlink, List.mem_append_left _ hmem, htag'⟩
  · -- An entry waits when it was sent and no receipt names it; the new one has no receipt yet.
    intro e
    rw [hreceipts, hsent]
    simp only [List.mem_append, List.map_append, List.map_cons, List.map_nil, List.mem_singleton, h.waiting e]
    constructor
    · rintro (⟨hmem, hnone⟩ | rfl)
      · exact ⟨Or.inl hmem, hnone⟩
      · exact ⟨Or.inr rfl, hnew⟩
    · rintro ⟨hmem | rfl, hnone⟩
      · exact Or.inl ⟨hmem, hnone⟩
      · exact Or.inr rfl
  · change ((m.callback ++ [_]).map Prod.fst).Nodup
    rw [List.map_append, List.nodup_append]
    refine ⟨h.nodup, List.nodup_singleton _, ?_⟩
    intro k hk k' hk'
    obtain ⟨e, he, rfl⟩ := List.mem_map.mp hk
    obtain rfl := List.mem_singleton.mp hk'
    obtain ⟨p, hp, rfl⟩ := List.mem_map.mp ((h.waiting e).mp he).1
    exact hold p hp

/-! ### The loops over the links -/

variable {bad : Fault → Prop} {notify : Notify} {sim : Simulator} {w : Wiring c}

/-- The completion path takes every request. -/
def Takes (bad : Fault → Prop) (sim : Simulator) (notify : Notify) (R : MemRequest → Prop) : Prop :=
  ∀ req, R req → Harmless bad (notify sim (responseTo req.memtype) (System.callBackInfo req))

/-- The response to the packet of a request is the one that its completion path is for. -/
theorem completion_rqstOf (memtype : MemReqType) :
    (rqstOf memtype).response.1.completion = responseTo memtype := by
  cases memtype <;> rfl

/-- The history of the loops. -/
def Receiving.history (a : Activity) (r : Receiving c) : Activity := a.append ⟨[], r.receipts⟩

theorem Receiving.history_receipt (a : Activity) (r : Receiving c) (x : Receipt) :
    (r.history a).append ⟨[], [x]⟩ = a.append ⟨[], r.receipts ++ [x]⟩ := by
  unfold Receiving.history Activity.append
  rw [List.append_nil, List.append_nil, List.append_assoc]

/-- The cubes with the history of the loops. -/
def Receiving.traffic (a : Activity) (r : Receiving c) : Traffic c := HMCMem.traffic r.mem.hmc (r.history a)

/-- What the loops keep. -/
structure Moves (regs : Registers c) (R : MemRequest → Prop) (a : Activity) (r r' : Receiving c) : Prop where
  linked : Linked regs R r'.mem (r'.history a)
  room : maxUqPacket ≤ r'.packet.length
  queue : r'.mem.transationQueue = r.mem.transationQueue
  tag : r'.mem.tag = r.mem.tag
  entries : r'.mem.callback.length ≤ r.mem.callback.length
  takes : (r.traffic a).Takes (r'.traffic a)

theorem Moves.refl {r : Receiving c} (h : Linked regs R r.mem (r.history a))
    (hroom : maxUqPacket ≤ r.packet.length) : Moves regs R a r r :=
  ⟨h, hroom, rfl, rfl, le_rfl, .refl⟩

theorem Moves.trans {r r' r'' : Receiving c} (h : Moves regs R a r r') (h' : Moves regs R a r' r'') :
    Moves regs R a r r'' where
  linked := h'.linked
  room := h'.room
  queue := h'.queue.trans h.queue
  tag := h'.tag.trans h.tag
  entries := h'.entries.trans h.entries
  takes := h.takes.trans h'.takes

/-- Responses have been received. -/
structure Took (a : Activity) (r r' : Receiving c) : Prop where
  entries : r'.mem.callback.length < r.mem.callback.length
  remaining : (r'.traffic a).toGo.1 < (r.traffic a).toGo.1

/-- Nothing has been received, as no response waited at the first links. -/
structure Stalled (a : Activity) (k : ℕ) (r r' : Receiving c) : Prop where
  mem : r'.mem = r.mem
  receipts : r'.receipts = r.receipts
  ready : ∀ link : Fin c.numLinks, link < k → (r.traffic a).ready ⟨0, c.numDevs_le.1⟩ link = []

theorem Stalled.traffic_eq {k : ℕ} {r r' : Receiving c} (h : Stalled a k r r') :
    r'.traffic a = r.traffic a := by
  unfold Receiving.traffic Receiving.history
  rw [h.mem, h.receipts]

theorem length_zeroPacket : maxUqPacket ≤ zeroPacket.length := List.length_replicate.ge

/-- **A response that is decoded** finds the entry of its request. -/
theorem receive_unaffected (htakes : Takes bad sim notify R) (h : Linked regs R m a)
    {req : MemRequest} (hreq : R req) {e : Entry} (hunits : e.2 = System.callBackInfo req)
    (hwaiting : e ∈ m.callback) {hmc : HMCSim c} {out : MemResponse}
    (htype : out.type = (rqstOf req.memtype).response.1) (htag : out.tag = e.1) :
    Unaffected bad (fun missing => HMCMem.receive missing notify sim { m with hmc } out) fun r =>
      ∃ notices, r = (e, notices, { m with hmc, callback := m.callback.eraseP fun s => s.1 = e.1 }) := by
  have hstep : out.type = .rdRs ∨ out.type = .wrRs := by
    rw [htype]
    cases req.memtype <;> decide
  have hfind : m.callback.find? (fun s => s.1 = out.tag) = some e := by
    rw [htag]
    exact FirstMatch.find?_key h.nodup hwaiting
  have hcompletion : out.type.completion = responseTo req.memtype := by
    rw [htype]
    exact completion_rqstOf req.memtype
  have hnotify : Harmless bad (notify sim out.type.completion e.2) := by
    rw [hcompletion, hunits]
    exact htakes req hreq
  unfold HMCMem.receive
  simp only [if_pos hstep, hfind]
  refine (Unaffected.of_ensures hnotify).bind fun notices _ => .ok ⟨notices, ?_⟩
  rw [htag]

/-- **The turn of a link** stalls, or takes a response with the entry of its request. -/
theorem recvLink_unaffected (htakes : Takes bad sim notify R) {r : Receiving c} (z : Fin c.numLinks)
    (h : Linked regs R r.mem (r.history a)) (hroom : maxUqPacket ≤ r.packet.length) :
    Unaffected bad (fun missing => recvLink missing notify sim r z) fun p => Moves regs R a r p.2 ∧
      if p.1 then p.2.mem = r.mem ∧ p.2.receipts = r.receipts ∧ (r.traffic a).ready ⟨0, c.numDevs_le.1⟩ z = []
      else Took a r p.2 := by
  have hd : 0 < c.numDevs := c.numDevs_le.1
  obtain ⟨⟨code, hmc, packet'⟩, hrecv, -⟩ := (HMCSim.recv_iff (s := r.mem.hmc) 0 z (some r.packet)).mpr
    (Or.inr (Or.inr ⟨hd, z.isLt, fun _ _ => ⟨_, rfl, hroom⟩⟩))
  unfold HMCMem.recvLink
  simp only [hrecv, Outcome.ok_bind]
  by_cases hcode : code = 0
  · subst hcode
    have hne : ¬(0 : Int) = hmcStall := by decide
    simp only [if_neg hne]
    -- A response came: it answers a request that was sent, whose entry still waits.
    obtain ⟨words, rfl, hwords, x, p, hp, hwaiting, hslot, hanswer, htag, hlinked⟩ := h.receive hrecv
    obtain ⟨req, tag, hsent, -, hreq⟩ := h.sent p hp
    have hx : x.words = slotOf (packetOf (rqstOf req.memtype)
        (buildMemrequest 0 req.address tag (rqstOf req.memtype) 0)) := by
      rw [hslot, hsent]
      rfl
    obtain ⟨out, hdecode, htype, houttag⟩ :=
      decode_answer req.address tag (rqstOf req.memtype) hx hanswer hwords r.out
    simp only [hdecode, Outcome.ok_bind]
    have hunits : p.2.2 = System.callBackInfo req := by rw [hsent]; rfl
    refine (receive_unaffected htakes h hreq hunits hwaiting htype (houttag.trans htag)).bind ?_
    rintro _ ⟨notices, rfl⟩
    obtain ⟨hgoes, hless⟩ := h.receive_takes hrecv
    have htraffic : HMCMem.traffic hmc (a.append ⟨[], r.receipts ++ [⟨z, words, p.2, notices⟩]⟩) =
        received hmc (r.history a) z words := by
      rw [← r.history_receipt]
      exact traffic_receipt hmc (r.history a) ⟨z, words, p.2, notices⟩
    refine .ok ⟨⟨?_, length_zeroPacket, rfl, rfl, List.length_eraseP_le, ?_⟩, ?_, ?_⟩
    · have hkept := hlinked notices
      rw [r.history_receipt] at hkept
      exact hkept
    · rw [← htraffic] at hgoes
      exact hgoes
    · have hself : decide (p.2.1 = p.2.1) = true := decide_eq_true rfl
      have hlength := List.length_eraseP_of_mem (p := fun s : Entry => decide (s.1 = p.2.1)) hwaiting hself
      have hpos := List.length_pos_of_mem hwaiting
      change (r.mem.callback.eraseP _).length < _
      omega
    · rw [← htraffic] at hless
      exact hless
  · -- No response came: the link of a host can only have stalled.
    have hhost : (r.mem.hmc.hosts ⟨0, hd⟩).get z = true := h.hosts _ _
    obtain ⟨hstall, hnone⟩ := HMCSim.recv_ready hhost hrecv hcode
    obtain ⟨N, -, -, -, hsettled⟩ := id h.tracked
    simp only [if_pos hstall]
    rcases HMCSim.recv_cases hrecv with ⟨-, rfl⟩ | ⟨hzero, -⟩
    · exact .ok ⟨⟨h, length_zeroPacket, rfl, rfl, le_rfl, .refl⟩, rfl, rfl, hsettled.kept.shown_eq_nil hnone⟩
    · exact absurd hzero hcode

/-- **A pass over the links** takes responses, or none waits. -/
theorem recvLinks_unaffected (htakes : Takes bad sim notify R) {r : Receiving c}
    (h : Linked regs R r.mem (r.history a)) (hroom : maxUqPacket ≤ r.packet.length) :
    Unaffected bad (fun missing => recvLinks missing notify sim r) fun p => Moves regs R a r p.2 ∧
      if p.1 = c.numLinks then Stalled a c.numLinks r p.2 else Took a r p.2 := by
  unfold HMCMem.recvLinks
  -- Every link below the counter has stalled, or responses have been received.
  refine (Unaffected.foldlM_range (I := fun k p => Moves regs R a r p.2 ∧ p.1 ≤ k ∧
      if p.1 = k then Stalled a k r p.2 else Took a r p.2) (fun p k hk hp => ?_) ?_).mono
    fun p hp => ⟨hp.1, hp.2.2⟩
  · obtain ⟨stallSig, r'⟩ := p
    obtain ⟨hmoves, hle, hgoes⟩ := hp
    refine (recvLink_unaffected htakes ⟨k, hk⟩ hmoves.linked hmoves.room).bind fun q hq => ?_
    obtain ⟨stalled, r''⟩ := q
    obtain ⟨hturn, hlink⟩ := hq
    dsimp only at hle hgoes
    have hentries := hturn.entries
    have hremaining : (r''.traffic a).toGo.1 ≤ (r'.traffic a).toGo.1 := hturn.takes.remaining
    cases stalled with
    | true =>
      obtain ⟨hmem, hreceipts, hready⟩ := hlink
      refine .ok ⟨hmoves.trans hturn, Nat.succ_le_succ hle, ?_⟩
      change if stallSig + 1 = k + 1 then _ else _
      by_cases hall : stallSig = k
      · rw [if_pos hall] at hgoes
        rw [if_pos (congrArg Nat.succ hall)]
        refine ⟨hmem.trans hgoes.mem, hreceipts.trans hgoes.receipts, fun link hlt => ?_⟩
        rcases Nat.lt_succ_iff_lt_or_eq.mp hlt with hbelow | heq
        · exact hgoes.ready link hbelow
        · rw [← hgoes.traffic_eq, show link = ⟨k, hk⟩ from Fin.ext heq]
          exact hready
      · rw [if_neg hall] at hgoes
        rw [if_neg fun h => hall (Nat.succ_injective h)]
        exact ⟨hentries.trans_lt hgoes.entries, hremaining.trans_lt hgoes.remaining⟩
    | false =>
      refine .ok ⟨hmoves.trans hturn, hle.trans (Nat.le_succ k), ?_⟩
      change if stallSig = k + 1 then _ else _
      rw [if_neg (by omega)]
      have htook : Took a r' r'' := hlink
      exact ⟨htook.entries.trans_le hmoves.entries, htook.remaining.trans_le hmoves.takes.remaining⟩
  · refine ⟨.refl h hroom, le_rfl, ?_⟩
    rw [if_pos rfl]
    exact ⟨rfl, rfl, fun _ hlt => absurd hlt (Nat.not_lt_zero _)⟩

/-- **The passes** come to an end. -/
theorem recvAll_unaffected (htakes : Takes bad sim notify R) {r : Receiving c}
    (h : Linked regs R r.mem (r.history a)) (hroom : maxUqPacket ≤ r.packet.length) :
    Unaffected bad (fun missing => recvAll missing notify sim r) (Moves regs R a r) := by
  unfold HMCMem.recvAll
  refine Unaffected.doWhile (I := Moves regs R a r) (μ := fun r' => r'.mem.callback.length) (fun r' hr' => ?_)
    (.refl h hroom) (Nat.lt_succ_self _)
  refine (recvLinks_unaffected htakes hr'.linked hr'.room).bind fun p hp => .ok ?_
  obtain ⟨stallSig, r''⟩ := p
  obtain ⟨hmoves, hgoes⟩ := hp
  dsimp only at hgoes
  by_cases hall : stallSig = c.numLinks
  · rw [if_neg (by simpa using hall)]
    exact hr'.trans hmoves
  · rw [if_neg hall] at hgoes
    rw [if_pos (by simpa using hall)]
    exact ⟨hr'.trans hmoves, hgoes.entries⟩

/-! ### Steps -/

theorem append_nothing (a : Activity) : a.append {} = a := by
  unfold Activity.append
  rw [List.append_nil, List.append_nil]

theorem append_received (a : Activity) (sent : List (List UInt64 × Entry)) (receipts : List Receipt) :
    (a.append ⟨sent, []⟩).append ⟨[], receipts⟩ = a.append ⟨sent, receipts⟩ := by
  unfold Activity.append
  rw [List.append_nil, List.append_nil]

/-- The loops begin with nothing received. -/
theorem Receiving.history_start (a : Activity) (m : HMCMem c) (packet : List UInt64) :
    Receiving.history a { mem := m, packet := packet : Receiving c } = a := append_nothing a

/-- The entries stay those of the cubes when the cubes go on. -/
theorem Linked.next (h : Linked regs R m a) {hmc : HMCSim c} (htracked : (traffic hmc a).Tracked regs False)
    (hhosts : hmc.hosts = m.hmc.hosts) : Linked regs R { m with hmc } a :=
  { h with
    tracked := htracked
    hosts := fun dev link => by
      rw [hhosts]
      exact h.hosts dev link }

/-- **A clock** keeps the entries. -/
theorem Linked.clock (h : Linked regs R m a) (hroot : ∀ dev, w.isRoot dev = true) :
    Ensures bad (m.clock w) fun m' => Linked regs R m' a := by
  obtain ⟨N, hsteps, hwords, hnumber, hsettled⟩ := id h.tracked
  unfold HMCMem.clock
  refine ((hsettled.clock False.elim hroot).and (HMCSim.clock_hosts m.hmc hroot).1).bind
    fun hmc ⟨hclock, hhosts⟩ => ensures_ok ?_
  exact h.next ⟨N, hsteps, hwords, hnumber, hclock.1⟩ hhosts

/-- **The end of a step** keeps the entries, and looks up none that is missing. -/
theorem serve_unaffected (h : Linked regs R m a) (hregs : ∀ dev, 64 ≤ maxBlocksize (regs dev))
    (hroot : ∀ dev, w.isRoot dev = true) (hbusy : Takes bad sim busyReceive R)
    (hidle : Takes bad sim idleReceive R) (htag : m.transationQueue ≠ [] → m.tag.toNat < 1024) :
    Unaffected bad (fun missing => serve missing sim w m) fun p => Linked regs R p.1 (a.append p.2) := by
  unfold HMCMem.serve
  cases hqueue : m.transationQueue with
  | nil =>
    dsimp only
    have hstart : Linked regs R m (Receiving.history a { mem := m, packet := zeroPacket : Receiving c }) := by
      rw [Receiving.history_start]
      exact h
    refine (recvLinks_unaffected (r := { mem := m, packet := zeroPacket }) hidle hstart length_zeroPacket).bind
      fun p hp => ?_
    exact .of_ensures ((hp.1.linked.clock hroot).bind fun m' hm' => ensures_ok hm')
  | cons req rest =>
    dsimp only
    have hlt : m.tag.toNat < 1024 := htag (by rw [hqueue]; exact List.cons_ne_nil req rest)
    obtain ⟨status, hmc, hsend⟩ := send_packetOf m.hmc req.address m.tag (rqstOf req.memtype)
    simp only [hsend, Outcome.ok_bind]
    by_cases hstatus : status = 0
    · subst hstatus
      simp only [if_true, UInt32.add_sub_cancel]
      have hsent := h.send hregs hlt hqueue hsend
      rw [← Receiving.history_start (a.append _) _ (sentOf req m.tag).1] at hsent
      refine (recvAll_unaffected (r := { mem := _, packet := (sentOf req m.tag).1 }) hbusy hsent
        (length_packetOf _ _).ge).bind fun r hr => ?_
      refine .of_ensures ((hr.linked.clock hroot).bind fun m' hm' => ensures_ok ?_)
      unfold Receiving.history at hm'
      rw [append_received] at hm'
      exact hm'
    · simp only [if_neg hstatus]
      rcases HMCSim.send_cases hsend with ⟨-, hsame⟩ | ⟨hzero, -⟩
      · have hcount := h.count hlt hsame
        rw [hqueue] at hcount
        refine .of_ensures ((hcount.clock hroot).bind fun m' hm' => ensures_ok ?_)
        rw [append_nothing]
        exact hm'
      · exact absurd hzero hstatus

/-- The requests that a step finds have numbers that fit the tag of a response. -/
def Fits (m : HMCMem c) (arriving : List MemRequest) : Prop :=
  m.transationQueue ++ arriving ≠ [] → m.tag.toNat < 1024

instance (m : HMCMem c) (arriving : List MemRequest) : Decidable (m.Fits arriving) :=
  inferInstanceAs (Decidable (_ → _))

/-- **A step** keeps the entries, and looks up none that is missing. -/
theorem stepWith_unaffected (h : Linked regs (fun _ => True) m a) (hregs : ∀ dev, 64 ≤ maxBlocksize (regs dev))
    (hroot : ∀ dev, w.isRoot dev = true) {arriving : List MemRequest} (hfits : m.Fits arriving) :
    Unaffected (fun _ => False) (fun missing => stepWith missing sim w m arriving) fun p =>
      Linked regs (fun _ => True) p.1 (a.append p.2) := by
  have htakes (notify : Notify) : Takes (fun _ => False) sim notify fun _ => True :=
    fun _ _ => ⟨fun _ _ => trivial, fun _ _ => id⟩
  -- The merge finds a request only when one waits or arrives.
  have hmerge : Yields (mergeSame (m.transationQueue ++ arriving)) fun queue =>
      queue ≠ [] → m.tag.toNat < 1024 := by
    refine yields_iff.mpr fun queue hqueue hne => hfits fun hnil => ?_
    rw [hnil] at hqueue
    cases hqueue
    exact hne rfl
  unfold HMCMem.stepWith
  refine (Unaffected.of_ensures hmerge).bind fun queue hqueue => ?_
  have hlinked : Linked regs (fun _ => True) { m with transationQueue := queue } a :=
    { h with queue := fun _ _ => trivial }
  exact serve_unaffected hlinked hregs hroot (htakes _) (htakes _) hqueue

/-! ### Runs -/

/-- `Step`, with the activity so far. -/
def logged (sim : Simulator) (w : Wiring c) (s : HMCMem c × Activity) (arriving : List MemRequest) :
    Outcome (HMCMem c × Activity) := do
  let (m, a) ← s.1.step sim w arriving
  return (m, s.2.append a)

/-- All links lead to the host. -/
structure LeadToHost (l : Links c) : Prop where
  src : ∀ dev link, l.srcCub dev link = c.numDevs + 1
  type : ∀ dev link, l.type dev link = .hostDev

/-- A link of the host is one more. -/
theorem config_host {l : Links c} (hl : LeadToHost l) {dest link : ℕ} :
    Yields (l.config (c.numDevs + 1) dest link link .hostDev) fun p => LeadToHost p.2 := by
  have hset (hd : dest < c.numDevs) (hk : link < c.numLinks) :
      LeadToHost (l.set ⟨dest, hd⟩ ⟨link, hk⟩ (c.numDevs + 1) dest .hostDev) := by
    refine ⟨fun d k => ?_, fun d k => ?_⟩
    · change (if _ then _ else _) = _
      split_ifs
      · rfl
      · exact hl.src d k
    · change (if _ then _ else _) = _
      split_ifs
      · rfl
      · exact hl.type d k
  unfold Links.config
  split_ifs
  all_goals first
    | exact ensures_ok hl
    | exact ensures_ok (hset _ _)

theorem leadToHost_links (c : Cube) : Yields (links c) LeadToHost := by
  have hinit : LeadToHost (Links.init c) := ⟨fun _ _ => rfl, fun _ _ => rfl⟩
  unfold HMCMem.links
  by_cases hdevs : 1 < c.numDevs
  · rw [if_pos hdevs]
    exact ensures_ok hinit
  · rw [if_neg hdevs]
    refine foldlM_ensures (fun l i _ hl => ?_) hinit
    refine (config_host hl).bind fun p hp => ?_
    obtain ⟨status, l⟩ := p
    dsimp only
    by_cases hstatus : status = 0
    · rw [if_neg (not_not_intro hstatus)]
      exact ensures_ok hp
    · rw [if_pos hstatus]
      exact ensures_error False.elim

theorem linked_make {cmcs : Vector HmcCmc maxCmc} {bsize : ℕ} (hmake : make c cmcs bsize = .ok (w, m)) :
    Linked (fun _ => setAllMaxBlocksize 0 bsize) (fun _ => True) m {} ∧ ∀ dev, w.isRoot dev = true := by
  obtain ⟨l, hlinks, hpair⟩ := Outcome.bind_eq_ok.mp hmake
  cases hpair
  have hhost := yields_iff.mp (leadToHost_links c) l hlinks
  refine ⟨{
    tracked := Traffic.tracked_start l.hostLinks cmcs
    hosts := fun dev link => ?_
    sent := fun _ hp => absurd hp List.not_mem_nil
    numbers := List.nodup_nil
    fresh := fun _ hp => absurd hp List.not_mem_nil
    found := fun _ hr => absurd hr List.not_mem_nil
    waiting := fun e => iff_of_false List.not_mem_nil fun h => absurd h.1 List.not_mem_nil
    nodup := List.nodup_nil
    queue := fun _ _ => trivial }, fun dev => ?_⟩
  · have hlink : (l.hostLinks dev).get link = decide (l.type dev link = .hostDev) :=
      Vector.getElem_ofFn (f := fun link : Fin c.numLinks => decide (l.type dev link = .hostDev)) link.isLt
    have hdev : (Traffic.start l.hostLinks (fun _ => setAllMaxBlocksize 0 bsize) cmcs).sim.hosts dev =
        l.hostLinks dev := congrArg HmcDev.hostLinks (Vector.getElem_ofFn dev.isLt)
    rw [hdev, hlink]
    exact decide_eq_true (hhost.type dev link)
  · have hpos : 0 < c.numLinks := by
      rcases c.numLinks_eq with h | h <;> rw [h] <;> decide
    exact List.any_eq_true.mpr ⟨⟨0, hpos⟩, List.mem_finRange _, decide_eq_true (hhost.src dev _)⟩

/-- **Every response has been matched**: those of each link, in the order of their arrival, with the entries
of the very requests that they answer. The other entries wait. -/
structure Matched (m : HMCMem c) (a : Activity) (N : Network (Place c) (Sent c regs)) : Prop where
  accounts : (traffic m.hmc a).Accounts N
  links : ∀ r ∈ a.receipts, r.link < c.numLinks
  entries : ∀ link : Fin c.numLinks, List.Forall₂ (fun r x => a.sent[x.number]?.map Prod.snd = some r.entry)
    (a.receipts.filter fun r => r.link = link.val) (N.items (.received ⟨0, c.numDevs_le.1⟩ link))
  waiting : ∀ e, e ∈ m.callback ↔ e ∈ a.sent.map Prod.snd ∧ ∀ r ∈ a.receipts, r.entry ≠ e

theorem Linked.matched (h : Linked regs R m a) :
    ∃ N : Network (Place c) (Sent c regs), Matched m a N := by
  obtain ⟨N, -, hN⟩ := h.tracked.accounts
  refine ⟨N, hN, fun r hr => (h.found r hr).1, fun link => ?_, h.waiting⟩
  have hshown : (traffic m.hmc a).received ⟨0, c.numDevs_le.1⟩ link = _ :=
    hN.shown (.received ⟨0, c.numDevs_le.1⟩ link)
  have hreceipts : (a.receipts.filter fun r => r.link = link.val).map (fun r => arrayOf r.packet) =
      (N.items (.received ⟨0, c.numDevs_le.1⟩ link)).map Sent.answer := by
    rw [show List.map Sent.answer _ = _ from hshown.symm]
    unfold traffic
    simp only [true_and]
  have hpairs : List.Forall₂ (fun r x => arrayOf r.packet = x.answer)
      (a.receipts.filter fun r => r.link = link.val) (N.items (.received ⟨0, c.numDevs_le.1⟩ link)) := by
    rw [← List.forall₂_eq_eq_eq, List.forall₂_map_left_iff, List.forall₂_map_right_iff] at hreceipts
    exact hreceipts
  refine (List.forall₂_iff_get.mpr ⟨hpairs.length_eq, fun i hi hi' => ?_⟩)
  have hanswer := hpairs.get hi hi'
  have hr := (List.mem_filter.mp (List.get_mem _ ⟨i, hi⟩)).1
  have hx := hN.accepted _ _ (List.get_mem _ ⟨i, hi'⟩)
  obtain ⟨p, hp, hat, -, htag⟩ := h.tag_answer rfl hN hx hanswer
  obtain ⟨-, hentry, hrtag⟩ := h.found _ hr
  obtain ⟨q, hq, hqe⟩ := List.mem_map.mp hentry
  have hkeys : q.2.1 = p.2.1 := by rw [hqe, ← hrtag, htag]
  have hsame : q = p := List.inj_on_of_nodup_map h.numbers hq hp hkeys
  rw [hat, Option.map_some, ← hsame, hqe]

/-- **In every run** whose numbers fit, the entries are those of the requests in the cubes. -/
theorem linked_of_exec {cmcs : Vector HmcCmc maxCmc} {bsize : ℕ} {m₀ : HMCMem c}
    (hmake : make c cmcs bsize = .ok (w, m₀)) (hbsize : 64 ≤ maxBlocksize (setAllMaxBlocksize 0 bsize))
    {arrivals : List (List MemRequest)}
    (hfits : Along (logged sim w) (fun s arriving => s.1.Fits arriving) (m₀, {}) arrivals)
    (hexec : exec (logged sim w) (m₀, {}) arrivals = .ok (m, a)) :
    Linked (fun _ => setAllMaxBlocksize 0 bsize) (fun _ => True) m a := by
  obtain ⟨hstart, hroot⟩ := linked_make hmake
  refine exec_along (I := fun s : HMCMem c × Activity =>
    Linked (fun _ => setAllMaxBlocksize 0 bsize) (fun _ => True) s.1 s.2) ?_ hstart hfits hexec
  rintro ⟨m, a⟩ arriving s' hm hfit hstep
  obtain ⟨⟨m', a'⟩, hinner, hpair⟩ := Outcome.bind_eq_ok.mp hstep
  cases hpair
  exact ((stepWith_unaffected hm (fun _ => hbsize) hroot hfit).ensures _).1 _ hinner

/-- **Responses are matched** as long as no request is sent with a number of more than ten bits. -/
theorem responses_matched {cmcs : Vector HmcCmc maxCmc} {bsize : ℕ} {m₀ : HMCMem c}
    (hmake : make c cmcs bsize = .ok (w, m₀)) (hbsize : 64 ≤ maxBlocksize (setAllMaxBlocksize 0 bsize))
    {arrivals : List (List MemRequest)}
    (hfits : Along (logged sim w) (fun s arriving => s.1.Fits arriving) (m₀, {}) arrivals)
    (hexec : exec (logged sim w) (m₀, {}) arrivals = .ok (m, a)) :
    (∃ N : Network (Place c) (Sent c fun _ => setAllMaxBlocksize 0 bsize), Matched m a N) ∧
      ∀ arriving, m.Fits arriving → ∀ missing, m.stepWith missing sim w arriving = m.step sim w arriving := by
  have hlinked := linked_of_exec hmake hbsize hfits hexec
  exact ⟨hlinked.matched, fun arriving hfit missing =>
    (stepWith_unaffected hlinked (fun _ => hbsize) (linked_make hmake).2 hfit).same missing _⟩

/-- One host processor, which reads the first block. -/
def readingHost : Simulator := ⟨.processors, [0], []⟩

def firstRead : MemRequest := { address := 0, blockAddr := 0, memtype := .read, pid := [0] }

/-- The memory object of a cube with four links and blocks of 64 bytes. -/
def smallCube : Outcome (Wiring fourLinks × HMCMem fourLinks) := make fourLinks (Vector.replicate _ {}) 64

/-- Two reads of the first block, a read of another block in between, and three steps without a
request. -/
def threeReads : List (List MemRequest) :=
  [[firstRead], [{ firstRead with address := 64, blockAddr := 1 }], [firstRead], [], [], []]

/-- The reads are answered one after the other. -/
theorem exec_threeReads :
    (smallCube.toOption.bind fun p => (exec (logged readingHost p.1) (p.2, {}) threeReads).toOption.map fun s =>
      (s.2.receipts.map fun r => (r.link, r.entry.1, r.notices.length), s.1.callback.length)) =
        some ([(0, 0, 1), (0, 1, 1), (0, 2, 1)], 0) := by
  decide +kernel

theorem fits_threeReads :
    (smallCube.toOption.map fun p => decide (Along (logged readingHost p.1) (fun s arriving => s.1.Fits arriving)
      (p.2, {}) threeReads)) = some true := by
  decide +kernel

theorem responses_matched_threeReads :
    ∃ (w : Wiring fourLinks) (m₀ m : HMCMem fourLinks) (a : Activity)
      (N : Network (Place fourLinks) (Sent fourLinks fun _ => setAllMaxBlocksize 0 64)),
      smallCube = .ok (w, m₀) ∧ exec (logged readingHost w) (m₀, {}) threeReads = .ok (m, a) ∧
        a.receipts.length = 3 ∧ Matched m a N := by
  have hrun := exec_threeReads
  have hfits := fits_threeReads
  cases hmake : smallCube with
  | error f =>
    rw [hmake] at hfits
    cases hfits
  | ok p =>
    obtain ⟨w, m₀⟩ := p
    rw [hmake] at hrun hfits
    have halong := of_decide_eq_true (Option.some.inj hfits)
    change (exec (logged readingHost w) (m₀, {}) threeReads).toOption.map _ = _ at hrun
    cases hexec : exec (logged readingHost w) (m₀, {}) threeReads with
    | error f =>
      rw [hexec] at hrun
      cases hrun
    | ok s =>
      obtain ⟨m, a⟩ := s
      rw [hexec] at hrun
      obtain ⟨hreceipts, -⟩ := Prod.mk.inj (Option.some.inj hrun)
      have hlength := congrArg List.length hreceipts
      rw [List.length_map] at hlength
      obtain ⟨⟨N, hmatched⟩, -⟩ := responses_matched hmake (by decide) halong hexec
      exact ⟨w, m₀, m, a, N, rfl, hexec, hlength, hmatched⟩

end HMCMem

end PIMSim
