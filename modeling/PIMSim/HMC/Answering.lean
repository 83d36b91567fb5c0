import PIMSim.HMC.Matching

/-!
# Every request of the memory object is answered

A step without a request looks at each link once, and lets the cubes go on. When it finds a response, that
one has come to the end of its way. When it finds none, the clock moves a packet or takes a cycle from a bank,
or nothing is left in the cubes. Steps without requests therefore bring the response of every request, and its
units are notified.

## Main results

* `HMCMem.Linked.idle`: a step without a request
* `HMCMem.Linked.idles`: steps without requests
* `HMCMem.Linked.callback_eq_nil`: with nothing left in the cubes no entry waits
* `HMCMem.entries_answered`: runs
-/

namespace PIMSim

open CSharp HMC Transition

variable {c : Cube}

namespace HMCMem

variable {regs : Registers c} {R : MemRequest → Prop} {m m' : HMCMem c} {a a' : Activity} {sim : Simulator}
  {w : Wiring c}

/-! ### A step without a request -/

/-- The requests go to the first device. -/
theorem cub_eq {hmc : HMCSim c} (hsent : ∀ p ∈ a.sent, ∃ req tag, p = sentOf req tag)
    {N : Network (Place c) (Sent c regs)} (hN : (traffic hmc a).Accounts N) {x : Sent c regs}
    (hx : x ∈ N.accepted) : x.dev = ⟨0, c.numDevs_le.1⟩ := by
  obtain ⟨p, hp, hslot, -⟩ := sent_of_mem rfl hN hx
  obtain ⟨req, tag, rfl⟩ := hsent p (List.mem_of_getElem? hp)
  refine Fin.ext ?_
  rw [← x.cub, hslot]
  unfold sentOf
  rw [requestOf_packetOf]
  exact buildMemrequest_cub _ _ _

/-- No response waits in the other devices. -/
theorem ready_far {hmc : HMCSim c} (hsent : ∀ p ∈ a.sent, ∃ req tag, p = sentOf req tag)
    (htracked : (traffic hmc a).Tracked regs False) {dev : Fin c.numDevs} (hdev : dev ≠ ⟨0, c.numDevs_le.1⟩)
    (link : Fin c.numLinks) : (traffic hmc a).ready dev link = [] := by
  obtain ⟨N, -, hN⟩ := htracked.accounts
  by_contra hready
  have hitems : N.items (.xbarRsp dev link) ≠ [] := by
    intro hnil
    have hshown := hN.shown (.xbarRsp dev link)
    rw [hnil] at hshown
    exact hready hshown
  obtain ⟨x, hx⟩ := List.exists_mem_of_ne_nil _ hitems
  obtain ⟨rfl, rfl⟩ := Path.xbarRsp_mem_route.mp (hN.route _ x hx)
  exact hdev (cub_eq hsent hN (hN.accepted _ x hx))

/-- **A clock behind a pass that found no response** moves a packet, or takes a cycle from a bank, or nothing
is left in the cubes. -/
theorem clock_goes {hmc : HMCSim c} (hsent : ∀ p ∈ a.sent, ∃ req tag, p = sentOf req tag)
    (htracked : (traffic hmc a).Tracked regs False) (hroot : ∀ dev, w.isRoot dev = true)
    (hready : ∀ link, (traffic hmc a).ready ⟨0, c.numDevs_le.1⟩ link = []) :
    Ensures (fun _ => True) (hmc.clock w) fun hmc' => (traffic hmc' a).Tracked regs False ∧
      hmc'.hosts = hmc.hosts ∧ ((traffic hmc' a).toGo < (traffic hmc a).toGo ∨ (traffic hmc' a).Finished) := by
  have hall : ∀ dev link, (traffic hmc a).ready dev link = [] := by
    intro dev link
    by_cases hdev : dev = ⟨0, c.numDevs_le.1⟩
    · rw [hdev]
      exact hready link
    · exact ready_far hsent htracked hdev link
  obtain ⟨N, hsteps, hwords, hnumber, hsettled⟩ := htracked
  refine (hsettled.clock_proceeds False.elim hroot hall).mono fun hmc' ⟨hclock, hhosts, hgoes⟩ =>
    ⟨⟨N, hsteps, hwords, hnumber, hclock⟩, hhosts, ?_⟩
  rcases hgoes with hlt | ⟨hshown, hlt | hfinished⟩
  · exact Or.inl (Prod.Lex.toLex_lt_toLex.mpr (Or.inl hlt))
  · exact Or.inl (Prod.Lex.toLex_lt_toLex.mpr (Or.inr ⟨HMCSim.remaining_congr hshown, hlt⟩))
  · exact Or.inr fun p hp => hfinished p (hshown ▸ hp)

/-- A clock changes the cubes. -/
theorem clock_mem {bad : Fault → Prop} {Q : HMCSim c → Prop} (h : Ensures bad (m.hmc.clock w) Q) :
    Ensures bad (m.clock w) fun m' => ∃ hmc, m' = { m with hmc } ∧ Q hmc :=
  h.bind fun hmc hQ => ensures_ok ⟨hmc, rfl, hQ⟩

theorem Linked.sentOf_of_mem (h : Linked regs R m a) : ∀ p ∈ a.sent, ∃ req tag, p = sentOf req tag := by
  intro p hp
  obtain ⟨req, tag, hpair, -⟩ := h.sent p hp
  exact ⟨req, tag, hpair⟩

/-- **A clock** brings no packet back. -/
theorem Linked.clock_le (h : Linked regs R m a) (hroot : ∀ dev, w.isRoot dev = true) :
    Ensures (fun _ => True) (m.clock w) fun m' => ∃ hmc, m' = { m with hmc } ∧ Linked regs R { m with hmc } a ∧
      (traffic hmc a).toGo.1 ≤ (traffic m.hmc a).toGo.1 := by
  obtain ⟨N, hsteps, hwords, hnumber, hsettled⟩ := id h.tracked
  obtain ⟨M, hM, hfollows⟩ := hsettled.follows.rebase
  have hbase : m.hmc.Settled False (traffic m.hmc a).received M := { hsettled with follows := hfollows }
  have hclock : Ensures (fun _ => True) (m.hmc.clock w) _ := hbase.clock False.elim hroot
  refine clock_mem ((((hsettled.clock False.elim hroot).and (HMCSim.clock_hosts m.hmc hroot).1).and
    hclock.1).mono fun hmc ⟨⟨hkept, hhosts⟩, hproceeds⟩ => ⟨?_, ?_⟩)
  · exact h.next ⟨N, hsteps, hwords, hnumber, hkept.1⟩ hhosts
  · exact HMCSim.Proceeds.le (hproceeds.1.follows.proceeds hM)

/-- A step without a request looks at each link once. -/
theorem stepWith_nil (hqueue : m.transationQueue = []) {missing : Fault} :
    m.stepWith missing sim w [] = (do
      let (_, r) ← recvLinks missing idleReceive sim { mem := m, packet := zeroPacket }
      return (← r.mem.clock w, ⟨[], r.receipts⟩)) := by
  obtain ⟨hmc, tag, callback, queue⟩ := m
  cases hqueue
  rfl

/-- **A step without a request** brings the packets closer to their requesters. -/
theorem Linked.idle (h : Linked regs R m a) (hqueue : m.transationQueue = []) (hroot : ∀ dev, w.isRoot dev = true)
    (hidle : Takes (fun _ => True) sim idleReceive R) :
    Ensures (fun _ => True) (m.step sim w []) fun p => Linked regs R p.1 (a.append p.2) ∧
      p.1.transationQueue = [] ∧ p.1.tag = m.tag ∧ p.2.sent = [] ∧
        ((traffic p.1.hmc (a.append p.2)).toGo < (traffic m.hmc a).toGo ∨
          (traffic p.1.hmc (a.append p.2)).Finished) := by
  have hstart : Linked regs R m (Receiving.history a { mem := m, packet := zeroPacket : Receiving c }) := by
    rw [Receiving.history_start]
    exact h
  have hbegin : (Receiving.traffic a { mem := m, packet := zeroPacket : Receiving c }) = traffic m.hmc a := by
    unfold Receiving.traffic
    rw [Receiving.history_start]
  unfold HMCMem.step
  rw [stepWith_nil hqueue]
  refine ((recvLinks_unaffected (r := { mem := m, packet := zeroPacket }) hidle hstart
    length_zeroPacket).ensures _).bind fun p hp => ?_
  obtain ⟨stallSig, r⟩ := p
  obtain ⟨hmoves, hgoes⟩ := hp
  dsimp only at hgoes ⊢
  by_cases hall : stallSig = c.numLinks
  · rw [if_pos hall] at hgoes
    have hready : ∀ link, (traffic r.mem.hmc (r.history a)).ready ⟨0, c.numDevs_le.1⟩ link = [] := by
      intro link
      change (r.traffic a).ready _ _ = _
      rw [hgoes.traffic_eq]
      exact hgoes.ready link link.isLt
    refine (clock_mem (clock_goes hmoves.linked.sentOf_of_mem hmoves.linked.tracked hroot hready)).bind
      fun m' hm' => ensures_ok ?_
    obtain ⟨hmc, rfl, htracked, hhosts, hless⟩ := hm'
    refine ⟨hmoves.linked.next htracked hhosts, hmoves.queue.trans hqueue, hmoves.tag, rfl, ?_⟩
    rw [← hbegin, ← hgoes.traffic_eq]
    exact hless
  · rw [if_neg hall] at hgoes
    refine (hmoves.linked.clock_le hroot).bind fun m' hm' => ensures_ok ?_
    obtain ⟨hmc, rfl, hlinked, hle⟩ := hm'
    refine ⟨hlinked, hmoves.queue.trans hqueue, hmoves.tag, rfl, Or.inl ?_⟩
    have hless := hle.trans_lt hgoes.remaining
    rw [hbegin] at hless
    exact Prod.Lex.toLex_lt_toLex.mpr (Or.inl hless)

/-- **Steps without requests** come to an end. -/
theorem Linked.idles (h : Linked regs R m a) (hqueue : m.transationQueue = []) (hroot : ∀ dev, w.isRoot dev = true)
    (hidle : Takes (fun _ => True) sim idleReceive R) :
    ∃ n m' a', exec (logged sim w) (m, a) (List.replicate n []) = .ok (m', a') ∧ Linked regs R m' a' ∧
      m'.transationQueue = [] ∧ m'.tag = m.tag ∧ a'.sent = a.sent ∧ (traffic m'.hmc a').Finished := by
  obtain ⟨k, hk⟩ : ∃ k, (traffic m.hmc a).toGo = k := ⟨_, rfl⟩
  induction k using WellFoundedLT.induction generalizing m a with
  | ind k ih =>
    have hstep := h.idle hqueue hroot hidle
    cases hrun : m.step sim w [] with
    | error f => exact absurd trivial (hstep.2 f hrun)
    | ok p =>
      obtain ⟨m₁, a₁⟩ := p
      obtain ⟨h₁, hqueue₁, htag₁, hsent₁, hgoes⟩ := hstep.1 _ hrun
      have hlogged : logged sim w (m, a) [] = .ok (m₁, a.append a₁) := by
        unfold logged
        rw [hrun]
        rfl
      have hsent : (a.append a₁).sent = a.sent := by
        change a.sent ++ a₁.sent = _
        rw [hsent₁, List.append_nil]
      rcases hgoes with hlt | hfinished
      · obtain ⟨n, m', a', hexec, h', hqueue', htag', hsent', hfinished⟩ :=
          ih _ (hk ▸ hlt) h₁ hqueue₁ rfl
        refine ⟨n + 1, m', a', ?_, h', hqueue', htag'.trans htag₁, hsent'.trans hsent, hfinished⟩
        rw [List.replicate_succ]
        exact exec_cons_eq_ok.mpr ⟨_, hlogged, hexec⟩
      · refine ⟨1, m₁, a.append a₁, ?_, h₁, hqueue₁, htag₁, hsent, hfinished⟩
        exact exec_cons_eq_ok.mpr ⟨_, hlogged, rfl⟩

/-- **With nothing left in the cubes** no entry waits. -/
theorem Linked.callback_eq_nil (h : Linked regs R m a) (hfinished : (traffic m.hmc a).Finished) :
    m.callback = [] := by
  obtain ⟨N, hmatched⟩ := h.matched
  have hN := hmatched.accounts
  rw [List.eq_nil_iff_forall_not_mem]
  intro e he
  obtain ⟨hmem, hnone⟩ := (h.waiting e).mp he
  obtain ⟨p, hp, rfl⟩ := List.mem_map.mp hmem
  obtain ⟨i, hi, hat⟩ := List.mem_iff_getElem.mp hp
  -- The request of the entry is an accepted one, which has been received.
  have hlength : N.accepted.length = a.sent.length := by
    have hwords := congrArg List.length hN.words
    rw [List.length_map] at hwords
    exact hwords.trans (List.length_map _)
  have hlt : i < N.accepted.length := hi.trans_eq hlength.symm
  have hx := List.getElem_mem hlt
  have hnumber : N.accepted[i].number = i := by
    have hlist := congrArg (fun l => l[i]?) hN.number
    simp only [List.getElem?_map, List.getElem?_eq_getElem hlt, Option.map_some] at hlist
    obtain ⟨hrange, hvalue⟩ := List.getElem?_eq_some_iff.mp hlist.symm
    rw [List.getElem_range hrange] at hvalue
    exact hvalue.symm
  obtain ⟨q, hq, -⟩ := hN.once _ hx
  have hshown : (traffic m.hmc a).sim.shown (traffic m.hmc a).received q ≠ [] := by
    rw [hN.shown q]
    exact List.ne_nil_of_mem (List.mem_map_of_mem hq)
  obtain ⟨dev, link, rfl⟩ := hfinished q hshown
  have hdev : dev = ⟨0, c.numDevs_le.1⟩ := by
    obtain ⟨hd, -⟩ := Path.received_mem_route.mp (hN.route _ _ hq)
    rw [← cub_eq h.sentOf_of_mem hN hx]
    exact hd
  subst hdev
  obtain ⟨hlengths, hentries⟩ := List.forall₂_iff_get.mp (hmatched.entries link)
  obtain ⟨j, hj, hget⟩ := List.mem_iff_getElem.mp hq
  have hentry := hentries j (hlengths.symm ▸ hj) hj
  rw [List.get_eq_getElem, List.get_eq_getElem, hget, hnumber, List.getElem?_eq_getElem hi, hat] at hentry
  have hr := List.getElem_mem (hlengths.symm ▸ hj : j < _)
  exact hnone _ (List.mem_filter.mp hr).1 (Option.some.inj hentry).symm

/-! ### Runs -/

/-- **Every request that has been sent is answered** when no more come, as long as the units that wait take
the responses. -/
theorem entries_answered {cmcs : Vector HmcCmc maxCmc} {bsize : ℕ} {m₀ : HMCMem c}
    (hmake : make c cmcs bsize = .ok (w, m₀)) (hbsize : 64 ≤ maxBlocksize (setAllMaxBlocksize 0 bsize))
    {arrivals : List (List MemRequest)}
    (hfits : Along (logged sim w) (fun s arriving => s.1.Fits arriving) (m₀, {}) arrivals)
    (hexec : exec (logged sim w) (m₀, {}) arrivals = .ok (m, a)) (hqueue : m.transationQueue = [])
    (hunits : ∀ req tag, sentOf req tag ∈ a.sent →
      ∃ notices, idleReceive sim (responseTo req.memtype) (System.callBackInfo req) = .ok notices) :
    ∃ n m' a', exec (logged sim w) (m, a) (List.replicate n []) = .ok (m', a') ∧ a'.sent = a.sent ∧
      m'.callback = [] ∧ (∀ e ∈ a.sent.map Prod.snd, ∃ r ∈ a'.receipts, r.entry = e) ∧
        ∃ N : Network (Place c) (Sent c fun _ => setAllMaxBlocksize 0 bsize), Matched m' a' N := by
  let R : MemRequest → Prop := fun req =>
    ∃ notices, idleReceive sim (responseTo req.memtype) (System.callBackInfo req) = .ok notices
  have htakes : Takes (fun _ => True) sim idleReceive R := by
    rintro req ⟨notices, hnotices⟩
    unfold Harmless
    rw [hnotices]
    exact ensures_ok trivial
  have hany := linked_of_exec hmake hbsize hfits hexec
  have hlinked : Linked (fun _ => setAllMaxBlocksize 0 bsize) R m a := by
    refine { hany with
      sent := fun p hp => ?_
      queue := fun req hreq => absurd (hqueue ▸ hreq) List.not_mem_nil }
    obtain ⟨req, tag, rfl, htag, -⟩ := hany.sent p hp
    exact ⟨req, tag, rfl, htag, hunits req tag hp⟩
  obtain ⟨n, m', a', hidle, hlinked', -, -, hsent, hfinished⟩ :=
    hlinked.idles hqueue (linked_make hmake).2 htakes
  have hempty := hlinked'.callback_eq_nil hfinished
  refine ⟨n, m', a', hidle, hsent, hempty, fun e he => ?_, hlinked'.matched⟩
  by_contra hnone
  have hwaiting : e ∈ m'.callback :=
    (hlinked'.waiting e).mpr ⟨hsent ▸ he, fun r hr heq => hnone ⟨r, hr, heq⟩⟩
  rw [hempty] at hwaiting
  exact List.not_mem_nil hwaiting

/-- A read that has just been sent. -/
def readSent : List (List MemRequest) := [[firstRead]]

theorem exec_readSent :
    (smallCube.toOption.bind fun p => (exec (logged readingHost p.1) (p.2, {}) readSent).toOption.map fun s =>
      (s.2.sent, s.1.transationQueue)) = some ([sentOf firstRead 0], []) := by
  decide +kernel

theorem entries_answered_readSent :
    ∃ (w : Wiring fourLinks) (m₀ m m' : HMCMem fourLinks) (a a' : Activity) (n : ℕ),
      smallCube = .ok (w, m₀) ∧ exec (logged readingHost w) (m₀, {}) readSent = .ok (m, a) ∧
        exec (logged readingHost w) (m, a) (List.replicate n []) = .ok (m', a') ∧
          ∃ r ∈ a'.receipts, r.entry = (sentOf firstRead 0).2 := by
  have hrun := exec_readSent
  cases hmake : smallCube with
  | error f =>
    rw [hmake] at hrun
    cases hrun
  | ok p =>
    obtain ⟨w, m₀⟩ := p
    rw [hmake] at hrun
    change (exec (logged readingHost w) (m₀, {}) readSent).toOption.map _ = _ at hrun
    cases hexec : exec (logged readingHost w) (m₀, {}) readSent with
    | error f =>
      rw [hexec] at hrun
      cases hrun
    | ok s =>
      obtain ⟨m, a⟩ := s
      rw [hexec] at hrun
      obtain ⟨hsent, hqueue⟩ := Prod.mk.inj (Option.some.inj hrun)
      have hfits : Along (logged readingHost w) (fun s arriving => s.1.Fits arriving) (m₀, {}) readSent := by
        refine ⟨fun _ => ?_, fun _ _ => trivial⟩
        obtain ⟨l, -, hpair⟩ := Outcome.bind_eq_ok.mp hmake
        cases hpair
        change (0 : UInt32).toNat < 1024
        decide
      obtain ⟨n, m', a', hidle, -, -, hanswered, -⟩ := entries_answered hmake (by decide) hfits hexec hqueue (by
        intro req tag hmem
        rw [hsent, List.mem_singleton] at hmem
        obtain ⟨-, hentry⟩ := Prod.mk.inj hmem
        rw [(Prod.mk.inj hentry).2]
        cases req.memtype <;> exact ⟨_, rfl⟩)
      refine ⟨w, m₀, m, m', a, a', n, rfl, hexec, hidle, hanswered _ ?_⟩
      rw [hsent]
      exact List.mem_singleton_self _

end HMCMem

end PIMSim
