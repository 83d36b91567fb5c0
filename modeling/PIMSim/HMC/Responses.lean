import PIMSim.HMC.ProcessRqst

/-!
# The responses of a vault

A request that is served has a response in its bank, which carries the request's tag and link. The tag
has eleven bits, and a response has ten bits for it. A refused command, an unknown one and a custom one
have no response at all: the first two stop the simulator, and the last one is left in its slot.

What the caller decodes from a response are the fields of the request's tail, up to a bit of the pointer
that the request returns, and up to the error status, whose variable is not written.

## Main definitions

* `Posted`: the commands without a response
* `Responds`: the words of a response to a request
* `Vault.Handled`, `Vault.Busy`: the service stalls or ends right, and the bank of a request works
* `Serviceable`: the requests that are served

## Main results

* `Vault.handled_iff`: a request is handled exactly when its bank works or it can be served
* `Vault.recovers_iff`: when a decoded response tells what the request and the response say
-/

namespace PIMSim.HMC

open CSharp Fields

variable {c : Cube}

/-! ### What a service should do -/

/-- The lengths of the requests that `hmcsim_send` accepts. -/
def HmcQueue.Accepted (queue : HmcQueue) : Prop := 1 ≤ queue.request.length ∧ queue.request.length ≤ 17

instance HmcQueue.Accepted.decidable (queue : HmcQueue) : Decidable queue.Accepted :=
  inferInstanceAs (Decidable (_ ∧ _))

/-- The command has no response: it is posted, or flow control. -/
def Posted (cmd : ℕ) : Prop := ∃ latency block, command cmd = some ⟨.posted latency, block⟩

/-- The words are a response to the request. -/
structure Responds (q : Request) (bsize : ℕ) (packet : Words) : Prop where
  length : 1 ≤ (field (headWord packet) 7 0x1F).toNat
  tag : field (headWord packet) 12 0x7FF = q.tag
  link : field (headWord packet) 39 0x7 = q.slid
  error : Refused bsize q.cmd → field (headWord packet) 0 0x7F = decodeRspCmd .rspError

namespace Vault

variable (addressConfig : UInt64) (v : Vault c) (q : Request)

/-- The service of a slot stalls, or it ends and the bank keeps a response to the request unless its
command has none. -/
def Handled (cmcs : Vector HmcCmc maxCmc) (slot : ℕ) : Prop :=
  ∃ code v', v.processRqst addressConfig cmcs slot = .ok (code, v') ∧
    (code = hmcStall ∨ code = 0 ∧
      (Posted q.cmd ∨ (v'.bankOf addressConfig q).valid = .valid ∧
        Responds q (maxBlocksize addressConfig) (v'.bankOf addressConfig q).packet))

/-- The bank of the request works. -/
def Busy : Prop := q.cmd ≠ 0 ∧ 0 < (v.bankOf addressConfig q).delay

end Vault

/-- What the command asks of a request: a response has ten bits for the tag. -/
def Command.Serves (e : Command) (q : Request) : Prop :=
  match e.operation with
  | .answered _ _ _ => q.tag.toNat < 1024
  | .posted _ => True
  | .custom => False

/-- The command is known, within the block size and not a custom one, and the tag fits a response. -/
def Serviceable (bsize : ℕ) (q : Request) : Prop :=
  ∃ e, command q.cmd = some e ∧ e.block ≤ bsize ∧ e.Serves q

/-! ### Runs -/

theorem maxUqPacket_pos : 0 < maxUqPacket := by decide

theorem one_lt_maxUqPacket : 1 < maxUqPacket := by decide

/-- A waiting request of one flit. -/
def waiting (q : Request) : HmcQueue where
  valid := .valid
  packet := ((Vector.replicate maxUqPacket 0).set 0 q.head maxUqPacket_pos).set 1 q.tail one_lt_maxUqPacket

/-- A vault whose banks are free, with the request in every slot. -/
def idle (q : Request) : Vault fourLinks where
  rqstQueue := Vector.replicate _ (waiting q)
  rspQueue := Vector.replicate _ .zero
  banks := Vector.replicate _ {}

/-- A read of 16 bytes with the tag five. -/
def read16 : Request := ⟨0x50B0, 0⟩

/-- A read of 64 bytes with the tag five. -/
def read64 : Request := ⟨0x50B3, 0⟩

/-- A read of 16 bytes with the tag 1024. -/
def readTagged : Request := ⟨0x4000B0, 0⟩

namespace Vault

theorem bankOf_idle (addressConfig : UInt64) (q q' : Request) :
    (idle q).bankOf addressConfig q' = {} :=
  Vector.getElem_replicate (decodeBank_lt fourLinks _ _)

/-- An idle vault answers a request of a command with a response. -/
theorem processRqst_idle {q : Request} {rspCmd : HmcResponse} {n : ℕ}
    (hcommand : command (waiting q).request.cmd = some ⟨.answered rspCmd n dramlatency, 0⟩)
    (htail : lastWord (waiting q).request.length < maxUqPacket) :
    ∃ v', (idle q).processRqst 0 (Vector.replicate _ {}) 0 = .ok (0, v') ∧
      (v'.bankOf 0 (waiting q).request).packet.toList[0]? = some ((waiting q).request.rspHead rspCmd n) ∧
      (v'.bankOf 0 (waiting q).request).packet.toList[n * 2 - 1]? = some (waiting q).request.rspTail ∧
      (v'.bankOf 0 (waiting q).request).valid = .valid := by
  have hslot : 0 < fourLinks.queueDepth := by decide
  have hqueue : (idle q).rqstQueue[0] = waiting q := Vector.getElem_replicate hslot
  have hbank := decodeBank_lt fourLinks (maxBlocksize 0) (waiting q).request.addr
  obtain ⟨hpos, hn, -, -⟩ := command_answered hcommand (by decide)
  obtain ⟨v', packet, hperform, hkept, -, hfirst, hlast⟩ :=
    perform_answered (v := idle q) (Vector.replicate _ {}) (waiting q) hbank hslot
      (operation_of_fits hcommand (Nat.zero_le (maxBlocksize 0))) hpos hn (by decide)
  have hbankOf : (v'.bankOf 0 (waiting q).request).packet = packet := congrArg HmcBank.packet hkept
  have hflow : (waiting q).request.cmd ≠ 0 := by
    intro hzero
    rw [hzero] at hcommand
    cases hcommand
  have hfree : ¬ 0 < ((idle q).bankOf 0 (waiting q).request).delay := by
    rw [bankOf_idle]
    decide
  refine ⟨v', ?_, hbankOf ▸ hfirst, hbankOf ▸ hlast, congrArg HmcBank.valid hkept⟩
  rw [processRqst_eq hslot hqueue htail, if_neg hflow, if_neg hfree]
  exact hperform

end Vault

/-! ### When a request is handled -/

namespace Vault

variable {v : Vault c} {slot : ℕ} {queue : HmcQueue} {cmcs : Vector HmcCmc maxCmc}
  {addressConfig : UInt64}

theorem hmcStall_ne : (0 : Int) ≠ hmcStall ∧ hmcError ≠ hmcStall ∧ hmcError ≠ 0 := by decide

/-- The operations of a request whose bank is free. -/
theorem handled_perform {q : Request} {bank : ℕ}
    (hbank : bank = decodeBank c (maxBlocksize addressConfig) q.addr) (hslot : slot < c.queueDepth) :
    (∃ code v', v.perform cmcs slot bank (maxBlocksize addressConfig) queue q = .ok (code, v') ∧
      (code = hmcStall ∨ code = 0 ∧
        (Posted q.cmd ∨ (v'.bankOf addressConfig q).valid = .valid ∧
          Responds q (maxBlocksize addressConfig) (v'.bankOf addressConfig q).packet))) ↔
      Serviceable (maxBlocksize addressConfig) q := by
  have hlt : bank < c.numBanks := hbank ▸ decodeBank_lt c _ _
  by_cases hrefused : Refused (maxBlocksize addressConfig) q.cmd
  · constructor
    · rintro ⟨code, v', h, -⟩
      exact absurd h (perform_failed (operation_of_refused hrefused) _)
    · rintro ⟨e, he, hfits, -⟩
      exact absurd (hrefused e he) (Nat.not_lt.mpr hfits)
  · obtain ⟨e, he, hfits⟩ : ∃ e, command q.cmd = some e ∧ e.block ≤ maxBlocksize addressConfig := by
      unfold Refused at hrefused
      push Not at hrefused
      exact hrefused
    have hserviceable : Serviceable (maxBlocksize addressConfig) q ↔ e.Serves q := by
      constructor
      · rintro ⟨e', he', -, hserves⟩
        rw [he, Option.some.injEq] at he'
        rwa [he']
      · intro hserves
        exact ⟨e, he, hfits, hserves⟩
    have hop := operation_of_fits he hfits
    rw [hserviceable]
    obtain ⟨operation, block⟩ := e
    cases operation with
    | answered rspCmd n latency =>
      obtain ⟨hpos, hn, hlatency, -⟩ :=
        command_answered he (hfits.trans_lt (maxBlocksize_lt addressConfig))
      obtain ⟨v', packet, hperform, hkept, hhead, -⟩ :=
        perform_answered (v := v) cmcs queue hlt hslot hop hpos hn (by rw [hlatency]; decide)
      have hkeptOf : v'.bankOf addressConfig q = ⟨latency, .valid, packet⟩ := by
        subst hbank
        exact hkept
      have hbankOf : (v'.bankOf addressConfig q).packet = packet := congrArg HmcBank.packet hkeptOf
      have hposted : ¬ Posted q.cmd := by
        rintro ⟨l, b, hpost⟩
        rw [he, Option.some.injEq, Command.mk.injEq] at hpost
        exact absurd hpost.1 (by simp)
      change _ ↔ q.tag.toNat < 1024
      constructor
      · rintro ⟨code, w, hok, hcode⟩
        rw [hperform] at hok
        cases hok
        rcases hcode with hstall | ⟨-, hpost | ⟨-, hresponds⟩⟩
        · exact absurd hstall hmcStall_ne.1
        · exact absurd hpost hposted
        · -- the response holds ten bits of the tag
          have htag := hresponds.tag
          rw [hbankOf, hhead, (q.field_rspHead_tag rspCmd (by omega)).2] at htag
          exact q.rspTag_eq_tag_iff.mp htag
      · intro htag
        refine ⟨0, v', hperform, Or.inr ⟨rfl, Or.inr ⟨congrArg HmcBank.valid hkeptOf, ?_⟩⟩⟩
        rw [hbankOf]
        exact {
          length := by
            rw [hhead, q.field_rspHead_length rspCmd (by omega), toNat_ofNat (by omega)]
            exact hpos
          tag := by
            rw [hhead, (q.field_rspHead_tag rspCmd (by omega)).2]
            exact q.rspTag_eq_tag_iff.mpr htag
          link := by rw [hhead, q.field_rspHead_slid rspCmd (by omega)]
          error := fun h => absurd h hrefused }
    | posted latency =>
      obtain ⟨v', hperform⟩ := perform_posted (v := v) cmcs queue hlt hslot hop
      refine iff_of_true ⟨0, v', hperform, Or.inr ⟨rfl, Or.inl ⟨latency, block, he⟩⟩⟩ trivial
    | custom =>
      refine iff_of_false ?_ id
      rintro ⟨code, v', hperform, hcode⟩
      have herror := perform_custom hop hperform
      rcases hcode with hstall | ⟨hok, -⟩
      · exact hmcStall_ne.2.1 (herror.symm.trans hstall)
      · exact hmcStall_ne.2.2 (herror.symm.trans hok)

/-- **When a request is handled**: its bank works, or it can be served. -/
theorem handled_iff (addressConfig : UInt64) (cmcs : Vector HmcCmc maxCmc) (v : Vault c)
    (hslot : slot < c.queueDepth) (hqueue : v.rqstQueue[slot] = queue) (haccepted : queue.Accepted) :
    v.Handled addressConfig queue.request cmcs slot ↔
      v.Busy addressConfig queue.request ∨ Serviceable (maxBlocksize addressConfig) queue.request := by
  have htail : lastWord queue.request.length < maxUqPacket := by
    obtain ⟨hpos, hle⟩ := haccepted
    rw [lastWord_of_pos hpos (by omega)]
    change _ < 34
    omega
  unfold Handled
  rw [processRqst_eq hslot hqueue htail]
  by_cases hcmd : queue.request.cmd = 0
  · -- flow control is served, whatever the bank does
    have hflow : command queue.request.cmd = some ⟨.posted 0, 0⟩ := by
      rw [hcmd]
      rfl
    rw [if_pos hcmd, keepBusy_eq_ok c.numBanks_pos, Outcome.ok_bind, clearSlot_eq_ok hslot]
    refine iff_of_true ⟨0, _, rfl, Or.inr ⟨rfl, Or.inl ⟨0, 0, hflow⟩⟩⟩ ?_
    exact Or.inr ⟨_, hflow, Nat.zero_le _, trivial⟩
  · rw [if_neg hcmd]
    by_cases hbusy : 0 < (v.bankOf addressConfig queue.request).delay
    · rw [if_pos hbusy]
      refine iff_of_true ⟨hmcStall, _, rfl, Or.inl rfl⟩ ?_
      exact Or.inl ⟨hcmd, hbusy⟩
    · rw [if_neg hbusy, handled_perform rfl hslot]
      constructor
      · intro h
        exact Or.inr h
      · rintro (⟨-, h⟩ | h)
        · exact absurd h hbusy
        · exact h

/-- A read of 16 bytes is served. -/
theorem handled_read :
    (idle read16).Handled 0 (waiting read16).request (Vector.replicate _ {}) 0 := by
  have hslot : 0 < fourLinks.queueDepth := by decide
  have hcommand : command (waiting read16).request.cmd = some ⟨.answered .rdRs 2 dramlatency, 0⟩ := by
    decide
  have htag : (waiting read16).request.tag.toNat < 1024 := by decide
  exact (handled_iff 0 _ (idle read16) hslot (Vector.getElem_replicate hslot) (by decide)).mpr
    (Or.inr ⟨_, hcommand, Nat.zero_le _, htag⟩)

/-- A read of 64 bytes with blocks of 32 bytes stops the simulator. -/
theorem not_handled_refused :
    ¬ ∀ (c : Cube) (addressConfig : UInt64) (cmcs : Vector HmcCmc maxCmc) (v : Vault c) (slot : ℕ)
      (h : slot < c.queueDepth), v.rqstQueue[slot].Accepted →
        v.Handled addressConfig v.rqstQueue[slot].request cmcs slot := by
  intro h
  have hslot : 0 < fourLinks.queueDepth := by decide
  have hqueue : (idle read64).rqstQueue[0] = waiting read64 := Vector.getElem_replicate hslot
  have haccepted : (waiting read64).Accepted := by decide
  obtain ⟨code, v', hok, hcode⟩ := h fourLinks 0 (Vector.replicate _ {}) (idle read64) 0 hslot
    (hqueue ▸ haccepted)
  have hrefused : operation (maxBlocksize 0) (waiting read64).request.cmd = .answered .rspError 0 0 := by
    decide
  have hfree : ¬ 0 < ((idle read64).bankOf 0 (waiting read64).request).delay := by
    rw [bankOf_idle]
    decide
  rw [processRqst_eq hslot hqueue (by decide), if_neg (by decide), if_neg hfree] at hok
  exact perform_failed hrefused _ hok

/-! ### Decoding what has been built -/

/-- A service that ends has found the tail. -/
theorem lastWord_lt_of_processRqst {r : Int × Vault c} (hslot : slot < c.queueDepth)
    (hqueue : v.rqstQueue[slot] = queue) (hcmd : queue.request.cmd ≠ 0)
    (h : v.processRqst addressConfig cmcs slot = .ok r) :
    lastWord queue.request.length < maxUqPacket := by
  by_contra hle
  have hfirst : 0 < maxUqPacket := by decide
  unfold processRqst at h
  rw [access_of_lt hslot, Outcome.ok_bind, hqueue, access_of_lt hfirst, Outcome.ok_bind] at h
  change (if queue.request.cmd = 0 then _ else
    access .indexOutOfRange queue.packet (lastWord queue.request.length) >>= _) = _ at h
  rw [if_neg hcmd, access_of_le (Nat.not_lt.mp hle)] at h
  cases h

/-- **Decoding a built response**: the command, the length and the fields of the request come back exactly
when the tag has ten bits and the return pointer eight, and when the caller has cleared its error
status. -/
theorem recovers_iff {v' : Vault c} (hslot : slot < c.queueDepth) (hqueue : v.rqstQueue[slot] = queue)
    (h : v.processRqst addressConfig cmcs slot = .ok (0, v')) {rspCmd : HmcResponse}
    {n latency block : ℕ} (he : command queue.request.cmd = some ⟨.answered rspCmd n latency, block⟩)
    (out : MemResponse) :
    (∃ r, decodeMemresponse (some (v'.bankOf addressConfig queue.request).packet.toList) out = .ok (0, r) ∧
        queue.request.Recovers rspCmd n r) ↔
      queue.request.tag.toNat < 1024 ∧ queue.request.rrp.toNat < 256 ∧ out.errstat = 0 := by
  have hcmd : queue.request.cmd ≠ 0 := by
    intro hzero
    rw [hzero] at he
    cases he
  have htail := lastWord_lt_of_processRqst hslot hqueue hcmd h
  rw [processRqst_eq hslot hqueue htail, if_neg hcmd] at h
  have hfree : ¬ 0 < (v.bankOf addressConfig queue.request).delay := by
    intro hbusy
    rw [if_pos hbusy] at h
    cases h
  rw [if_neg hfree] at h
  -- A command above the block size is refused, so that no answer would have been built.
  have hfits : block ≤ maxBlocksize addressConfig := by
    by_contra hlt
    have hrefused : Refused (maxBlocksize addressConfig) queue.request.cmd := by
      intro e' he'
      rw [he, Option.some.injEq] at he'
      rw [← he']
      exact Nat.not_le.mp hlt
    exact absurd h (perform_failed (operation_of_refused hrefused) _)
  have hbank := decodeBank_lt c (maxBlocksize addressConfig) queue.request.addr
  obtain ⟨hpos, hn, hlatency, hcmc⟩ := command_answered he (hfits.trans_lt (maxBlocksize_lt addressConfig))
  obtain ⟨w, packet, hperform, hkept, -, hfirst, hlast⟩ :=
    perform_answered (v := v) cmcs queue hbank hslot (operation_of_fits he hfits) hpos hn
      (by rw [hlatency]; decide)
  rw [hperform] at h
  cases h
  have hbankOf : (v'.bankOf addressConfig queue.request).packet = packet :=
    congrArg HmcBank.packet hkept
  have hdecode := queue.request.decodeMemresponse_eq_ok hcmc hpos (by omega) hfirst hlast out
  rw [hbankOf, hdecode, ← queue.request.recovers_decoded_iff rspCmd (show n < 32 by omega) out]
  constructor
  · rintro ⟨r, hr, hrecovers⟩
    cases hr
    exact hrecovers
  · intro hrecovers
    exact ⟨_, rfl, hrecovers⟩

/-- The response to a read of 16 bytes is decoded. -/
theorem recovers_read : ∃ v', (idle read16).processRqst 0 (Vector.replicate _ {}) 0 = .ok (0, v') ∧
    ∃ r, decodeMemresponse (some (v'.bankOf 0 (waiting read16).request).packet.toList) {} = .ok (0, r) ∧
      (waiting read16).request.Recovers .rdRs 2 r := by
  have hslot : 0 < fourLinks.queueDepth := by decide
  have hcommand : command (waiting read16).request.cmd = some ⟨.answered .rdRs 2 dramlatency, 0⟩ := by
    decide
  have hqueue : (idle read16).rqstQueue[0] = waiting read16 := Vector.getElem_replicate hslot
  obtain ⟨v', h, -⟩ := processRqst_idle hcommand (by decide)
  exact ⟨v', h, (recovers_iff hslot hqueue h hcommand {}).mpr (by decide)⟩

/-- The tag 1024 comes back as zero. -/
theorem not_recovers_tag :
    ¬ ∀ (c : Cube) (addressConfig : UInt64) (cmcs : Vector HmcCmc maxCmc) (v v' : Vault c) (slot : ℕ)
      (h : slot < c.queueDepth), v.processRqst addressConfig cmcs slot = .ok (0, v') →
        ∀ rspCmd n latency block,
          command v.rqstQueue[slot].request.cmd = some ⟨.answered rspCmd n latency, block⟩ →
            ∀ out, ∃ r, decodeMemresponse (some
              (v'.bankOf addressConfig v.rqstQueue[slot].request).packet.toList) out = .ok (0, r) ∧
                v.rqstQueue[slot].request.Recovers rspCmd n r := by
  intro h
  have hslot : 0 < fourLinks.queueDepth := by decide
  have hqueue : (idle readTagged).rqstQueue[0] = waiting readTagged := Vector.getElem_replicate hslot
  have hcommand : command (waiting readTagged).request.cmd =
      some ⟨.answered .rdRs 2 dramlatency, 0⟩ := by
    decide
  obtain ⟨v', hok, hfirst, hlast, -⟩ := processRqst_idle hcommand (by decide)
  obtain ⟨r, hdecode, hrecovers⟩ := h fourLinks 0 _ (idle readTagged) v' 0 hslot hok .rdRs 2 dramlatency 0
    (hqueue ▸ hcommand) {}
  rw [hqueue] at hdecode hrecovers
  rw [(waiting readTagged).request.decodeMemresponse_eq_ok (by decide) (by decide) (by decide) hfirst hlast
    {}] at hdecode
  cases hdecode
  exact absurd ((waiting readTagged).request.rspTag_eq_tag_iff.mp hrecovers.tag) (by decide)

end Vault

end PIMSim.HMC
