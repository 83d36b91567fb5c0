import PIMSim.Library.Fields
import PIMSim.Library.Outcome

/-!
# Packets of the memory cube

A packet is an array of words. The first word is the head, and the last word of the packet's length is
the tail. A request's head names the command, the length in flits of two words, the tag, the address
and the cube, and its tail names the link that the request came from. The response takes over the tag
in its head, the link in its head, and the other fields of the tail in its tail.

## Main definitions

* `Request`: the head and the tail of a request, with the fields that they hold
* `BuildRequest`, `BuildRequest.request`: what `hmcsim_build_memrequest` packs
* `HmcResponse`, `decodeRspCmd`: the response commands and their codes
* `Request.rspHead`, `Request.rspTail`: the head and the tail of a response
* `MemResponse`, `decodeMemresponse`: what a response is decoded to

## Main results

* `Request.toNat_rspHead`, `Request.toNat_rspTail`: the words of a response as sums
* `Request.decodeMemresponse_eq_ok`: what a response is decoded to
* `Request.recovers_decoded_iff`: when the fields of a request and its response come back
* `BuildRequest.tag_request` and its siblings: a built request holds what it is built from
-/

namespace PIMSim.HMC

open CSharp Fields

/-- `HMC_MAX_UQ_PACKET` -/
def maxUqPacket : ℕ := 34

/-! ### Requests -/

/-- The head and the tail of a request. -/
structure Request where
  head : UInt64
  tail : UInt64
deriving DecidableEq

namespace Request

variable (q : Request)

def cmd : ℕ := (field q.head 0 0x7F).toNat

/-- The length in flits. -/
def length : ℕ := (field q.head 7 0x1F).toNat

/-- The eleven bits of the tag. -/
def tag : UInt64 := field q.head 12 0x7FF

/-- The bits of the address that `hmcsim_process_rqst` reads. -/
def addr : UInt64 := field q.head 24 0x1FFFFFFFF

def cub : ℕ := (field q.head 61 0x7).toNat

/-- The return retry pointer. -/
def rrp : UInt64 := field q.tail 0 0x1FF

/-- The forward retry pointer. -/
def frp : UInt64 := field q.tail 9 0x1FF

/-- The sequence number. -/
def seq : UInt64 := field q.tail 18 0x7

/-- The link that the request came from. -/
def slid : UInt64 := field q.tail 26 0x7

/-- The return token count. -/
def rtc : UInt64 := field q.tail 29 0x7

def crc : UInt64 := field q.tail 32 0xFFFFFFFF

end Request

/-- `hmcsim_rqst_getrrp` -/
def getRrp : UInt64 := 0x03

/-- `hmcsim_rqst_getfrp` -/
def getFrp : UInt64 := 0x02

/-- `hmcsim_rqst_getrtc` -/
def getRtc : UInt64 := 0x01

/-- `hmcsim_crc32`, which does not compute a checksum. -/
def crc32 : UInt64 := 0x11111111

/-- What `hmcsim_build_memrequest` packs: its arguments, the command and the length of the request's
type, and the sequence number of the type. -/
structure BuildRequest where
  cub : UInt64
  addr : UInt64
  tag : UInt64
  cmd : UInt64
  flits : UInt64
  link : UInt64
  seq : UInt64

/-- The end of `hmcsim_build_memrequest`. -/
def BuildRequest.request (b : BuildRequest) : Request where
  head := (b.cmd &&& 0x7F) ||| place (b.flits &&& 0x1F) 7 ||| place (b.tag &&& 0x7FF) 12 |||
    place (b.addr &&& 0x3FFFFFFFF) 24 ||| place (b.cub &&& 0x7) 61
  tail := getRrp ||| place (getFrp &&& 0x1FF) 9 ||| place (b.seq &&& 0x7) 18 ||| place 0x1 21 |||
    place (b.link &&& 0x7) 26 ||| place (getRtc &&& 0x7) 29 ||| place (crc32 &&& 0xFFFFFFFF) 32

/-! ### Responses -/

/-- `hmc_response` -/
inductive HmcResponse
  | rdRs
  | wrRs
  | mdRdRs
  | mdWrRs
  | rspError
  | rspNone
  | rspCmc
deriving DecidableEq

/-- `hmcsim_decode_rsp_cmd` -/
def decodeRspCmd : HmcResponse → UInt64
  | .rdRs => 0x38
  | .wrRs => 0x39
  | .mdRdRs => 0x3A
  | .mdWrRs => 0x3B
  | .rspError => 0x3E
  | .rspNone => 0x00
  | .rspCmc => 0x00

namespace Request

variable (q : Request)

/-- The tag, without the bit that `hmcsim_process_rqst` drops. -/
def rspTag : UInt64 := field q.head 12 0x3FF

/-- The head of a response. -/
def rspHead (rspCmd : HmcResponse) (rspLen : ℕ) : UInt64 :=
  (decodeRspCmd rspCmd &&& 0x7F) ||| place (UInt64.ofNat rspLen) 7 ||| place q.rspTag 12 |||
    place (field q.tail 26 0x07) 39

/-- The tail of a response. The pointer that the request returns loses a bit. -/
def rspTail : UInt64 :=
  (q.tail &&& 0xFF) ||| place (field q.tail 9 0x1FF) 9 ||| place (field q.tail 18 0x7) 18 |||
    place (field q.tail 29 0x7) 29 ||| place (field q.tail 32 0xFFFFFFFF) 32

end Request

/-- What `hmcsim_decode_memresponse` writes to the variables of its caller. -/
structure MemResponse where
  responseHead : UInt64 := 0
  responseTail : UInt64 := 0
  type : HmcResponse := .rdRs
  length : UInt64 := 0
  tag : UInt64 := 0
  rtnTag : UInt64 := 0
  srcLink : UInt64 := 0
  rrp : UInt64 := 0
  frp : UInt64 := 0
  seq : UInt64 := 0
  dinv : UInt64 := 0
  errstat : UInt64 := 0
  rtc : UInt64 := 0
  crc : UInt64 := 0
deriving DecidableEq

/-- The response command of a code. Every other code is taken for a custom command. -/
def responseType (code : UInt64) : HmcResponse :=
  if code = 0x00 then .rspNone
  else if code = 0x38 then .rdRs
  else if code = 0x39 then .wrRs
  else if code = 0x3A then .mdRdRs
  else if code = 0x3B then .mdWrRs
  else if code = 0x3E then .rspError
  else .rspCmc

/-- `hmcsim_decode_memresponse` on the variables `out` of its caller. The data-invalid bit is
overwritten by the error status, and the variable of the error status is left alone. -/
def decodeMemresponse (packet : Option (List UInt64)) (out : MemResponse) :
    Outcome (Int × MemResponse) :=
  match packet with
  | none => return (-1, out)
  | some words => do
    let head ← arrayAt words 0
    let length := field head 7 0x1F
    let tail ← arrayAt words (length.toNat * 2 - 1)
    return (0, { out with
      responseHead := head
      responseTail := tail
      type := responseType (field head 0 0x7F)
      length := length
      tag := field head 12 0x3FF
      rtnTag := field head 12 0x3FF
      srcLink := field head 39 0x7
      rrp := tail &&& 0xFF
      frp := field tail 9 0x1FF
      seq := field tail 18 0x7
      dinv := field tail 22 0x7F
      rtc := field tail 29 0x7
      crc := (tail &&& 0xFFFFFFFF00000000) >>> 32 })

/-! ### The words of a response -/

theorem toNat_ofNat {n : ℕ} (hn : n < 32) : (UInt64.ofNat n).toNat = n :=
  UInt64.toNat_ofNat_of_lt' (by unfold UInt64.size; omega)

theorem decodeRspCmd_lt (c : HmcResponse) : (decodeRspCmd c).toNat < 2 ^ 7 := by
  cases c <;> decide

/-- The code of a response command is decoded to it. -/
theorem responseType_decodeRspCmd {c : HmcResponse} (hc : c ≠ .rspCmc) :
    responseType (decodeRspCmd c) = c := by
  cases c with
  | rspCmc => exact absurd rfl hc
  | _ => rfl

namespace Request

variable (q : Request)

theorem rspTag_lt : q.rspTag.toNat < 2 ^ 10 := field_lt (by decide) (by decide)

theorem slid_lt : q.slid.toNat < 2 ^ 3 := field_lt (by decide) (by decide)

theorem frp_lt : q.frp.toNat < 2 ^ 9 := field_lt (by decide) (by decide)

theorem seq_lt : q.seq.toNat < 2 ^ 3 := field_lt (by decide) (by decide)

theorem rtc_lt : q.rtc.toNat < 2 ^ 3 := field_lt (by decide) (by decide)

theorem crc_lt : q.crc.toNat < 2 ^ 32 := field_lt (by decide) (by decide)

theorem toNat_tag : q.tag.toNat = q.head.toNat / 2 ^ 12 % 2 ^ 11 := toNat_field (by decide) (by decide)

theorem toNat_rspTag : q.rspTag.toNat = q.head.toNat / 2 ^ 12 % 2 ^ 10 :=
  toNat_field (by decide) (by decide)

/-- The tag of a response is that of the request when it has ten bits. -/
theorem rspTag_eq_tag_iff : q.rspTag = q.tag ↔ q.tag.toNat < 1024 := by
  rw [← UInt64.toNat_inj, toNat_tag, toNat_rspTag]
  omega

/-- The head of a response as a sum. -/
theorem toNat_rspHead (c : HmcResponse) {n : ℕ} (hn : n < 32) :
    (q.rspHead c n).toNat =
      (decodeRspCmd c).toNat + (n * 2 ^ 7 + (q.rspTag.toNat * 2 ^ 12 + q.slid.toNat * 2 ^ 39)) := by
  have hcmd : (decodeRspCmd c &&& 0x7F).toNat = (decodeRspCmd c).toNat := by
    rw [toNat_and_mask (n := 7) (by decide)]
    exact Nat.mod_eq_of_lt (decodeRspCmd_lt c)
  have hlen := toNat_ofNat hn
  have hsum := toNat_pack (k := 7) (l := [⟨7, 5⟩, ⟨12, 10⟩, ⟨39, 3⟩])
    (hcmd ▸ decodeRspCmd_lt c) (by decide)
    (.cons (toNat_ofNat hn ▸ hn) (.cons q.rspTag_lt (.cons q.slid_lt .nil)))
  simp only [pack, total, UInt64.reduceOfNat, hcmd, toNat_ofNat hn, Nat.add_zero] at hsum
  unfold rspHead
  exact hsum

/-- The tail of a response as a sum. -/
theorem toNat_rspTail :
    q.rspTail.toNat = q.tail.toNat % 2 ^ 8 + (q.frp.toNat * 2 ^ 9 + (q.seq.toNat * 2 ^ 18 +
      (q.rtc.toNat * 2 ^ 29 + q.crc.toNat * 2 ^ 32))) := by
  have hrrp : (q.tail &&& 0xFF).toNat = q.tail.toNat % 2 ^ 8 := toNat_and_mask (by decide)
  have hsum := toNat_pack (k := 8) (l := [⟨9, 9⟩, ⟨18, 3⟩, ⟨29, 3⟩, ⟨32, 32⟩])
    (hrrp ▸ Nat.mod_lt _ (by decide)) (by decide)
    (.cons q.frp_lt (.cons q.seq_lt (.cons q.rtc_lt (.cons q.crc_lt .nil))))
  simp only [pack, total, UInt64.reduceOfNat, hrrp, Nat.add_zero] at hsum
  unfold rspTail
  exact hsum

/-! ### Decoding -/

/-- The code of a response's command. -/
theorem field_rspHead_cmd (c : HmcResponse) {n : ℕ} (hn : n < 32) :
    field (q.rspHead c n) 0 0x7F = decodeRspCmd c := by
  have hc := decodeRspCmd_lt c
  apply (field_eq_iff (k := 0) (n := 7) rfl (by decide) (by decide)).mpr
  rw [toNat_rspHead q c hn]
  omega

theorem field_rspHead_length (c : HmcResponse) {n : ℕ} (hn : n < 32) :
    field (q.rspHead c n) 7 0x1F = UInt64.ofNat n := by
  have hc := decodeRspCmd_lt c
  apply (field_eq_iff (k := 7) (n := 5) rfl (by decide) (by decide)).mpr
  rw [toNat_rspHead q c hn, toNat_ofNat hn]
  omega

/-- The tag of a response has ten bits: the bit above them is not set. -/
theorem field_rspHead_tag (c : HmcResponse) {n : ℕ} (hn : n < 32) :
    field (q.rspHead c n) 12 0x3FF = q.rspTag ∧ field (q.rspHead c n) 12 0x7FF = q.rspTag := by
  have hc := decodeRspCmd_lt c
  have htag := q.rspTag_lt
  constructor
  · apply (field_eq_iff (k := 12) (n := 10) rfl (by decide) (by decide)).mpr
    rw [toNat_rspHead q c hn]
    omega
  · apply (field_eq_iff (k := 12) (n := 11) rfl (by decide) (by decide)).mpr
    rw [toNat_rspHead q c hn]
    omega

theorem field_rspHead_slid (c : HmcResponse) {n : ℕ} (hn : n < 32) :
    field (q.rspHead c n) 39 0x7 = q.slid := by
  have hc := decodeRspCmd_lt c
  have htag := q.rspTag_lt
  have hslid := q.slid_lt
  apply (field_eq_iff (k := 39) (n := 3) rfl (by decide) (by decide)).mpr
  rw [toNat_rspHead q c hn]
  omega

/-- The pointer that a response returns. -/
theorem and_rspTail : q.rspTail &&& 0xFF = q.tail &&& 0xFF := by
  rw [← UInt64.toNat_inj, toNat_and_mask (n := 8) (by decide), toNat_and_mask (n := 8) (by decide),
    toNat_rspTail]
  omega

theorem field_rspTail_frp : field q.rspTail 9 0x1FF = q.frp := by
  have hfrp := q.frp_lt
  apply (field_eq_iff (k := 9) (n := 9) rfl (by decide) (by decide)).mpr
  rw [toNat_rspTail]
  omega

theorem field_rspTail_seq : field q.rspTail 18 0x7 = q.seq := by
  have hfrp := q.frp_lt
  have hseq := q.seq_lt
  apply (field_eq_iff (k := 18) (n := 3) rfl (by decide) (by decide)).mpr
  rw [toNat_rspTail]
  omega

/-- A response has neither a data-invalid bit nor an error status. -/
theorem field_rspTail_errstat : field q.rspTail 21 0x1 = 0 ∧ field q.rspTail 22 0x7F = 0 := by
  have hfrp := q.frp_lt
  have hseq := q.seq_lt
  constructor
  · apply (field_eq_iff (k := 21) (n := 1) rfl (by decide) (by decide)).mpr
    rw [toNat_rspTail, UInt64.toNat_zero]
    omega
  · apply (field_eq_iff (k := 22) (n := 7) rfl (by decide) (by decide)).mpr
    rw [toNat_rspTail, UInt64.toNat_zero]
    omega

theorem field_rspTail_rtc : field q.rspTail 29 0x7 = q.rtc := by
  have hfrp := q.frp_lt
  have hseq := q.seq_lt
  have hrtc := q.rtc_lt
  apply (field_eq_iff (k := 29) (n := 3) rfl (by decide) (by decide)).mpr
  rw [toNat_rspTail]
  omega

theorem field_rspTail_crc : (q.rspTail &&& 0xFFFFFFFF00000000) >>> 32 = q.crc := by
  have hfrp := q.frp_lt
  have hseq := q.seq_lt
  have hrtc := q.rtc_lt
  have hcrc := q.crc_lt
  have hmask : (0xFFFFFFFF00000000 : UInt64) >>> 32 = 0xFFFFFFFF := by decide
  rw [and_shiftRight hmask]
  apply (field_eq_iff (k := 32) (n := 32) rfl (by decide) (by decide)).mpr
  rw [toNat_rspTail]
  omega

/-- What the variables of the caller hold after a response has been decoded. -/
def decoded (c : HmcResponse) (n : ℕ) (out : MemResponse) : MemResponse :=
  { out with
    responseHead := q.rspHead c n
    responseTail := q.rspTail
    type := c
    length := UInt64.ofNat n
    tag := q.rspTag
    rtnTag := q.rspTag
    srcLink := q.slid
    rrp := q.tail &&& 0xFF
    frp := q.frp
    seq := q.seq
    dinv := 0
    rtc := q.rtc
    crc := q.crc }

/-- **Decoding** a packet that holds the words of a response. -/
theorem decodeMemresponse_eq_ok {c : HmcResponse} (hc : c ≠ .rspCmc) {n : ℕ} (hpos : 0 < n) (hn : n < 32)
    {words : List UInt64} (hhead : words[0]? = some (q.rspHead c n))
    (htail : words[n * 2 - 1]? = some q.rspTail) (out : MemResponse) :
    decodeMemresponse (some words) out = .ok (0, q.decoded c n out) := by
  have hat₀ : arrayAt words 0 = .ok (q.rspHead c n) := arrayAt_eq_ok.mpr ⟨Int.le_refl 0, hhead⟩
  have hat₁ : arrayAt words ((n : Int) * 2 - 1) = .ok q.rspTail := by
    apply arrayAt_eq_ok.mpr
    constructor
    · omega
    · rwa [show ((n : Int) * 2 - 1).toNat = n * 2 - 1 by omega]
  unfold decodeMemresponse
  simp only [hat₀, Outcome.ok_bind, toNat_ofNat hn, hat₁, field_rspHead_cmd q c hn, field_rspHead_length q c hn,
    (field_rspHead_tag q c hn).1, field_rspHead_slid q c hn, and_rspTail, field_rspTail_frp,
    field_rspTail_seq, (field_rspTail_errstat q).2, field_rspTail_rtc, field_rspTail_crc,
    responseType_decodeRspCmd hc]
  rfl

/-- The fields of a request and of its response come back. -/
structure Recovers (c : HmcResponse) (n : ℕ) (r : MemResponse) : Prop where
  type : r.type = c
  length : r.length.toNat = n
  tag : r.tag = q.tag
  srcLink : r.srcLink = q.slid
  rrp : r.rrp = q.rrp
  frp : r.frp = q.frp
  seq : r.seq = q.seq
  rtc : r.rtc = q.rtc
  crc : r.crc = q.crc
  dinv : r.dinv = field r.responseTail 21 0x1
  errstat : r.errstat = field r.responseTail 22 0x7F

/-- The pointer of a response is that of the request when it has eight bits. -/
theorem and_eq_rrp_iff : q.tail &&& 0xFF = q.rrp ↔ q.rrp.toNat < 256 := by
  have hrrp : q.rrp.toNat = q.tail.toNat / 2 ^ 0 % 2 ^ 9 := toNat_field (by decide) (by decide)
  rw [← UInt64.toNat_inj, toNat_and_mask (n := 8) (by decide), hrrp]
  omega

/-- **What comes back**: the fields are recovered exactly when the tag has ten bits and the pointer has
eight, and when the caller has cleared the error status. -/
theorem recovers_decoded_iff (c : HmcResponse) {n : ℕ} (hn : n < 32) (out : MemResponse) :
    q.Recovers c n (q.decoded c n out) ↔
      q.tag.toNat < 1024 ∧ q.rrp.toNat < 256 ∧ out.errstat = 0 := by
  constructor
  · intro h
    refine ⟨(rspTag_eq_tag_iff q).mp h.tag, (and_eq_rrp_iff q).mp h.rrp, ?_⟩
    have herr := h.errstat
    change out.errstat = field q.rspTail 22 0x7F at herr
    rw [herr, (field_rspTail_errstat q).2]
  · rintro ⟨htag, hrrp, herr⟩
    exact {
      type := rfl
      length := toNat_ofNat hn
      tag := (rspTag_eq_tag_iff q).mpr htag
      srcLink := rfl
      rrp := (and_eq_rrp_iff q).mpr hrrp
      frp := rfl
      seq := rfl
      rtc := rfl
      crc := rfl
      dinv := (field_rspTail_errstat q).1.symm
      errstat := herr.trans (field_rspTail_errstat q).2.symm }

end Request

/-! ### Built requests -/

namespace BuildRequest

variable (b : BuildRequest)

/-- The head of a built request as a sum. -/
theorem toNat_head :
    b.request.head.toNat = (b.cmd &&& 0x7F).toNat + ((b.flits &&& 0x1F).toNat * 2 ^ 7 +
      ((b.tag &&& 0x7FF).toNat * 2 ^ 12 + ((b.addr &&& 0x3FFFFFFFF).toNat * 2 ^ 24 +
        (b.cub &&& 0x7).toNat * 2 ^ 61))) := by
  have hcmd : (b.cmd &&& 0x7F).toNat < 2 ^ 7 := toNat_and_lt (by decide)
  have hflits : (b.flits &&& 0x1F).toNat < 2 ^ 5 := toNat_and_lt (by decide)
  have htag : (b.tag &&& 0x7FF).toNat < 2 ^ 11 := toNat_and_lt (by decide)
  have haddr : (b.addr &&& 0x3FFFFFFFF).toNat < 2 ^ 34 := toNat_and_lt (by decide)
  have hcub : (b.cub &&& 0x7).toNat < 2 ^ 3 := toNat_and_lt (by decide)
  have hsum := toNat_pack (l := [⟨7, 5⟩, ⟨12, 11⟩, ⟨24, 34⟩, ⟨61, 3⟩]) hcmd (by decide)
    (.cons hflits (.cons htag (.cons haddr (.cons hcub .nil))))
  simp only [pack, total, UInt64.reduceOfNat, Nat.add_zero] at hsum
  unfold request
  exact hsum

/-- **A built request** holds what its caller asks for. -/
theorem tag_request : b.request.tag = b.tag &&& 0x7FF := by
  have hcmd : (b.cmd &&& 0x7F).toNat < 2 ^ 7 := toNat_and_lt (by decide)
  have hflits : (b.flits &&& 0x1F).toNat < 2 ^ 5 := toNat_and_lt (by decide)
  have htag : (b.tag &&& 0x7FF).toNat < 2 ^ 11 := toNat_and_lt (by decide)
  apply (field_eq_iff (k := 12) (n := 11) rfl (by decide) (by decide)).mpr
  rw [toNat_head]
  omega

theorem cmd_request : b.request.cmd = (b.cmd &&& 0x7F).toNat := by
  have hcmd : (b.cmd &&& 0x7F).toNat < 2 ^ 7 := toNat_and_lt (by decide)
  unfold Request.cmd
  rw [toNat_field (n := 7) (by decide) (by decide), toNat_head, show (0 : UInt64).toNat = 0 from rfl]
  omega

theorem length_request : b.request.length = (b.flits &&& 0x1F).toNat := by
  have hcmd : (b.cmd &&& 0x7F).toNat < 2 ^ 7 := toNat_and_lt (by decide)
  have hflits : (b.flits &&& 0x1F).toNat < 2 ^ 5 := toNat_and_lt (by decide)
  unfold Request.length
  rw [toNat_field (n := 5) (by decide) (by decide), toNat_head, show (7 : UInt64).toNat = 7 from rfl]
  omega

theorem cub_request : b.request.cub = (b.cub &&& 0x7).toNat := by
  have hcmd : (b.cmd &&& 0x7F).toNat < 2 ^ 7 := toNat_and_lt (by decide)
  have hflits : (b.flits &&& 0x1F).toNat < 2 ^ 5 := toNat_and_lt (by decide)
  have htag : (b.tag &&& 0x7FF).toNat < 2 ^ 11 := toNat_and_lt (by decide)
  have haddr : (b.addr &&& 0x3FFFFFFFF).toNat < 2 ^ 34 := toNat_and_lt (by decide)
  have hcub : (b.cub &&& 0x7).toNat < 2 ^ 3 := toNat_and_lt (by decide)
  unfold Request.cub
  rw [toNat_field (n := 3) (by decide) (by decide), toNat_head, show (61 : UInt64).toNat = 61 from rfl]
  omega

/-- The tag of the response to a built request. -/
theorem rspTag_request : b.request.rspTag.toNat = b.tag.toNat % 2 ^ 10 := by
  have hcmd : (b.cmd &&& 0x7F).toNat < 2 ^ 7 := toNat_and_lt (by decide)
  have hflits : (b.flits &&& 0x1F).toNat < 2 ^ 5 := toNat_and_lt (by decide)
  have htag : (b.tag &&& 0x7FF).toNat = b.tag.toNat % 2 ^ 11 := toNat_and_mask (by decide)
  rw [Request.toNat_rspTag, toNat_head, htag]
  omega

/-- The tail of a built request as a sum. -/
theorem toNat_tail :
    b.request.tail.toNat = getRrp.toNat + ((getFrp &&& 0x1FF).toNat * 2 ^ 9 +
      ((b.seq &&& 0x7).toNat * 2 ^ 18 + (2 ^ 21 + ((b.link &&& 0x7).toNat * 2 ^ 26 +
        ((getRtc &&& 0x7).toNat * 2 ^ 29 + (crc32 &&& 0xFFFFFFFF).toNat * 2 ^ 32))))) := by
  have hrrp : getRrp.toNat < 2 ^ 9 := by decide
  have hfrp : (getFrp &&& 0x1FF).toNat < 2 ^ 9 := toNat_and_lt (by decide)
  have hseq : (b.seq &&& 0x7).toNat < 2 ^ 3 := toNat_and_lt (by decide)
  have hvalid : (0x1 : UInt64).toNat < 2 ^ 1 := by decide
  have hlink : (b.link &&& 0x7).toNat < 2 ^ 3 := toNat_and_lt (by decide)
  have hrtc : (getRtc &&& 0x7).toNat < 2 ^ 3 := toNat_and_lt (by decide)
  have hcrc : (crc32 &&& 0xFFFFFFFF).toNat < 2 ^ 32 := toNat_and_lt (by decide)
  have hsum := toNat_pack (l := [⟨9, 9⟩, ⟨18, 3⟩, ⟨21, 1⟩, ⟨26, 3⟩, ⟨29, 3⟩, ⟨32, 32⟩]) hrrp (by decide)
    (.cons hfrp (.cons hseq (.cons hvalid (.cons hlink (.cons hrtc (.cons hcrc .nil))))))
  simp only [pack, total, UInt64.reduceOfNat, UInt64.reduceToNat, Nat.one_mul, Nat.add_zero] at hsum
  unfold request
  exact hsum

/-- It holds the link of its caller. -/
theorem slid_request : b.request.slid = b.link &&& 0x7 := by
  have hseq : (b.seq &&& 0x7).toNat < 2 ^ 3 := toNat_and_lt (by decide)
  have hlink : (b.link &&& 0x7).toNat < 2 ^ 3 := toNat_and_lt (by decide)
  apply (field_eq_iff (k := 26) (n := 3) rfl (by decide) (by decide)).mpr
  rw [toNat_tail, show getRrp.toNat = 3 from rfl, show (getFrp &&& 0x1FF).toNat = 2 from rfl,
    show (getRtc &&& 0x7).toNat = 1 from rfl]
  omega

end BuildRequest

end PIMSim.HMC
