import PIMSim.HMC.Cube

/-!
# Serving a request

`hmcsim_process_rqst` serves a request that waits at a vault: it finds the bank of the address, and
leaves the request if the bank is busy. The command decides what the response says, how long it is, and
how long the bank works for it. The response is kept in the bank until then.

A command that exceeds the maximum block size sets the error flag, which nothing reads, and leaves the
length of the response at zero. So does a command that the switch does not know.

## Main definitions

* `Operation`, `Command`, `command`: what the commands do
* `buildResponse`: the words of a response
* `Vault.processRqst`: the service of a request
* `HmcQueue.request`, `Vault.bankOf`: the request in a slot, and its bank

## Main results

* `buildResponse_eq_ok`: a response of one to nine flits is built
* `Vault.perform_posted`, `Vault.perform_answered`, `Vault.perform_failed`, `Vault.perform_custom`: what
  the operations end with
* `Vault.processRqst_eq`: the course of a service
-/

namespace PIMSim.HMC

open CSharp Fields

/-- `HMC_STALL` -/
def hmcStall : Int := 2

/-- `HMC_ERROR` -/
def hmcError : Int := -1

/-- `HMC_DEF_DRAM_LATENCY`, which nothing changes. -/
def dramlatency : ℕ := 2

/-! ### Commands -/

/-- What a command does: it has a response of some flits, it has none, or it is a custom command. The
bank works for the latency. -/
inductive Operation
  | answered (rspCmd : HmcResponse) (rspLen : ℕ) (latency : ℕ)
  | posted (latency : ℕ)
  | custom
deriving DecidableEq

/-- A command and the block size that it needs. -/
structure Command where
  operation : Operation
  block : ℕ := 0
deriving DecidableEq

/-- A command with a response. -/
def reply (rspCmd : HmcResponse) (rspLen : ℕ) (block : ℕ := 0) : Option Command :=
  some ⟨.answered rspCmd rspLen dramlatency, block⟩

/-- A command without a response. -/
def post (latency : ℕ) (block : ℕ := 0) : Option Command := some ⟨.posted latency, block⟩

/-- The commands of `hmcsim_process_rqst`. -/
def command (cmd : ℕ) : Option Command :=
  match cmd with
  -- WR16 to WR128, WR256
  | 8 | 9 => reply .wrRs 1
  | 10 => reply .wrRs 1 48
  | 11 => reply .wrRs 1 64
  | 12 => reply .wrRs 1 80
  | 13 => reply .wrRs 1 96
  | 14 => reply .wrRs 1 112
  | 15 => reply .wrRs 1 128
  | 79 => reply .wrRs 1 256
  -- MD_WR
  | 16 => reply .mdWrRs 1
  -- BWR, TWOADD8, ADD16
  | 17 | 18 | 19 => reply .wrRs 1
  -- P_WR16 to P_WR128, P_WR256
  | 24 | 25 => post dramlatency
  | 26 => post dramlatency 48
  | 27 => post dramlatency 64
  | 28 => post dramlatency 80
  | 29 => post dramlatency 96
  | 30 => post dramlatency 112
  | 31 => post dramlatency 128
  | 95 => post dramlatency 256
  -- P_BWR, P_2ADD8, P_ADD16
  | 33 | 34 | 35 => post dramlatency
  -- RD16 to RD128, RD256
  | 48 => reply .rdRs 2
  | 49 => reply .rdRs 3
  | 50 => reply .rdRs 4 48
  | 51 => reply .rdRs 5 64
  | 52 => reply .rdRs 6 80
  | 53 => reply .rdRs 7 96
  | 54 => reply .rdRs 8 112
  | 55 => reply .rdRs 9 128
  | 119 => reply .rdRs 17 256
  -- MD_RD
  | 40 => reply .mdRdRs 2
  -- FLOW_NULL, PRET, TRET, IRTRY
  | 0 | 1 | 2 | 3 => post 0
  -- TWOADDS8R, ADDS16R, INC8, P_INC8
  | 82 | 83 => reply .rdRs 2
  | 80 => reply .rdRs 1
  | 84 => post dramlatency
  -- XOR16, OR16, NOR16, AND16, NAND16
  | 64 | 65 | 66 | 67 | 68 => reply .rdRs 2
  -- CASGT8, CASGT16, CASLT8, CASLT16, CASEQ8, CASZERO16
  | 96 | 98 | 97 | 99 | 100 | 101 => reply .rdRs 2
  -- EQ8, EQ16
  | 105 | 104 => reply .wrRs 1
  -- BWR8R, SWAP16
  | 81 | 106 => reply .rdRs 2
  | 4 | 5 | 6 | 7 | 20 | 21 | 22 | 23 | 32 | 36 | 37 | 38 | 39 | 41 | 42 | 43 | 44 | 45 | 46 | 47 | 56
  | 57 | 58 | 59 | 60 | 61 | 62 | 63 | 69 | 70 | 71 | 72 | 73 | 74 | 75 | 76 | 77 | 78 | 85 | 86 | 87
  | 88 | 89 | 90 | 91 | 92 | 93 | 94 | 102 | 103 | 107 | 108 | 109 | 110 | 111 | 112 | 113 | 114 | 115
  | 116 | 117 | 118 | 120 | 121 | 122 | 123 | 124 | 125 | 126 | 127 => some ⟨.custom, 0⟩
  | _ => none

/-- What is done for a command. A refused command and an unknown one have a response without length. -/
def operation (bsize cmd : ℕ) : Operation :=
  match command cmd with
  | some e => if bsize < e.block then .answered .rspError 0 0 else e.operation
  | none => .answered .rspError 0 0

/-! ### Custom commands -/

/-- The command codes of `Ctable.ctable`. -/
def ctable : List ℕ :=
  [4, 5, 6, 7, 20, 21, 22, 23, 32, 36, 37, 38, 39, 41, 42, 43, 44, 45, 46, 47, 56, 57, 58, 59, 60, 61, 62,
    63, 69, 70, 71, 72, 73, 74, 75, 76, 77, 78, 85, 86, 87, 88, 89, 90, 91, 92, 93, 94, 102, 103, 107,
    108, 109, 110, 111, 112, 113, 114, 115, 116, 117, 118, 120, 121, 122, 123, 124, 125, 126, 127]

/-- `hmcsim_cmc_rawtoidx` -/
def cmcRawtoidx (raw : ℕ) : ℕ := ctable.findIdx fun cmd => cmd = raw

/-- `hmcsim_process_cmc`. An active command calls the function that executes it, which is null. -/
def processCmc (cmcs : Vector HmcCmc maxCmc) (rawcmd : ℕ) : Outcome Int :=
  let idx := cmcRawtoidx rawcmd
  if idx = maxCmc then return -1
  else do
    let cmc ← access .argumentOutOfRange cmcs idx
    if cmc.active then .error .nullReference else return -1

/-! ### The service -/

/-- The index of the last word of some flits, with unsigned numbers. -/
def lastWord (flits : ℕ) : ℕ := (UInt32.ofNat flits * 2 - 1).toNat

/-- The words of a response. -/
def buildResponse (q : Request) (rspCmd : HmcResponse) (rspLen : ℕ) (rspPayload : Vector UInt64 16) :
    Outcome Words := do
  let packet := Vector.replicate maxUqPacket 0
  let packet ← replace .indexOutOfRange packet 0 (q.rspHead rspCmd rspLen)
  let packet ← replace .indexOutOfRange packet (lastWord rspLen) q.rspTail
  copy .indexOutOfRange (access .indexOutOfRange rspPayload)
    (List.range' 1 ((rspLen - 1) * 2 - 1)) packet

variable {c : Cube}

namespace Vault

/-- The bank keeps the response for the latency. Without one the response would go to a slot of the
response queue, and none has been looked for. -/
def respond (v : Vault c) (bank latency : ℕ) (packet : Words) : Outcome (Vault c) :=
  if latency ≠ 0 then do
    let banks ← replace .argumentOutOfRange v.banks bank ⟨latency, .valid, packet⟩
    return { v with banks }
  else .error .argumentOutOfRange

/-- The bank works for the latency, and has no response. -/
def keepBusy (v : Vault c) (bank latency : ℕ) : Outcome (Vault c) := do
  let b ← access .argumentOutOfRange v.banks bank
  let banks ← replace .argumentOutOfRange v.banks bank { b with valid := .invalid, delay := latency }
  return { v with banks }

/-- The slot of a request that has been served. -/
def clearSlot (v : Vault c) (slot : ℕ) : Outcome (Vault c) := do
  let rqstQueue ← replace .argumentOutOfRange v.rqstQueue slot .zero
  return { v with rqstQueue }

/-- The end of `hmcsim_process_rqst`, from the switch over the commands on. -/
def perform (cmcs : Vector HmcCmc maxCmc) (v : Vault c) (slot bank bsize : ℕ) (queue : HmcQueue)
    (q : Request) : Outcome (Int × Vault c) :=
  match operation bsize q.cmd with
  | .answered rspCmd rspLen latency => do
    let packet ← buildResponse q rspCmd rspLen (Vector.replicate 16 0)
    let v ← v.respond bank latency packet
    return (0, ← v.clearSlot slot)
  | .posted latency => do
    let v ← v.keepBusy bank latency
    return (0, ← v.clearSlot slot)
  | .custom => do
    -- the payload is copied before the command is looked up
    let _ ← copy .indexOutOfRange (fun j => access .indexOutOfRange queue.packet (j + 1))
      (List.range (q.length * 2 - 2)) (Vector.replicate 16 0)
    let _ ← processCmc cmcs q.cmd
    return (hmcError, v)

/-- `hmcsim_process_rqst` on the vault that its arguments name. -/
def processRqst (addressConfig : UInt64) (cmcs : Vector HmcCmc maxCmc) (v : Vault c) (slot : ℕ) :
    Outcome (Int × Vault c) := do
  let queue ← access .argumentOutOfRange v.rqstQueue slot
  let head ← access .indexOutOfRange queue.packet 0
  if (field head 0 0x7F).toNat = 0 then
    -- flow control, which is not decoded: it works on the first bank
    let v ← v.keepBusy 0 0
    return (0, ← v.clearSlot slot)
  else
    let tail ← access .indexOutOfRange queue.packet (lastWord (field head 7 0x1F).toNat)
    let q : Request := ⟨head, tail⟩
    let bsize := maxBlocksize addressConfig
    let bank := decodeBank c bsize q.addr
    let b ← access .argumentOutOfRange v.banks bank
    if 0 < b.delay then
      let rqstQueue ← replace .argumentOutOfRange v.rqstQueue slot { queue with valid := .stalled }
      return (hmcStall, { v with rqstQueue })
    else v.perform cmcs slot bank bsize queue q

end Vault

/-- The first word. -/
def headWord (packet : Words) : UInt64 := packet.get ⟨0, by decide⟩

/-- The request in a slot. -/
def HmcQueue.request (queue : HmcQueue) : Request where
  head := headWord queue.packet
  tail := (queue.packet[lastWord (field (headWord queue.packet) 7 0x1F).toNat]?).getD 0

/-- The command exceeds the block size, or is not known. -/
def Refused (bsize cmd : ℕ) : Prop := ∀ e, command cmd = some e → bsize < e.block

/-- The bank of a request. -/
def Vault.bankOf (addressConfig : UInt64) (v : Vault c) (q : Request) : HmcBank :=
  v.banks.get ⟨decodeBank c (maxBlocksize addressConfig) q.addr, decodeBank_lt c _ _⟩

/-! ### Commands and responses -/

/-- The responses of the commands within the block sizes. -/
theorem command_answered {cmd n latency block : ℕ} {rspCmd : HmcResponse}
    (h : command cmd = some ⟨.answered rspCmd n latency, block⟩) (hblock : block < 256) :
    0 < n ∧ n ≤ 9 ∧ latency = dramlatency ∧ rspCmd ≠ .rspCmc := by
  unfold command at h
  split at h
  all_goals
    simp only [reply, post, Option.some.injEq, Command.mk.injEq, Operation.answered.injEq, reduceCtorEq,
      false_and, and_assoc] at h
  all_goals
    obtain ⟨rfl, rfl, rfl, rfl⟩ := h
    first
      | exact ⟨by decide, by decide, rfl, by decide⟩
      | exact absurd hblock (by decide)

theorem operation_of_fits {bsize cmd : ℕ} {e : Command} (he : command cmd = some e)
    (hfits : e.block ≤ bsize) : operation bsize cmd = e.operation := by
  unfold operation
  rw [he]
  exact if_neg (Nat.not_lt.mpr hfits)

theorem operation_of_refused {bsize cmd : ℕ} (h : Refused bsize cmd) :
    operation bsize cmd = .answered .rspError 0 0 := by
  unfold operation
  cases he : command cmd with
  | none => rfl
  | some e => exact if_pos (h e he)

theorem lastWord_of_pos {n : ℕ} (hpos : 0 < n) (hn : n < 32) : lastWord n = n * 2 - 1 := by
  have h : ∀ n < 32, 0 < n → lastWord n = n * 2 - 1 := by decide
  exact h n hn hpos

theorem lastWord_zero : lastWord 0 = 4294967295 := by decide

/-- **A response of one to nine flits** is built: its words are the head and the tail, with the payload
between them. -/
theorem buildResponse_eq_ok (q : Request) (rspCmd : HmcResponse) {n : ℕ} (hpos : 0 < n) (hn : n ≤ 9) :
    ∃ packet : Words, buildResponse q rspCmd n (Vector.replicate 16 0) = .ok packet ∧
      headWord packet = q.rspHead rspCmd n ∧ packet.toList[0]? = some (q.rspHead rspCmd n) ∧
      packet.toList[n * 2 - 1]? = some q.rspTail := by
  have hlast : n * 2 - 1 < maxUqPacket := by
    change n * 2 - 1 < 34
    omega
  have hfirst : 0 < maxUqPacket := by decide
  have hl : ∀ i ∈ List.range' 1 ((n - 1) * 2 - 1), i < maxUqPacket ∧
      access .indexOutOfRange (Vector.replicate 16 (0 : UInt64)) i = .ok 0 := by
    intro i hi
    have hmem := List.mem_range'_1.mp hi
    have hi16 : i < 16 := by omega
    constructor
    · omega
    · rw [access_of_lt hi16, Vector.getElem_replicate]
  obtain ⟨packet, hpacket, hvalues⟩ := copy_eq_ok (e := .indexOutOfRange)
    (((Vector.replicate maxUqPacket 0).set 0 (q.rspHead rspCmd n)).set (n * 2 - 1) q.rspTail)
    (f := fun _ => 0) hl
  have hhead : packet[0] = q.rspHead rspCmd n := by
    rw [hvalues 0 hfirst, if_neg (by simp), Vector.getElem_set_ne hlast hfirst (by omega),
      Vector.getElem_set_self]
  have htail : packet[n * 2 - 1] = q.rspTail := by
    rw [hvalues _ hlast, if_neg ?_, Vector.getElem_set_self]
    intro hmem
    have hrange := List.mem_range'_1.mp hmem
    omega
  refine ⟨packet, ?_, hhead, ?_, ?_⟩
  · unfold buildResponse
    dsimp only
    rw [replace_of_lt hfirst, Outcome.ok_bind, lastWord_of_pos hpos (by omega), replace_of_lt hlast,
      Outcome.ok_bind]
    exact hpacket
  · rw [← hhead]
    simp
  · rw [← htail]
    simp

/-- A response without length has no place for its tail. -/
theorem buildResponse_zero (q : Request) (rspCmd : HmcResponse) (payload : Vector UInt64 16) :
    buildResponse q rspCmd 0 payload = .error .indexOutOfRange := by
  unfold buildResponse
  dsimp only
  rw [replace_of_lt (by decide), Outcome.ok_bind, lastWord_zero, replace_of_le (by decide)]
  rfl

/-! ### The parts of a service -/

namespace Vault

variable {v : Vault c} {slot bank latency bsize : ℕ} {q : Request} {queue : HmcQueue}
  {cmcs : Vector HmcCmc maxCmc} {addressConfig : UInt64}

theorem clearSlot_eq_ok (hslot : slot < c.queueDepth) :
    v.clearSlot slot = .ok { v with rqstQueue := v.rqstQueue.set slot .zero } := by
  unfold clearSlot
  rw [replace_of_lt hslot]
  rfl

theorem keepBusy_eq_ok (hbank : bank < c.numBanks) :
    v.keepBusy bank latency = .ok { v with
      banks := v.banks.set bank { v.banks[bank] with valid := .invalid, delay := latency } } := by
  unfold keepBusy
  rw [access_of_lt hbank, Outcome.ok_bind, replace_of_lt hbank]
  rfl

theorem respond_eq_ok (hbank : bank < c.numBanks) (hlatency : latency ≠ 0) (packet : Words) :
    v.respond bank latency packet =
      .ok { v with banks := v.banks.set bank ⟨latency, .valid, packet⟩ } := by
  unfold respond
  rw [if_pos hlatency, replace_of_lt hbank]
  rfl

/-- A command without a response is served. -/
theorem perform_posted (cmcs : Vector HmcCmc maxCmc) (queue : HmcQueue) (hbank : bank < c.numBanks) (hslot : slot < c.queueDepth)
    (hop : operation bsize q.cmd = .posted latency) :
    ∃ v', v.perform cmcs slot bank bsize queue q = .ok (0, v') := by
  unfold perform
  rw [hop]
  dsimp only
  rw [keepBusy_eq_ok hbank, Outcome.ok_bind, clearSlot_eq_ok hslot]
  exact ⟨_, rfl⟩

/-- A command with a response is served, and the bank keeps the response. -/
theorem perform_answered (cmcs : Vector HmcCmc maxCmc) (queue : HmcQueue) {rspCmd : HmcResponse}
    {n : ℕ} (hbank : bank < c.numBanks) (hslot : slot < c.queueDepth) (hop : operation bsize q.cmd = .answered rspCmd n latency)
    (hpos : 0 < n) (hn : n ≤ 9) (hlatency : latency ≠ 0) :
    ∃ v' packet, v.perform cmcs slot bank bsize queue q = .ok (0, v') ∧
      v'.banks[bank] = ⟨latency, .valid, packet⟩ ∧ headWord packet = q.rspHead rspCmd n ∧
      packet.toList[0]? = some (q.rspHead rspCmd n) ∧ packet.toList[n * 2 - 1]? = some q.rspTail := by
  obtain ⟨packet, hpacket, hwords⟩ := buildResponse_eq_ok q rspCmd hpos hn
  refine ⟨{ v with
    banks := v.banks.set bank ⟨latency, .valid, packet⟩
    rqstQueue := v.rqstQueue.set slot .zero }, packet, ?_, ?_, hwords⟩
  · unfold perform
    rw [hop]
    dsimp only
    rw [hpacket, Outcome.ok_bind, respond_eq_ok hbank hlatency, Outcome.ok_bind, clearSlot_eq_ok hslot]
    rfl
  · exact Vector.getElem_set_self hbank

/-- A refused command stops the program, and so does an unknown one. -/
theorem perform_failed {rspCmd : HmcResponse} (hop : operation bsize q.cmd = .answered rspCmd 0 latency)
    (r : Int × Vault c) : v.perform cmcs slot bank bsize queue q ≠ .ok r := by
  unfold perform
  rw [hop]
  dsimp only
  rw [buildResponse_zero]
  intro h
  cases h

/-- A custom command is not served. -/
theorem perform_custom (hop : operation bsize q.cmd = .custom) {code : Int} {v' : Vault c}
    (h : v.perform cmcs slot bank bsize queue q = .ok (code, v')) : code = hmcError := by
  unfold perform at h
  rw [hop] at h
  dsimp only at h
  obtain ⟨-, -, h⟩ := Outcome.bind_eq_ok.mp h
  obtain ⟨-, -, h⟩ := Outcome.bind_eq_ok.mp h
  cases h
  rfl

/-- **The course of a service**, for a slot that exists and a packet that holds its tail. -/
theorem processRqst_eq (hslot : slot < c.queueDepth) (hqueue : v.rqstQueue[slot] = queue)
    (htail : lastWord queue.request.length < maxUqPacket) :
    v.processRqst addressConfig cmcs slot =
      if queue.request.cmd = 0 then do
        let v ← v.keepBusy 0 0
        return (0, ← v.clearSlot slot)
      else if 0 < (v.bankOf addressConfig queue.request).delay then
        .ok (hmcStall, { v with rqstQueue := v.rqstQueue.set slot { queue with valid := .stalled } })
      else
        v.perform cmcs slot (decodeBank c (maxBlocksize addressConfig) queue.request.addr)
          (maxBlocksize addressConfig) queue queue.request := by
  have hfirst : 0 < maxUqPacket := by decide
  have hbank := decodeBank_lt c (maxBlocksize addressConfig) queue.request.addr
  have hword : access .indexOutOfRange queue.packet (lastWord queue.request.length) =
      .ok queue.request.tail := by
    have htailWord : queue.request.tail = queue.packet[lastWord queue.request.length] := by
      change (queue.packet[lastWord queue.request.length]?).getD 0 = _
      rw [Vector.getElem?_eq_getElem htail]
      rfl
    rw [access_of_lt htail, htailWord]
  unfold processRqst
  rw [access_of_lt hslot, Outcome.ok_bind, hqueue, access_of_lt hfirst, Outcome.ok_bind]
  change (if queue.request.cmd = 0 then _ else
    access .indexOutOfRange queue.packet (lastWord queue.request.length) >>= _) = _
  rw [hword, Outcome.ok_bind]
  change (if queue.request.cmd = 0 then _ else
    access .argumentOutOfRange v.banks
      (decodeBank c (maxBlocksize addressConfig) queue.request.addr) >>= _) = _
  rw [access_of_lt hbank, Outcome.ok_bind, replace_of_lt hslot]
  rfl

end Vault

end PIMSim.HMC
