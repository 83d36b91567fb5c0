import PIMSim.HMC.Progress
import PIMSim.Memory.Callback
import PIMSim.Memory.Merge

/-!
# The memory object of the cubes

`HMCMem` stands between the memory controllers and the cubes. It merges the requests that have arrived,
and sends the first one as a packet whose tag is a counter. The units that wait for the request are kept in
a list of entries under this number. When a response comes, its entry is looked up under the tag that
`hmcsim_decode_memresponse` reads, the units are notified, and the entry is removed.

A step that has sent a request receives until all links are empty. A step without a request looks at each
link once. A step whose request was not accepted receives nothing.

## Main definitions

* `Links`, `Links.config`: the links of the devices, and `hmcsim_link_config`
* `HmcRqst`, `buildMemrequest`: the packets that are sent
* `HMCMem`, `HMCMem.make`: the memory object, and its constructor
* `HMCMem.receive`: a response
* `HMCMem.recvLinks`, `HMCMem.recvAll`: the loops over the links
* `HMCMem.step`: a step
* `Activity`: what has been sent and received
-/

namespace PIMSim

open CSharp

namespace HMC

/-! ### Links -/

/-- `hmc_link_def` -/
inductive LinkDef
  | devDev
  | hostDev
deriving DecidableEq

/-- The links of the devices: their two ends and their kinds. -/
structure Links (c : Cube) extends Wiring c where
  type : Fin c.numDevs → Fin c.numLinks → LinkDef

variable {c : Cube}

namespace Links

/-- The links that `hmcsim_config_devices` leaves. -/
def init (c : Cube) : Links c where
  srcCub := fun _ _ => c.numDevs + 1
  destCub := fun dev _ => dev
  type := fun _ _ => .hostDev

/-- A link is assigned. -/
def set (l : Links c) (dev : Fin c.numDevs) (link : Fin c.numLinks) (srcCub destCub : ℕ) (type : LinkDef) :
    Links c where
  srcCub := fun d k => if d = dev ∧ k = link then srcCub else l.srcCub d k
  destCub := fun d k => if d = dev ∧ k = link then destCub else l.destCub d k
  type := fun d k => if d = dev ∧ k = link then type else l.type d k

/-- `hmcsim_link_config`. The far end of a link between devices is set up as a link of the host. -/
def config (l : Links c) (srcDev destDev srcLink destLink : ℕ) (type : LinkDef) : Outcome (Int × Links c) :=
  if c.numDevs + 1 < srcDev then return (-1, l)
  else if hdest : destDev < c.numDevs then
    if hsl : srcLink < c.numLinks then
      if hdl : destLink < c.numLinks then
        match type with
        | .hostDev => return (0, l.set ⟨destDev, hdest⟩ ⟨destLink, hdl⟩ (c.numDevs + 1) destDev .hostDev)
        | .devDev =>
          if destDev = srcDev then return (-1, l)
          else if hsrc : srcDev < c.numDevs then
            let l := l.set ⟨srcDev, hsrc⟩ ⟨srcLink, hsl⟩ srcDev destDev .devDev
            return (0, l.set ⟨destDev, hdest⟩ ⟨destLink, hdl⟩ destDev srcDev .hostDev)
          else .error .argumentOutOfRange
      else return (-1, l)
    else return (-1, l)
  else return (-1, l)

/-- The flags that `hmcsim_send` and `hmcsim_recv` look at. -/
def hostLinks (l : Links c) (dev : Fin c.numDevs) : Vector Bool c.numLinks :=
  Vector.ofFn fun link => l.type dev link = .hostDev

end Links

/-! ### Packets -/

/-- The two types of `hmc_rqst` that are sent. -/
inductive HmcRqst
  | rd64
  | wr64
deriving DecidableEq

namespace HmcRqst

def cmd : HmcRqst → UInt64
  | rd64 => 0x33
  | wr64 => 0x0B

def flits : HmcRqst → UInt64
  | rd64 => 1
  | wr64 => 5

end HmcRqst

/-- `hmcsim_rqst_getseq`, which counts and answers one. -/
def getSeq : UInt64 := 0x01

/-- `hmcsim_build_memrequest` -/
def buildMemrequest (cub : UInt64) (addr : UInt64) (tag : UInt32) (type : HmcRqst) (link : UInt64) : Request :=
  BuildRequest.request
    { cub, addr, tag := tag.toUInt64, cmd := type.cmd, flits := type.flits, link, seq := getSeq }

/-- The type of a response, for the completion paths. -/
def HmcResponse.completion : HmcResponse → PIMSim.HmcResponse
  | rdRs => .rdRs
  | wrRs => .wrRs
  | mdRdRs => .mdRdRs
  | mdWrRs => .mdWrRs
  | rspError => .rspError
  | rspNone => .rspNone
  | rspCmc => .rspCmc

/-- `hmcsim_util_set_all_max_blocksize` on the register of a device. Other sizes are refused. -/
def setAllMaxBlocksize (addressConfig : UInt64) (bsize : ℕ) : UInt64 :=
  if bsize ∈ [32, 64, 128, 256] then setMaxBlocksize addressConfig bsize else addressConfig

/-- `zero_packet` -/
def zeroPacket : List UInt64 := List.replicate maxUqPacket 0

end HMC

open HMC

/-! ### The memory object -/

variable {c : Cube}

/-- An entry of the list of units that wait: the number of a request, and its units. -/
abbrev Entry := UInt64 × CallBackInfo

structure HMCMem (c : Cube) where
  hmc : HMCSim c
  tag : UInt32 := 0
  callback : List Entry := []
  transationQueue : List MemRequest := []

/-- A response that has been received: its link and its words, the entry that was found for it, and the
units that were notified. -/
structure Receipt where
  link : ℕ
  packet : List UInt64
  entry : Entry
  notices : List Notice

/-- What has been sent, with its entries, and what has been received. -/
structure Activity where
  sent : List (List UInt64 × Entry) := []
  receipts : List Receipt := []

/-- One activity after another. -/
def Activity.append (a b : Activity) : Activity := ⟨a.sent ++ b.sent, a.receipts ++ b.receipts⟩

namespace HMCMem

/-- The constructor, after `hmcsim_init`. With more than one device the links stay as they are. -/
def links (c : Cube) : Outcome (Links c) :=
  if 1 < c.numDevs then return .init c
  else (List.range c.numLinks).foldlM (fun l i => do
    let (status, l) ← l.config (c.numDevs + 1) 0 i i .hostDev
    if status ≠ 0 then .error (.exit 1) else return l) (.init c)

def make (c : Cube) (cmcs : Vector HmcCmc maxCmc) (bsize : ℕ) : Outcome (Wiring c × HMCMem c) := do
  let l ← links c
  return (l.toWiring, { hmc := (Traffic.start l.hostLinks (fun _ => setAllMaxBlocksize 0 bsize) cmcs).sim })

/-- The type of packet that is sent for a request. -/
def rqstOf : MemReqType → HmcRqst
  | .read | .load => .rd64
  | .write | .flush | .store => .wr64
  | .returnData | .null => .rd64

/-- The packet of a request. -/
def packetOf (type : HmcRqst) (q : Request) : List UInt64 :=
  match type with
  | .rd64 => [q.head, q.tail] ++ List.replicate (maxUqPacket - 2) 0
  | .wr64 => [q.head, 0x05, 0x06, 0x07, 0x08, 0x09, 0x0A, 0x0B, 0x0C, q.tail] ++
      List.replicate (maxUqPacket - 10) 0

/-! ### Receiving -/

/-- A completion path. -/
abbrev Notify := Simulator → PIMSim.HmcResponse → CallBackInfo → Outcome (List Notice)

variable (missing : Fault) (notify : Notify) (sim : Simulator)

/-- A response that has been decoded. Without an entry for its tag the index is -1, and the access throws
`missing`. Every type but the two of `Step` ends the program. -/
def receive (m : HMCMem c) (out : MemResponse) : Outcome (Entry × List Notice × HMCMem c) :=
  if out.type = .rdRs ∨ out.type = .wrRs then
    match m.callback.find? fun s => s.1 = out.tag with
    | none => .error missing
    | some entry => do
      let notices ← notify sim out.type.completion entry.2
      return (entry, notices, { m with callback := m.callback.eraseP fun s => s.1 = out.tag })
  else .error (.exit 0)

/-- The variables of the loops over the links. -/
structure Receiving (c : Cube) where
  mem : HMCMem c
  packet : List UInt64
  out : MemResponse := { type := .mdRdRs }
  receipts : List Receipt := []

/-- The turn of a link, and whether it stalls. -/
def recvLink (r : Receiving c) (z : ℕ) : Outcome (Bool × Receiving c) := do
  let (res, hmc, packet) ← r.mem.hmc.recv 0 z (some r.packet)
  let mem := { r.mem with hmc }
  if res = hmcStall then return (true, { r with mem, packet := zeroPacket })
  else
    let (_, out) ← decodeMemresponse packet r.out
    let (entry, notices, mem) ← mem.receive missing notify sim out
    let receipt : Receipt := ⟨z, packet.getD [], entry, notices⟩
    return (false, { mem, packet := zeroPacket, out, receipts := r.receipts ++ [receipt] })

/-- A pass over the links, with the number of those that stall. -/
def recvLinks (r : Receiving c) : Outcome (ℕ × Receiving c) :=
  (List.range c.numLinks).foldlM (fun (stallSig, r) z => do
    let (stalled, r) ← recvLink missing notify sim r z
    return (if stalled then stallSig + 1 else stallSig, r)) (0, r)

/-- The passes until all links stall. Every pass before the last one removes an entry, so that one more
than there are entries is enough. -/
def recvAll (r : Receiving c) : Outcome (Receiving c) :=
  doWhile (fun r => do
    let (stallSig, r) ← recvLinks missing notify sim r
    return (r, stallSig ≠ c.numLinks)) (r.mem.callback.length + 1) r

/-! ### A step -/

/-- `hmcsim_clock` -/
def clock (w : Wiring c) (m : HMCMem c) : Outcome (HMCMem c) := do
  return { m with hmc := ← m.hmc.clock w }

/-- The end of `Step`, after the merge. -/
def serve (w : Wiring c) (m : HMCMem c) : Outcome (HMCMem c × Activity) :=
  match m.transationQueue with
  | req :: rest => do
    let type := rqstOf req.memtype
    let packet := packetOf type (buildMemrequest 0 req.address m.tag type 0)
    let m := { m with tag := m.tag + 1 }
    let (status, hmc) ← m.hmc.send (some packet)
    if status = 0 then
      -- the list keeps the whole counter, the packet only ten bits of it
      let entry : Entry := ((m.tag - 1).toUInt64, System.callBackInfo req)
      let m := { m with hmc, callback := m.callback ++ [entry], transationQueue := rest }
      let r ← recvAll missing busyReceive sim { mem := m, packet }
      return (← r.mem.clock w, ⟨[(packet, entry)], r.receipts⟩)
    -- a refused request stays at the head; its number is used up
    else return (← { m with hmc }.clock w, {})
  | [] => do
    let (_, r) ← recvLinks missing idleReceive sim { mem := m, packet := zeroPacket }
    return (← r.mem.clock w, ⟨[], r.receipts⟩)

/-- `Step`, with the requests that the controllers give out. The fault of a lookup without an entry is a
parameter. -/
def stepWith (w : Wiring c) (m : HMCMem c) (arriving : List MemRequest) : Outcome (HMCMem c × Activity) := do
  let queue ← mergeSame (m.transationQueue ++ arriving)
  serve missing sim w { m with transationQueue := queue }

/-- `Step` -/
def step (w : Wiring c) (m : HMCMem c) (arriving : List MemRequest) : Outcome (HMCMem c × Activity) :=
  stepWith .argumentOutOfRange sim w m arriving

end HMCMem

end PIMSim
