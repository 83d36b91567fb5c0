import PIMSim.HMC.AddressDecode
import PIMSim.HMC.Pending
import PIMSim.Library.Slots

/-!
# A clock of the cubes

A clock moves the packets of all cubes in stages: the requests of the crossbars go to their vaults or to
another cube, the banks go on, the vaults serve their requests, the responses go to the crossbars of their
links, and every queue is compacted. A packet that finds no room waits in its slot.

There are two loops over the requests of a crossbar, one for the cubes that are connected to the host and
one for the others, where all slots share a counter with the loops inside.

## Main definitions

* `Wiring`, `Wiring.isRoot`: the cubes that the links connect
* `reorg`: the compaction of a queue
* `HmcDev.deliver`, `HMCSim.passOn`, `HMCSim.forward`: the turn of a request in a crossbar
* `HMCSim.passBack`: the turn of a response in a cube without a host
* `HMCSim.registerResponse`: the turn of a response in a vault
* `HMCSim.clock`: a clock
-/

namespace PIMSim.HMC

open CSharp Fields

/-! ### Vaults -/

theorem Cube.four_le_numQuads (c : Cube) : 4 ≤ c.numQuads := by
  unfold Cube.numQuads
  split <;> decide

theorem Cube.vault_lt (c : Cube) {quad vault : ℕ} (hquad : quad < c.numQuads)
    (hvault : vault < vaultsPerQuad) : quad * vaultsPerQuad + vault < c.numVaults := by
  have h := c.accepted
  simp only [Sizes.refused, Bool.or_eq_false_iff, bne_eq_false_iff_eq] at h
  have hper : c.numVaults / c.numLinks = 8 := h.1.1.1.1.2
  have hlinks := c.numLinks_eq
  have hall : 8 * c.numLinks ≤ c.numVaults := hper ▸ Nat.div_mul_le_self _ _
  have hquads : c.numQuads ≤ c.numLinks := by
    unfold Cube.numQuads
    split <;> omega
  change vault < 8 at hvault
  change quad * 8 + vault < _
  omega

/-- The vault of a quadrant. -/
def Cube.vault (c : Cube) (quad : Fin c.numQuads) (vault : Fin vaultsPerQuad) : Fin c.numVaults :=
  ⟨quad * vaultsPerQuad + vault, c.vault_lt quad.isLt vault.isLt⟩

/-- The vaults of all quadrants. -/
def Cube.vaults (c : Cube) : List (Fin c.numVaults) :=
  (List.finRange c.numQuads).flatMap fun quad => (List.finRange vaultsPerQuad).map (c.vault quad)

/-- The vault of an address. -/
def vaultOf (c : Cube) (bsize : ℕ) (addr : UInt64) : Fin c.numVaults :=
  c.vault ⟨decodeQuad c bsize addr, (decodeQuad_lt addr).trans_le c.four_le_numQuads⟩
    ⟨decodeVault c bsize addr, decodeVault_lt addr⟩

/-! ### Queues -/

/-- The packet that a slot holds. -/
def HmcQueue.held (queue : HmcQueue) : Option Words :=
  if queue.valid = .invalid then none else some queue.packet

/-- `hmcsim_clock_reorg_xbar_rqst` and its siblings. -/
def reorg {n : ℕ} (queue : Vector HmcQueue n) : Vector HmcQueue n :=
  Slots.compact HmcQueue.held (fun x => ⟨.valid, x.packet⟩) .zero queue

theorem Cube.xbarSlot_lt (c : Cube) (i : Fin c.xbarDepth) : i.val < c.xbarDepth := i.isLt

theorem Cube.vaultSlot_lt (c : Cube) (i : Fin c.queueDepth) : i.val < c.queueDepth := i.isLt

variable {c : Cube}

namespace HmcDev

/-- A slot of a crossbar's requests is assigned. -/
def setRqst (d : HmcDev c) (link : Fin c.numLinks) (i : Fin c.xbarDepth) (x : HmcQueue) : HmcDev c :=
  let xbar := d.xbar.get link
  { d with xbar := d.xbar.set link { xbar with rqst := xbar.rqst.set i x (c.xbarSlot_lt i) } }

/-- A slot of a crossbar's responses is assigned. -/
def setRsp (d : HmcDev c) (link : Fin c.numLinks) (i : Fin c.xbarDepth) (x : HmcQueue) : HmcDev c :=
  let xbar := d.xbar.get link
  { d with xbar := d.xbar.set link { xbar with rsp := xbar.rsp.set i x (c.xbarSlot_lt i) } }

def setVault (d : HmcDev c) (v : Fin c.numVaults) (vault : Vault c) : HmcDev c :=
  { d with vaults := d.vaults.set v vault }

end HmcDev

/-- The compaction of the crossbars' queues. -/
def HmcDev.reorgXbars (d : HmcDev c) : HmcDev c :=
  { d with xbar := d.xbar.map fun x => { rqst := reorg x.rqst, rsp := reorg x.rsp } }

/-- The compaction of a vault's queues. -/
def Vault.reorgQueues (v : Vault c) : Vault c :=
  { v with rqstQueue := reorg v.rqstQueue, rspQueue := reorg v.rspQueue }

/-- A device is assigned. -/
def HMCSim.setDev (s : HMCSim c) (dev : Fin c.numDevs) (d : HmcDev c) : HMCSim c :=
  { s with devs := s.devs.set dev d }

/-! ### Requests of the crossbars -/

/-- The two ends of every link, which `hmcsim_link_config` sets. -/
structure Wiring (c : Cube) where
  srcCub : Fin c.numDevs → Fin c.numLinks → ℕ
  destCub : Fin c.numDevs → Fin c.numLinks → ℕ

/-- `hmcsim_util_is_root`: a link comes from the host. -/
def Wiring.isRoot (w : Wiring c) (dev : Fin c.numDevs) : Bool :=
  (List.finRange c.numLinks).any fun link => w.srcCub dev link = c.numDevs + 1

/-- A request for the device goes to the queue of its vault, or waits. The number is the last value of the
counter of the loops. -/
def HmcDev.deliver (d : HmcDev c) (link : Fin c.numLinks) (i : Fin c.xbarDepth) (queue : HmcQueue)
    (q : Request) : ℕ × HmcDev c :=
  let v := vaultOf c (maxBlocksize d.addressConfig) q.addr
  let vault := d.vaults.get v
  match lastFound vault.rqstQueue .invalid with
  | none => (c.queueDepth, d.setRqst link i { queue with valid := .stalled })
  | some slot =>
    let rqstQueue := vault.rqstQueue.set slot ⟨.valid, queue.packet⟩ (c.vaultSlot_lt slot)
    let d := d.setVault v { vault with rqstQueue }
    (maxUqPacket, d.setRqst link i .zero)

namespace HMCSim

/-- A request for another device goes to a crossbar of that device, waits, or is marked when no link leads
there. The search for a link goes on from the counter. -/
def passOn (w : Wiring c) (s : HMCSim c) (dev : Fin c.numDevs) (link : Fin c.numLinks)
    (i : Fin c.xbarDepth) (queue : HmcQueue) (q : Request) (j : ℕ) : Outcome (ℕ × HMCSim c) :=
  let d := s.devs.get dev
  match (List.finRange c.numLinks).find? fun l => j ≤ l.val ∧ w.destCub dev l = q.cub with
  | none => return (max j c.numLinks, s.setDev dev (d.setRqst link i { queue with valid := .zombie }))
  | some tLink =>
    if h : q.cub < c.numDevs then
      let d' := s.devs.get ⟨q.cub, h⟩
      match lastFound (d'.xbar.get tLink).rqst .invalid with
      | none => return (c.xbarDepth, s.setDev dev (d.setRqst link i { queue with valid := .stalled }))
      | some slot => do
        -- the link is put over the bits that follow the sequence number
        let words ← replace .indexOutOfRange queue.packet (lastWord q.length) (q.tail ||| place q.slid 24)
        let s := s.setDev ⟨q.cub, h⟩ (d'.setRqst tLink slot ⟨.valid, words⟩)
        return (maxUqPacket, s.setDev dev (d.setRqst link i .zero))
    else .error .argumentOutOfRange

/-- The turn of a slot in a crossbar's requests, with the counter of the loops. -/
def forward (w : Wiring c) (s : HMCSim c) (dev : Fin c.numDevs) (link : Fin c.numLinks)
    (i : Fin c.xbarDepth) (j : ℕ) : Outcome (ℕ × HMCSim c) :=
  let d := s.devs.get dev
  let queue := (d.xbar.get link).rqst.get i
  if queue.valid = .invalid then return (j, s)
  else do
    let header := headWord queue.packet
    let tail ← access .indexOutOfRange queue.packet (lastWord (field header 7 0x1F).toNat)
    let q : Request := ⟨header, tail⟩
    if q.cub = dev then
      let (j, d) := d.deliver link i queue q
      return (j, s.setDev dev d)
    else s.passOn w dev link i queue q j

/-- `hmcsim_clock_process_rqst_queue_new` -/
def processRqstQueueNew (w : Wiring c) (s : HMCSim c) (dev : Fin c.numDevs) (link : Fin c.numLinks)
    (i : Fin c.xbarDepth) : Outcome (HMCSim c) := do
  let (_, s) ← s.forward w dev link i 0
  return s

/-- `hmcsim_clock_process_rqst_queue`, whose slots share the counter. -/
def processRqstQueue (w : Wiring c) (s : HMCSim c) (dev : Fin c.numDevs) (link : Fin c.numLinks) :
    Outcome (HMCSim c) := do
  let (_, s) ← (List.finRange c.xbarDepth).foldlM (fun (j, s) i => s.forward w dev link i j) (0, s)
  return s

/-- The turn of a slot in `hmcsim_clock_process_rsp_queue`. The number of the device at the other end of
the link is taken for a link of this device. -/
def passBack (w : Wiring c) (dev : Fin c.numDevs) (link : Fin c.numLinks) (s : HMCSim c)
    (i : Fin c.xbarDepth) : Outcome (HMCSim c) :=
  let d := s.devs.get dev
  let queue := (d.xbar.get link).rsp.get i
  if queue.valid = .invalid then return s
  else if h : w.destCub dev link < c.numLinks then
    let dest : Fin c.numLinks := ⟨w.destCub dev link, h⟩
    match lastFound (d.xbar.get dest).rsp .invalid with
    | some slot => return s.setDev dev ((d.setRsp dest slot ⟨.valid, queue.packet⟩).setRsp link i .zero)
    | none => return s.setDev dev (d.setRsp link i { queue with valid := .stalled })
  else .error .argumentOutOfRange

/-- `hmcsim_clock_process_rsp_queue` -/
def processRspQueue (w : Wiring c) (s : HMCSim c) (dev : Fin c.numDevs) (link : Fin c.numLinks) :
    Outcome (HMCSim c) :=
  if w.isRoot dev then return s
  else (List.finRange c.xbarDepth).foldlM (passBack w dev link) s

/-- `hmcsim_clock_child_xbar` -/
def clockChildXbar (w : Wiring c) (s : HMCSim c) : Outcome (HMCSim c) :=
  (List.finRange c.numDevs).foldlM (fun s dev =>
    if w.isRoot dev then return s
    else (List.finRange c.numLinks).foldlM (fun s link => do
      let s ← s.processRqstQueue w dev link
      s.processRspQueue w dev link) s) s

/-- `hmcsim_clock_root_xbar` -/
def clockRootXbar (w : Wiring c) (s : HMCSim c) : Outcome (HMCSim c) :=
  (List.finRange c.numDevs).foldlM (fun s dev =>
    if w.isRoot dev then
      (List.finRange c.xbarDepth).foldlM (fun s i =>
        (List.finRange c.numLinks).foldlM (fun s link => s.processRqstQueueNew w dev link i) s) s
    else return s) s

/-! ### Vaults -/

/-- A loop over the vaults of all devices. -/
def eachVault (f : HMCSim c → Fin c.numDevs → Fin c.numVaults → Outcome (HMCSim c)) (s : HMCSim c) :
    Outcome (HMCSim c) :=
  (List.finRange c.numDevs).foldlM (fun s dev => c.vaults.foldlM (fun s v => f s dev v) s) s

/-- A vault of a device is assigned. -/
def setVault (s : HMCSim c) (dev : Fin c.numDevs) (v : Fin c.numVaults) (vault : Vault c) : HMCSim c :=
  s.setDev dev ((s.devs.get dev).setVault v vault)

/-- `hmcsim_clock_bank_update` -/
def clockBankUpdate (s : HMCSim c) : Outcome (HMCSim c) :=
  s.eachVault fun s dev v => return s.setVault dev v ((s.devs.get dev).vaults.get v).bankUpdate

/-- `hmcsim_clock_rw_ops` -/
def clockRwOps (s : HMCSim c) : Outcome (HMCSim c) :=
  s.eachVault fun s dev v => do
    let d := s.devs.get dev
    return s.setVault dev v (← (d.vaults.get v).rwOps d.addressConfig s.cmcs)

/-! ### Responses -/

/-- `hmcsim_token_update`. No token has a response type, so that the token of the tag is cleared. -/
def tokenUpdate (tokens : Tokens) (packet : Words) : Outcome Tokens :=
  replace .indexOutOfRange tokens (field (headWord packet) 12 0x3FF).toNat 0

/-- The turn of a slot in `hmcsim_clock_reg_responses`. -/
def registerResponse (dev : Fin c.numDevs) (v : Fin c.numVaults) (s : HMCSim c) (x : Fin c.queueDepth) :
    Outcome (HMCSim c) :=
  let d := s.devs.get dev
  let vault := d.vaults.get v
  let queue := vault.rspQueue.get x
  if queue.valid = .invalid then return s
  else if h : (field (headWord queue.packet) 39 0x7).toNat < c.numLinks then
    let rLink : Fin c.numLinks := ⟨_, h⟩
    match lastFound (d.xbar.get rLink).rsp .invalid with
    | some rSlot => do
      let tokens ← tokenUpdate s.tokens queue.packet
      let d := d.setRsp rLink rSlot ⟨.valid, queue.packet⟩
      let d := d.setVault v { vault with rspQueue := vault.rspQueue.set x .zero }
      return { s.setDev dev d with tokens := tokens }
    -- no slot is free: the response waits in the vault
    | none =>
      let rspQueue := vault.rspQueue.set x { queue with valid := .stalled }
      return s.setVault dev v { vault with rspQueue := rspQueue }
  else .error .argumentOutOfRange

/-- `hmcsim_clock_reg_responses` -/
def clockRegResponses (s : HMCSim c) : Outcome (HMCSim c) :=
  s.eachVault fun s dev v => (List.finRange c.queueDepth).foldlM (registerResponse dev v) s

/-! ### The clock -/

/-- `hmcsim_clock_queue_reorg` -/
def clockQueueReorg (s : HMCSim c) : Outcome (HMCSim c) :=
  let s := { s with devs := s.devs.map HmcDev.reorgXbars }
  s.eachVault fun s dev v => return s.setVault dev v ((s.devs.get dev).vaults.get v).reorgQueues

/-- `hmcsim_clock` -/
def clock (w : Wiring c) (s : HMCSim c) : Outcome (HMCSim c) := do
  let s ← s.clockChildXbar w
  let s ← s.clockRootXbar w
  let s ← s.clockBankUpdate
  let s ← s.clockRwOps
  let s ← s.clockRegResponses
  s.clockQueueReorg

end HMCSim

end PIMSim.HMC
