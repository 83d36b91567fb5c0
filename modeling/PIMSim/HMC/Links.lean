import PIMSim.HMC.ProcessRqst

/-!
# Sending and receiving at a link

`hmcsim_send` puts a packet of the host into the lowest free slot of the crossbar that the packet names,
and `hmcsim_recv` takes the response in the lowest slot that has one. Both look at their arguments
first, and refuse what they find out of range.

The checks let through one device and one link too many, and they do not look at the length of the
packet. A command without a response sets the token of its tag. A tag has eleven bits, and there are
1024 tokens.

## Main definitions

* `lastFound`: the search for a slot
* `postedRsp`: the token of a command without a response
* `HMCSim.send`, `HMCSim.recv`: the two operations
* `HMCSim.ActsOn`: what a step at a link leaves unchanged
* `HMCSim.Sendable`, `HMCSim.Receivable`: the arguments that are handled

## Main results

* `lastFound_eq`: the search finds the lowest slot
* `HMCSim.validated_iff`: a packet is refused, left or put at an existing link exactly when it is
  sendable, and a response likewise
* `HMCSim.accepted_of_send`: a packet in a queue has 1 to 17 flits
-/

namespace PIMSim.HMC

open CSharp Fields

/-! ### Slots -/

/-- The loop over the slots of a queue, from the last one to the first. -/
def lastFound {n : ℕ} (queue : Vector HmcQueue n) (mark : Slot) : Option (Fin n) :=
  (List.finRange n).reverse.foldl
    (fun target cur => if (queue.get cur).valid = mark then some cur else target) none

theorem foldl_found {α : Type} (p : α → Bool) (l : List α) :
    l.reverse.foldl (fun target cur => if p cur then some cur else target) none = l.find? p := by
  induction l with
  | nil => rfl
  | cons x l ih =>
    rw [List.reverse_cons, List.foldl_append, ih, List.foldl_cons, List.foldl_nil]
    by_cases hx : p x
    · rw [if_pos hx, List.find?_cons_of_pos hx]
    · rw [if_neg hx, List.find?_cons_of_neg hx]

/-- **The search for a slot** finds the lowest one. -/
theorem lastFound_eq {n : ℕ} (queue : Vector HmcQueue n) (mark : Slot) :
    lastFound queue mark = (List.finRange n).find? fun cur => (queue.get cur).valid = mark := by
  rw [← foldl_found]
  simp only [decide_eq_true_eq]
  rfl

theorem lastFound_eq_none {n : ℕ} {queue : Vector HmcQueue n} {mark : Slot} :
    lastFound queue mark = none ↔ ∀ i, (queue.get i).valid ≠ mark := by
  rw [lastFound_eq, List.find?_eq_none]
  simp only [decide_eq_true_eq, List.mem_finRange, forall_const]

/-! ### Tokens -/

/-- The commands that have no response. -/
def postedCommands : List ℕ := [24, 25, 26, 27, 28, 29, 30, 31, 95, 34, 35, 84, 33]

/-- `hmcsim_posted_rsp`. Its list of custom commands also names the code 8, a write. -/
def postedRsp (cmcs : Vector HmcCmc maxCmc) (tokens : Tokens) (hdr : UInt64) : Outcome Tokens :=
  let tag := (field hdr 12 0x7FF).toNat
  let cmd := (field hdr 0 0x7F).toNat
  if cmd ∈ postedCommands then replace .indexOutOfRange tokens tag 2
  else if cmd = 8 ∨ cmd ∈ ctable then do
    let cmc ← access .argumentOutOfRange cmcs (cmcRawtoidx cmd)
    if cmc.rspCmd = .rspNone then replace .indexOutOfRange tokens tag 2 else return tokens
  else return tokens

/-- The command is not the write 8, and there is a token for a command without a response. -/
structure TokenFits (cmcs : Vector HmcCmc maxCmc) (hdr : UInt64) : Prop where
  write : (field hdr 0 0x7F).toNat ≠ 8
  posted : (field hdr 0 0x7F).toNat ∈ postedCommands → (field hdr 12 0x7FF).toNat < 1024
  custom : (field hdr 0 0x7F).toNat ∈ ctable →
    ∀ cmc, cmcs[cmcRawtoidx (field hdr 0 0x7F).toNat]? = some cmc → cmc.rspCmd = .rspNone →
      (field hdr 12 0x7FF).toNat < 1024

theorem postedCommands_disjoint : ∀ cmd ∈ postedCommands, cmd ≠ 8 ∧ cmd ∉ ctable := by decide

theorem cmcRawtoidx_lt {cmd : ℕ} (h : cmd ∈ ctable) : cmcRawtoidx cmd < maxCmc :=
  List.findIdx_lt_length_of_exists ⟨cmd, h, decide_eq_true rfl⟩

/-- **The token of a packet** is found exactly when the packet fits the tokens. -/
theorem postedRsp_returns {cmcs : Vector HmcCmc maxCmc} (tokens : Tokens) {hdr : UInt64} :
    (∃ tokens', postedRsp cmcs tokens hdr = .ok tokens') ↔ TokenFits cmcs hdr := by
  unfold postedRsp
  dsimp only
  by_cases hposted : (field hdr 0 0x7F).toNat ∈ postedCommands
  · obtain ⟨hwrite, hcustom⟩ := postedCommands_disjoint _ hposted
    rw [if_pos hposted, replace_returns]
    constructor
    · intro htag
      exact { write := hwrite, posted := fun _ => htag, custom := fun h => absurd h hcustom }
    · intro h
      exact h.posted hposted
  · rw [if_neg hposted]
    by_cases hcustom : (field hdr 0 0x7F).toNat ∈ ctable
    · have hlt := cmcRawtoidx_lt hcustom
      have hwrite : (field hdr 0 0x7F).toNat ≠ 8 := by
        intro h8
        rw [h8] at hcustom
        exact absurd hcustom (by decide)
      rw [if_pos (Or.inr hcustom), access_of_lt hlt, Outcome.ok_bind]
      by_cases hnone : cmcs[cmcRawtoidx (field hdr 0 0x7F).toNat].rspCmd = .rspNone
      · rw [if_pos hnone, replace_returns]
        constructor
        · intro htag
          exact { write := hwrite, posted := fun h => absurd h hposted, custom := fun _ _ _ _ => htag }
        · intro h
          exact h.custom hcustom _ (Vector.getElem?_eq_getElem hlt) hnone
      · rw [if_neg hnone]
        refine iff_of_true ⟨_, rfl⟩ ?_
        refine { write := hwrite, posted := fun h => absurd h hposted, custom := ?_ }
        intro _ cmc hcmc hrsp
        rw [Vector.getElem?_eq_getElem hlt, Option.some.injEq] at hcmc
        exact absurd (hcmc ▸ hrsp) hnone
    · by_cases h8 : (field hdr 0 0x7F).toNat = 8
      · -- the write is not in the table, so that its index is past the end
        have hindex : maxCmc ≤ cmcRawtoidx (field hdr 0 0x7F).toNat := by
          rw [h8]
          decide
        rw [if_pos (Or.inl h8), access_of_le hindex]
        refine iff_of_false ?_ fun h => h.write h8
        rintro ⟨tokens', h⟩
        cases h
      · rw [if_neg (not_or.mpr ⟨h8, hcustom⟩)]
        refine iff_of_true ⟨_, rfl⟩ ?_
        exact { write := h8, posted := fun h => absurd h hposted, custom := fun h => absurd h hcustom }

/-! ### The two operations -/

variable {c : Cube}

namespace HMCSim

/-- The state with another crossbar at a link. -/
def withXbar (s : HMCSim c) (dev link : ℕ) (xbar : Xbar c) : HMCSim c :=
  { s with
    devs := s.devs.mapIdx fun d x =>
      if d = dev then { x with xbar := x.xbar.mapIdx fun l y => if l = link then xbar else y } else x }

/-- The crossbar of a link that leads to the host. Every other link is refused. -/
def atHost {β : Type} (s : HMCSim c) (dev link : ℕ) (refused : β) (k : Xbar c → Outcome β) :
    Outcome β := do
  let d ← access .argumentOutOfRange s.devs dev
  if ← access .argumentOutOfRange d.hostLinks link then
    k (← access .argumentOutOfRange d.xbar link)
  else return refused

/-- The end of `hmcsim_send`, from the search for a slot on. -/
def inject (s : HMCSim c) (packet : List UInt64) (q : Request) (xbar : Xbar c) :
    Outcome (Int × HMCSim c) :=
  match lastFound xbar.rqst .invalid with
  | none => return (hmcStall, s)
  | some target => do
    let words ← copy .indexOutOfRange (fun i => arrayAt packet i) (List.range (q.length * 2))
      HmcQueue.zero.packet
    let tokens ← postedRsp s.cmcs s.tokens q.head
    let xbar := { xbar with rqst := xbar.rqst.set target ⟨.valid, words⟩ }
    return (0, { s.withXbar q.cub q.slid.toNat xbar with tokens })

/-- `hmcsim_send` -/
def send (s : HMCSim c) : Option (List UInt64) → Outcome (Int × HMCSim c)
  | none => return (-1, s)
  | some packet => do
    let header ← arrayAt packet 0
    let tLen := (field header 7 0x1F).toNat * 2
    let tail ← arrayAt packet ((tLen : Int) - 1)
    let q : Request := ⟨header, tail⟩
    if c.numDevs + 1 < q.cub then return (-1, s)
    else if q.cub = c.numDevs then return (-1, s)
    else s.atHost q.cub q.slid.toNat (-1, s) (s.inject packet q)

/-- The end of `hmcsim_recv`, from the search for a response on. -/
def extract (s : HMCSim c) (dev link : ℕ) (packet : Option (List UInt64)) (xbar : Xbar c) :
    Outcome (Int × HMCSim c × Option (List UInt64)) :=
  match lastFound xbar.rsp .valid with
  | none => return (hmcStall, s, packet)
  | some target => do
    let words ← deref packet
    let words ← assignAll (access .indexOutOfRange (xbar.rsp.get target).packet)
      (List.range maxUqPacket) words
    let xbar := { xbar with rsp := xbar.rsp.set target .zero }
    return (0, s.withXbar dev link xbar, some words)

/-- `hmcsim_recv`, with the array of the caller that it fills. -/
def recv (s : HMCSim c) (dev link : ℕ) (packet : Option (List UInt64)) :
    Outcome (Int × HMCSim c × Option (List UInt64)) :=
  if c.numDevs < dev then return (-1, s, packet)
  else if c.numLinks < link then return (-1, s, packet)
  else s.atHost dev link (-1, s, packet) (s.extract dev link packet)

/-! ### What they should do -/

/-- A step at a link that leads to the host: only its crossbar and the tokens change. -/
structure ActsOn (s s' : HMCSim c) (dev : Fin c.numDevs) (link : Fin c.numLinks) : Prop where
  host : (s.devs.get dev).hostLinks.get link = true
  devs : ∀ d ≠ dev, s'.devs.get d = s.devs.get d
  xbar : ∀ l ≠ link, (s'.devs.get dev).xbar.get l = (s.devs.get dev).xbar.get l
  rest : s'.devs.get dev = { s.devs.get dev with xbar := (s'.devs.get dev).xbar }
  cmcs : s'.cmcs = s.cmcs

/-- The code is an error or a stall and nothing has changed, or an existing link has been acted on. -/
def Validated (s : HMCSim c) (code : Int) (s' : HMCSim c) : Prop :=
  (code = -1 ∨ code = hmcStall) ∧ s' = s ∨ code = 0 ∧ ∃ dev link, s.ActsOn s' dev link

/-- The device and the link exist, and if the link leads to the host and a slot of its crossbar is
found, the rest holds. -/
def Reaches (s : HMCSim c) (dev link : ℕ) (found : Xbar c → Prop) (rest : Prop) : Prop :=
  ∃ (hd : dev < c.numDevs) (hl : link < c.numLinks),
    (s.devs.get ⟨dev, hd⟩).hostLinks.get ⟨link, hl⟩ = true →
      found ((s.devs.get ⟨dev, hd⟩).xbar.get ⟨link, hl⟩) → rest

/-- The packet has its header and its tail, and it is refused, or its link exists. There it is no host's,
or full, or the packet fits a slot and the tokens. -/
def Sendable (s : HMCSim c) (packet : Option (List UInt64)) : Prop :=
  ∀ words, packet = some words → ∃ q : Request,
    words[0]? = some q.head ∧ 1 ≤ q.length ∧ words[q.length * 2 - 1]? = some q.tail ∧
      (c.numDevs + 1 < q.cub ∨ q.cub = c.numDevs ∨
        s.Reaches q.cub q.slid.toNat (fun xbar => ∃ i, (xbar.rqst.get i).valid = .invalid)
          (q.length ≤ 17 ∧ TokenFits s.cmcs q.head))

/-- The link is refused, or it exists. There it is no host's, or has no response, or the array has room
for one. -/
def Receivable (s : HMCSim c) (dev link : ℕ) (packet : Option (List UInt64)) : Prop :=
  c.numDevs < dev ∨ c.numLinks < link ∨
    s.Reaches dev link (fun xbar => ∃ i, (xbar.rsp.get i).valid = .valid)
      (∃ words, packet = some words ∧ maxUqPacket ≤ words.length)

/-! ### A link -/

variable {s : HMCSim c} {dev link : ℕ}

theorem devs_withXbar (xbar : Xbar c) (d : Fin c.numDevs) :
    (s.withXbar dev link xbar).devs.get d =
      if d.val = dev then
        { s.devs.get d with xbar := (s.devs.get d).xbar.mapIdx fun l y => if l = link then xbar else y }
      else s.devs.get d :=
  Vector.getElem_mapIdx d.isLt

/-- A step at a link changes its crossbar. -/
theorem actsOn_withXbar {hd : dev < c.numDevs} {hl : link < c.numLinks}
    (hhost : (s.devs.get ⟨dev, hd⟩).hostLinks.get ⟨link, hl⟩ = true) (xbar : Xbar c) (tokens : Tokens) :
    s.ActsOn { s.withXbar dev link xbar with tokens } ⟨dev, hd⟩ ⟨link, hl⟩ where
  host := hhost
  devs := by
    intro d hne
    exact (devs_withXbar xbar d).trans (if_neg fun h => hne (Fin.ext h))
  xbar := by
    intro l hne
    change ((s.withXbar dev link xbar).devs.get ⟨dev, hd⟩).xbar.get l = _
    rw [devs_withXbar, if_pos rfl]
    exact (Vector.getElem_mapIdx l.isLt).trans (if_neg fun h => hne (Fin.ext h))
  rest := by
    change (s.withXbar dev link xbar).devs.get ⟨dev, hd⟩ =
      { s.devs.get ⟨dev, hd⟩ with xbar := ((s.withXbar dev link xbar).devs.get ⟨dev, hd⟩).xbar }
    rw [devs_withXbar, if_pos rfl]
  cmcs := rfl

variable {β : Type} {refused : β} {k : Xbar c → Outcome β} {P : β → Prop}

theorem atHost_eq (hd : dev < c.numDevs) (hl : link < c.numLinks) :
    s.atHost dev link refused k =
      if (s.devs.get ⟨dev, hd⟩).hostLinks.get ⟨link, hl⟩ then k ((s.devs.get ⟨dev, hd⟩).xbar.get ⟨link, hl⟩)
      else .ok refused := by
  unfold atHost
  rw [access_of_lt hd, Outcome.ok_bind, access_of_lt hl, Outcome.ok_bind, access_of_lt hl,
    Outcome.ok_bind]
  rfl

theorem atHost_ne_ok (h : ¬ (dev < c.numDevs ∧ link < c.numLinks)) (r : β) :
    s.atHost dev link refused k ≠ .ok r := by
  unfold atHost
  by_cases hd : dev < c.numDevs
  · have hl : c.numLinks ≤ link := Nat.not_lt.mp fun hl => h ⟨hd, hl⟩
    rw [access_of_lt hd, Outcome.ok_bind, access_of_le hl]
    intro heq
    cases heq
  · rw [access_of_le (Nat.not_lt.mp hd)]
    intro heq
    cases heq

/-- **A step at a link** ends well when the link exists, and what is done there ends well if the link
leads to the host and a slot is found. -/
theorem atHost_iff {found : Xbar c → Prop} {rest : Prop} (hrefused : P refused)
    (hlost : ∀ xbar, ¬ found xbar → ∃ r, k xbar = .ok r ∧ P r)
    (hfound : ∀ (hd : dev < c.numDevs) (hl : link < c.numLinks),
      (s.devs.get ⟨dev, hd⟩).hostLinks.get ⟨link, hl⟩ = true →
        found ((s.devs.get ⟨dev, hd⟩).xbar.get ⟨link, hl⟩) →
          ((∃ r, k ((s.devs.get ⟨dev, hd⟩).xbar.get ⟨link, hl⟩) = .ok r ∧ P r) ↔ rest)) :
    (∃ r, s.atHost dev link refused k = .ok r ∧ P r) ↔ s.Reaches dev link found rest := by
  by_cases h : dev < c.numDevs ∧ link < c.numLinks
  · obtain ⟨hd, hl⟩ := h
    rw [atHost_eq hd hl]
    have hreaches : s.Reaches dev link found rest ↔
        ((s.devs.get ⟨dev, hd⟩).hostLinks.get ⟨link, hl⟩ = true →
          found ((s.devs.get ⟨dev, hd⟩).xbar.get ⟨link, hl⟩) → rest) := by
      constructor
      · rintro ⟨_, _, h⟩
        exact h
      · intro h
        exact ⟨hd, hl, h⟩
    rw [hreaches]
    by_cases hhost : (s.devs.get ⟨dev, hd⟩).hostLinks.get ⟨link, hl⟩ = true
    · rw [if_pos hhost]
      by_cases hslot : found ((s.devs.get ⟨dev, hd⟩).xbar.get ⟨link, hl⟩)
      · rw [hfound hd hl hhost hslot]
        exact ⟨fun h _ _ => h, fun h => h hhost hslot⟩
      · exact iff_of_true (hlost _ hslot) fun _ h => absurd h hslot
    · rw [if_neg hhost]
      exact iff_of_true ⟨refused, rfl, hrefused⟩ fun h => absurd h hhost
  · refine iff_of_false ?_ ?_
    · rintro ⟨r, hr, -⟩
      exact atHost_ne_ok h r hr
    · rintro ⟨hd, hl, -⟩
      exact h ⟨hd, hl⟩

/-! ### Sending -/

/-- The words of a packet are copied when they fit the slot. -/
theorem copy_returns {packet : List UInt64} {n : ℕ} (hn : n ≤ packet.length) (words : Words) :
    (∃ words', copy .indexOutOfRange (fun i => arrayAt packet i) (List.range n) words = .ok words') ↔
      n ≤ maxUqPacket := by
  by_cases hle : n ≤ maxUqPacket
  · refine iff_of_true ?_ hle
    have hl : ∀ i ∈ List.range n, i < maxUqPacket ∧
        arrayAt packet (i : Int) = .ok (packet.getD i 0) := by
      intro i hi
      have hlt : i < packet.length := (List.mem_range.mp hi).trans_le hn
      refine ⟨(List.mem_range.mp hi).trans_le hle, arrayAt_eq_ok.mpr ⟨Int.natCast_nonneg i, ?_⟩⟩
      simp [hlt]
    obtain ⟨words', h, -⟩ := copy_eq_ok words hl
    exact ⟨words', h⟩
  · refine iff_of_false ?_ hle
    rintro ⟨words', h⟩
    have hmem : maxUqPacket ∈ List.range n := List.mem_range.mpr (Nat.not_le.mp hle)
    exact copy_ne_ok hmem le_rfl words' h

variable {packet : List UInt64} {q : Request} {xbar : Xbar c}

theorem refused_validated : s.Validated (-1) s := Or.inl ⟨Or.inl rfl, rfl⟩

theorem stalled_validated : s.Validated hmcStall s := Or.inl ⟨Or.inr rfl, rfl⟩

/-- A packet is put into a slot when it fits there and its token is found. -/
theorem inject_iff {hd : q.cub < c.numDevs} {hl : q.slid.toNat < c.numLinks}
    (hhost : (s.devs.get ⟨q.cub, hd⟩).hostLinks.get ⟨q.slid.toNat, hl⟩ = true)
    (hfound : ∃ i, (xbar.rqst.get i).valid = .invalid) (hlength : q.length * 2 ≤ packet.length) :
    (∃ r, s.inject packet q xbar = .ok r ∧ s.Validated r.1 r.2) ↔
      q.length ≤ 17 ∧ TokenFits s.cmcs q.head := by
  obtain ⟨target, htarget⟩ : ∃ target, lastFound xbar.rqst .invalid = some target := by
    apply Option.ne_none_iff_exists'.mp
    rw [Ne, lastFound_eq_none]
    push Not
    exact hfound
  have hwords : q.length ≤ 17 ↔ q.length * 2 ≤ maxUqPacket := by
    change _ ↔ _ ≤ 34
    omega
  unfold inject
  rw [htarget, hwords, ← copy_returns hlength HmcQueue.zero.packet,
    ← postedRsp_returns s.tokens]
  dsimp only
  constructor
  · rintro ⟨r, h, -⟩
    obtain ⟨words, hcopy, h⟩ := Outcome.bind_eq_ok.mp h
    obtain ⟨tokens, htokens, -⟩ := Outcome.bind_eq_ok.mp h
    exact ⟨⟨words, hcopy⟩, ⟨tokens, htokens⟩⟩
  · rintro ⟨⟨words, hcopy⟩, ⟨tokens, htokens⟩⟩
    rw [hcopy, Outcome.ok_bind, htokens, Outcome.ok_bind]
    exact ⟨_, rfl, Or.inr ⟨rfl, _, _, actsOn_withXbar hhost _ tokens⟩⟩

/-- A packet with a header and a tail goes through the checks. -/
theorem send_of_words (hhead : packet[0]? = some q.head) (hpos : 1 ≤ q.length)
    (htail : packet[q.length * 2 - 1]? = some q.tail) :
    s.send (some packet) =
      if c.numDevs + 1 < q.cub then .ok (-1, s)
      else if q.cub = c.numDevs then .ok (-1, s)
      else s.atHost q.cub q.slid.toNat (-1, s) (s.inject packet q) := by
  have hindex : (((q.length * 2 : ℕ) : Int) - 1).toNat = q.length * 2 - 1 := by omega
  have hfirst : arrayAt packet 0 = .ok q.head := arrayAt_eq_ok.mpr ⟨le_rfl, hhead⟩
  have hlast : arrayAt packet (((q.length * 2 : ℕ) : Int) - 1) = .ok q.tail :=
    arrayAt_eq_ok.mpr ⟨by omega, by rw [hindex, htail]⟩
  change (arrayAt packet 0 >>= _) = _
  rw [hfirst, Outcome.ok_bind]
  change (arrayAt packet (((q.length * 2 : ℕ) : Int) - 1) >>= _) = _
  rw [hlast, Outcome.ok_bind]
  rfl

/-- A packet that is not refused with an exception has a header and a tail. -/
theorem words_of_send {r : Int × HMCSim c} (h : s.send (some packet) = .ok r) :
    ∃ q : Request, packet[0]? = some q.head ∧ 1 ≤ q.length ∧
      packet[q.length * 2 - 1]? = some q.tail := by
  obtain ⟨header, hheader, h⟩ := Outcome.bind_eq_ok.mp h
  obtain ⟨tail, htail, -⟩ := Outcome.bind_eq_ok.mp h
  obtain ⟨-, hhead⟩ := arrayAt_eq_ok.mp hheader
  obtain ⟨hnonneg, htail⟩ := arrayAt_eq_ok.mp htail
  have hpos : 1 ≤ (field header 7 0x1F).toNat := by omega
  refine ⟨⟨header, tail⟩, hhead, hpos, ?_⟩
  have hindex : (((field header 7 0x1F).toNat * 2 : ℕ) - 1 : Int).toNat =
      (field header 7 0x1F).toNat * 2 - 1 := by
    omega
  exact hindex ▸ htail

/-- **Sending** ends well exactly when the packet is sendable. -/
theorem send_iff (packet : Option (List UInt64)) :
    (∃ r, s.send packet = .ok r ∧ s.Validated r.1 r.2) ↔ s.Sendable packet := by
  cases packet with
  | none =>
    refine iff_of_true ⟨(-1, s), rfl, refused_validated⟩ ?_
    intro words hnull
    cases hnull
  | some packet =>
    have hsendable (q : Request) (hhead : packet[0]? = some q.head) (hpos : 1 ≤ q.length)
        (htail : packet[q.length * 2 - 1]? = some q.tail) :
        (∃ r, s.send (some packet) = .ok r ∧ s.Validated r.1 r.2) ↔
          (c.numDevs + 1 < q.cub ∨ q.cub = c.numDevs ∨
            s.Reaches q.cub q.slid.toNat (fun xbar => ∃ i, (xbar.rqst.get i).valid = .invalid)
              (q.length ≤ 17 ∧ TokenFits s.cmcs q.head)) := by
      rw [send_of_words hhead hpos htail]
      by_cases hfar : c.numDevs + 1 < q.cub
      · rw [if_pos hfar]
        exact iff_of_true ⟨_, rfl, refused_validated⟩ (Or.inl hfar)
      · by_cases hself : q.cub = c.numDevs
        · rw [if_neg hfar, if_pos hself]
          exact iff_of_true ⟨_, rfl, refused_validated⟩ (Or.inr (Or.inl hself))
        · have hlength : q.length * 2 ≤ packet.length := by
            have hlt := (List.getElem?_eq_some_iff.mp htail).1
            omega
          rw [if_neg hfar, if_neg hself, or_iff_right hfar, or_iff_right hself]
          apply atHost_iff (P := fun r : Int × HMCSim c => s.Validated r.1 r.2) refused_validated
          · intro xbar hlost
            refine ⟨(hmcStall, s), ?_, stalled_validated⟩
            unfold inject
            rw [lastFound_eq_none.mpr (not_exists.mp hlost)]
            rfl
          · intro hd hl hhost hfound
            exact inject_iff hhost hfound hlength
    constructor
    · rintro ⟨r, hr, hvalidated⟩ words hwords
      cases hwords
      obtain ⟨q, hhead, hpos, htail⟩ := words_of_send hr
      exact ⟨q, hhead, hpos, htail, (hsendable q hhead hpos htail).mp ⟨r, hr, hvalidated⟩⟩
    · intro h
      obtain ⟨q, hhead, hpos, htail, hroute⟩ := h packet rfl
      exact (hsendable q hhead hpos htail).mpr hroute

/-- **A packet in a queue** has 1 to 17 flits. -/
theorem accepted_of_send {s' : HMCSim c} (h : s.send (some packet) = .ok (0, s')) :
    ∃ q : Request, packet[0]? = some q.head ∧ 1 ≤ q.length ∧ q.length ≤ 17 := by
  obtain ⟨q, hhead, hpos, htail⟩ := words_of_send h
  have hlength : q.length * 2 ≤ packet.length := by
    have hlt := (List.getElem?_eq_some_iff.mp htail).1
    omega
  have hcode {code : Int} (hne : code ≠ 0) : (Except.ok (code, s) : Outcome _) ≠ .ok (0, s') := by
    intro heq
    cases heq
    exact hne rfl
  rw [send_of_words hhead hpos htail] at h
  refine ⟨q, hhead, hpos, ?_⟩
  -- every way out but the last one has another code
  split_ifs at h
  · exact absurd h (hcode (by decide))
  · exact absurd h (hcode (by decide))
  · by_cases hreach : q.cub < c.numDevs ∧ q.slid.toNat < c.numLinks
    · rw [atHost_eq hreach.1 hreach.2] at h
      split_ifs at h
      · unfold inject at h
        split at h
        · exact absurd h (hcode (by decide))
        · obtain ⟨words, hcopy, -⟩ := Outcome.bind_eq_ok.mp h
          have hfits : q.length * 2 ≤ 34 := (copy_returns hlength _).mp ⟨words, hcopy⟩
          omega
      · exact absurd h (hcode (by decide))
    · exact absurd h (atHost_ne_ok hreach _)

/-! ### Receiving -/

/-- A response is given to the caller when the array has room for it. -/
theorem extract_iff {packet : Option (List UInt64)} {hd : dev < c.numDevs} {hl : link < c.numLinks}
    (hhost : (s.devs.get ⟨dev, hd⟩).hostLinks.get ⟨link, hl⟩ = true)
    (hfound : ∃ i, (xbar.rsp.get i).valid = .valid) :
    (∃ r, s.extract dev link packet xbar = .ok r ∧ s.Validated r.1 r.2.1) ↔
      ∃ words, packet = some words ∧ maxUqPacket ≤ words.length := by
  obtain ⟨target, htarget⟩ : ∃ target, lastFound xbar.rsp .valid = some target := by
    apply Option.ne_none_iff_exists'.mp
    rw [Ne, lastFound_eq_none]
    push Not
    exact hfound
  -- The slot holds as many words as are copied; only the array of the caller can be too short.
  have hread : ∀ i ∈ List.range maxUqPacket,
      access .indexOutOfRange (xbar.rsp.get target).packet i =
        .ok ((xbar.rsp.get target).packet.toList.getD i 0) := by
    intro i hi
    have hlt := List.mem_range.mp hi
    rw [access_of_lt hlt]
    simp [hlt]
  have hroom (words : List UInt64) :
      (∃ words', assignAll (access .indexOutOfRange (xbar.rsp.get target).packet)
        (List.range maxUqPacket) words = .ok words') ↔ maxUqPacket ≤ words.length := by
    rw [assignAll_returns hread]
    constructor
    · intro h
      exact h (maxUqPacket - 1) (by decide)
    · intro h i hi
      exact (List.mem_range.mp hi).trans_le h
  unfold extract
  rw [htarget]
  dsimp only
  cases packet with
  | none =>
    refine iff_of_false ?_ ?_
    · rintro ⟨r, h, -⟩
      cases h
    · rintro ⟨words, hnull, -⟩
      cases hnull
  | some words =>
    change (∃ r, (assignAll _ _ words >>= _) = .ok r ∧ _) ↔ _
    constructor
    · rintro ⟨r, h, -⟩
      obtain ⟨words', hassign, -⟩ := Outcome.bind_eq_ok.mp h
      exact ⟨words, rfl, (hroom words).mp ⟨words', hassign⟩⟩
    · rintro ⟨_, hwords, hle⟩
      cases hwords
      obtain ⟨words', hassign⟩ := (hroom words).mpr hle
      rw [hassign, Outcome.ok_bind]
      exact ⟨_, rfl, Or.inr ⟨rfl, _, _, actsOn_withXbar hhost _ s.tokens⟩⟩

/-- **Receiving** ends well exactly when the arguments are receivable. -/
theorem recv_iff (dev link : ℕ) (packet : Option (List UInt64)) :
    (∃ r, s.recv dev link packet = .ok r ∧ s.Validated r.1 r.2.1) ↔ s.Receivable dev link packet := by
  unfold recv Receivable
  by_cases hdev : c.numDevs < dev
  · rw [if_pos hdev]
    exact iff_of_true ⟨_, rfl, refused_validated⟩ (Or.inl hdev)
  · by_cases hlink : c.numLinks < link
    · rw [if_neg hdev, if_pos hlink]
      exact iff_of_true ⟨_, rfl, refused_validated⟩ (Or.inr (Or.inl hlink))
    · rw [if_neg hdev, if_neg hlink, or_iff_right hdev, or_iff_right hlink]
      apply atHost_iff (P := fun r : Int × HMCSim c × Option (List UInt64) => s.Validated r.1 r.2.1)
        refused_validated
      · intro xbar hlost
        refine ⟨(hmcStall, s, packet), ?_, stalled_validated⟩
        unfold extract
        rw [lastFound_eq_none.mpr (not_exists.mp hlost)]
        rfl
      · intro hd hl hhost hfound
        exact extract_iff hhost hfound

/-! ### All arguments -/

/-- **When the arguments are handled**: a packet that is sent, and a link that is asked for a response,
are refused or left or reach a link that exists. -/
theorem validated_iff (s : HMCSim c) :
    (∀ packet, (∃ r, s.send packet = .ok r ∧ s.Validated r.1 r.2) ↔ s.Sendable packet) ∧
      ∀ dev link packet, (∃ r, s.recv dev link packet = .ok r ∧ s.Validated r.1 r.2.1) ↔
        s.Receivable dev link packet :=
  ⟨send_iff, recv_iff⟩

/-- The state of a cube of four links without packets. -/
def idle : HMCSim fourLinks where
  devs := Vector.replicate _ {
    hostLinks := Vector.replicate _ true
    xbar := Vector.replicate _ ⟨Vector.replicate _ .zero, Vector.replicate _ .zero⟩
    vaults := Vector.replicate _
      ⟨Vector.replicate _ .zero, Vector.replicate _ .zero, Vector.replicate _ {}⟩
    addressConfig := 0 }
  cmcs := Vector.replicate _ {}
  tokens := Vector.replicate _ 0

/-- The packet of a read for the cube two, one past the host. -/
def pastHost : List UInt64 := [0x40000000000000B0, 0]

/-- A packet for a cube that does not exist stops the simulator. -/
theorem not_validated_pastHost :
    ¬ ∀ (c : Cube) (s : HMCSim c) (packet : Option (List UInt64)),
      ∃ r, s.send packet = .ok r ∧ s.Validated r.1 r.2 := by
  intro h
  obtain ⟨r, hr, -⟩ := h fourLinks idle (some pastHost)
  have hhead : pastHost[0]? = some 0x40000000000000B0 := by decide
  have hsend := idle.send_of_words (q := ⟨0x40000000000000B0, 0⟩) hhead (by decide) (by decide)
  rw [hsend, if_neg (by decide), if_neg (by decide)] at hr
  exact atHost_ne_ok (by decide) r hr

end HMCSim

end PIMSim.HMC
