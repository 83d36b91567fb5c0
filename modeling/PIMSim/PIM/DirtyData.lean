import PIMSim.Library.Queues
import PIMSim.PIM.Tidy

/-!
# Dirty data

A block that a write has modified is dirty in a cache, or in a request that writes it, until a write
of it reaches the memory. The code gives data up in five places: a write merges with a request of the
window or is retried without the controller, the first-level cache drops a dirty line, the controller
refuses the request of a flush, and a memory object merges a write into another request. The block is
lost where nothing else covers it at that moment.

## Main definitions

* `Modified`: a processor wrote the block after it was last written to the memory
* `Covered`: the block is dirty in a cache, or in a request that writes it
* `KeepsData`: what a transition gives up is covered when it comes to it

## Main results

* `Core.Effect.keeps`: what an effect keeps, and what it gives up
* `covered_step`: a transition that gives up covered blocks only keeps the modified blocks covered
* `no_dirty_data_lost`: so does every run of such transitions
-/

namespace PIMSim

open CSharp Transition CacheArray Sweep Queues

variable {Obj : Type} {cfg : Config} {w : Waiver} {info : List (Region Obj)}

namespace Core

variable {c c' : Core}

/-- The block is in a request that writes it. -/
def Writing (c : Core) (b : UInt64) : Prop :=
  (∃ req ∈ c.proc.writebackReq, req.blockAddr = b) ∨
    ∃ req ∈ c.world.mctrl.waitQueue, req.writes = true ∧ req.blockAddr = b

/-- The block is dirty in the shared cache, or in a request that writes it. -/
def SharedHolds (c : Core) (b : UInt64) : Prop := Dirty c.world.sharedCache b ∨ c.Writing b

/-- The requests of the write-back queue write their blocks. -/
def AllWrite (c : Core) : Prop := ∀ req ∈ c.proc.writebackReq, req.writes = true

/-- From `c` to `c'` every block stays held, in the stores of the processor and in those that the
processors share, or is given up under the waiver. The requests stay. -/
structure Keeps (w : Waiver) (c c' : Core) : Prop where
  l1 : ∀ b, b ≠ NULL → Dirty c.proc.l1Cache b → c'.Holds b ∨ w.dropped b ∨ w.refused b
  shared : ∀ b, b ≠ NULL → Dirty c.world.sharedCache b → c'.SharedHolds b ∨ w.refused b
  writing : ∀ b, c.Writing b → c'.Writing b
  allWrite : c.AllWrite → c'.AllWrite
  sendQueue : c'.world.mctrl.sendQueue = c.world.mctrl.sendQueue

/-- Changes that keep the dirty lines. -/
theorem Keeps.of_dirty (hl1 : ∀ b, b ≠ NULL → Dirty c.proc.l1Cache b → Dirty c'.proc.l1Cache b)
    (hshared : ∀ b, b ≠ NULL → Dirty c.world.sharedCache b → Dirty c'.world.sharedCache b)
    (hwriting : ∀ b, c.Writing b → c'.Writing b) (hall : c.AllWrite → c'.AllWrite)
    (hsend : c'.world.mctrl.sendQueue = c.world.mctrl.sendQueue) : Keeps w c c' :=
  ⟨fun b hb hd => .inl (.inl (hl1 b hb hd)), fun b hb hd => .inl (.inl (hshared b hb hd)),
    hwriting, hall, hsend⟩

/-- What is queued is in a request, unless its flush may be refused. -/
theorem Queued.writing {b : UInt64} (h : c.Queued w b) : c.Writing b ∨ w.refused b := by
  rcases h with h | h | h
  · exact .inl (.inl h)
  · exact .inl (.inr h)
  · exact .inr h

theorem withWaiting_writing {req : ProcRequest} {b : UInt64} (h : c.Writing b) :
    (c.withWaiting req).Writing b := by
  rcases h with h | ⟨r, hr, hw, hb⟩
  · exact .inl h
  · exact .inr ⟨r, List.mem_append_left _ hr, hw, hb⟩

/-- An evicted block is queued for write-back, and the others stay. -/
theorem evict_keeps {b v : UInt64} {t : RequestType} {shared : SharedCache} (htidy : c.Tidy)
    (hb : ∀ e ∈ c.world.sharedCache.lines (b.toNat % c.world.sharedCache.maxSet),
      (e.blockAddr = b && e.valid) = false)
    (hadd : SharedCache.add c.world.sharedCache b t c.proc.pid = .ok (v, shared))
    (hq : ((c.withShared shared).note (.evicted v)).queueWriteback cfg v = .ok c') :
    Keeps w c c' := by
  have habsent := htidy.absent hb
  obtain ⟨-, -, -, -, hdirty⟩ := SharedCache.add_spec hadd habsent htidy.marked
  obtain ⟨-, rfl⟩ := queueWriteback_eq_ok.mp hq
  have hold : ∀ req ∈ c.proc.writebackReq, req ∈ queued c.proc.pid v c.proc.writebackReq := by
    intro req hreq
    unfold queued
    split_ifs
    · exact hreq
    · exact List.mem_append_left _ hreq
  refine ⟨fun x _ hd => .inl (.inl hd), fun x hx hd => .inl ?_, fun x hd => ?_,
    fun hall req hreq => ?_, rfl⟩
  · -- the dirty block that leaves is the one queued
    rcases hdirty x hx hd with rfl | hd
    · exact .inr (.inl (mem_queued ..))
    · exact .inl hd
  · rcases hd with ⟨req, hreq, hrb⟩ | hd
    · exact .inl ⟨req, hold req hreq, hrb⟩
    · exact .inr hd
  · replace hreq : req ∈ queued c.proc.pid v c.proc.writebackReq := hreq
    unfold queued at hreq
    split_ifs at hreq
    · exact hall req hreq
    · rcases List.mem_append.mp hreq with hreq | hreq
      · exact hall req hreq
      · rw [List.mem_singleton.mp hreq]
        rfl

/-- The head of the write-back queue moves to the wait queue. -/
theorem writeBack_keeps (hall : c.AllWrite) : Keeps w c (c.writeBackOne cfg) := by
  unfold writeBackOne handleWritebackQueue
  cases hreqs : c.proc.writebackReq with
  | nil => exact .of_dirty (fun _ _ => id) (fun _ _ => id) (fun _ => id) id rfl
  | cons req reqs =>
    -- the controller refuses the head, or takes it: in the wait queue it has to write its block
    rcases addToMctrl_cases cfg c req with hadd | hadd
    · simp only [hadd]
      exact .of_dirty (fun _ _ => id) (fun _ _ => id) (fun _ => id) id rfl
    · simp only [hadd]
      refine .of_dirty (fun _ _ => id) (fun _ _ => id) (fun b hd => ?_) (fun _ r hr => ?_) rfl
      · rcases hd with ⟨r, hr, hrb⟩ | ⟨r, hr, hrw, hrb⟩
        · rw [hreqs] at hr
          rcases List.mem_cons.mp hr with rfl | hr
          · refine .inr ⟨r, ?_, hall r (by simp [hreqs]), hrb⟩
            exact List.mem_append_right _ (List.mem_singleton_self r)
          · refine .inl ⟨r, ?_, hrb⟩
            show r ∈ c.proc.writebackReq.tail
            rw [hreqs]
            exact hr
        · exact .inr ⟨r, List.mem_append_left _ hr, hrw, hrb⟩
      · exact hall r (List.mem_of_mem_tail hr)

theorem queueFlush_keeps (item : ProcRequest) (hitem : item.writes = true) :
    Keeps w c (c.queueFlush cfg item) := by
  unfold queueFlush
  split_ifs
  · -- with a write-back queue the request joins it
    refine .of_dirty (fun _ _ => id) (fun _ _ => id) (fun b hd => ?_) (fun hall r hr => ?_) rfl
    · rcases hd with ⟨r, hr, hrb⟩ | hd
      · exact .inl ⟨r, List.mem_append_left _ hr, hrb⟩
      · exact .inr hd
    · rcases List.mem_append.mp hr with hr | hr
      · exact hall r hr
      · rw [List.mem_singleton.mp hr]
        exact hitem
  · -- without one the controller refuses the request or takes it, and its answer is not used
    rcases addToMctrl_cases cfg c item with hadd | hadd
    · simp only [hadd]
      exact .of_dirty (fun _ _ => id) (fun _ _ => id) (fun _ => id) id rfl
    · simp only [hadd]
      exact .of_dirty (fun _ _ => id) (fun _ _ => id) (fun _ => withWaiting_writing) id rfl

/-- **Every effect** keeps the blocks held, but for those that the waiver names. -/
theorem Effect.keeps (heffect : Effect cfg w c c') (htidy : c.Tidy) (hall : c.AllWrite) :
    Keeps w c c' := by
  cases heffect with
  | quiet hsame =>
    refine .of_dirty (fun b _ hd => ?_) (fun b _ hd => ?_) (fun b hd => ?_) (fun hall => ?_)
      (by rw [hsame.mctrl])
    · unfold Dirty at hd ⊢
      rw [hsame.l1.1, hsame.l1.2]
      exact hd
    · unfold Dirty at hd ⊢
      rw [hsame.shared.1, hsame.shared.2]
      exact hd
    · unfold Writing
      rw [hsame.writeback, hsame.mctrl]
      exact hd
    · unfold AllWrite
      rw [hsame.writeback]
      exact hall
  | note => exact .of_dirty (fun _ _ => id) (fun _ _ => id) (fun _ => id) id rfl
  | searchL1 hsearch =>
    obtain ⟨l1, hone, rfl⟩ := searchL1_eq_ok hsearch
    obtain ⟨-, -, -, hdirty, -⟩ := search_spec hone (by simp)
    exact .of_dirty (fun b _ => hdirty b) (fun _ _ => id) (fun _ => id) id rfl
  | searchShared hsearch =>
    obtain ⟨shared, hone, rfl⟩ := searchShared_eq_ok hsearch
    obtain ⟨-, -, -, hdirty, -⟩ := search_spec hone fun e he => by simp_all
    exact .of_dirty (fun _ _ => id) (fun b _ => hdirty b) (fun _ => id) id rfl
  | @fillL1 b v t l1 hb hadd hv =>
    obtain ⟨-, -, -, hdirty⟩ := Cache.add_spec hadd hb
    -- The dirty line that leaves is dropped.
    have hl1 : ∀ x, x ≠ NULL → Dirty c.proc.l1Cache x → Dirty l1 x ∨ w.dropped x := by
      intro x hx hd
      rcases hdirty x hx hd with rfl | hd
      · exact .inr (hv hx)
      · exact .inl hd
    split_ifs
    · exact ⟨fun x hx hd => (hl1 x hx hd).imp .inl .inl, fun x _ hd => .inl (.inl hd), fun _ => id,
        id, rfl⟩
    · exact ⟨fun x hx hd => (hl1 x hx hd).imp .inl .inl, fun x _ hd => .inl (.inl hd), fun _ => id,
        id, rfl⟩
  | @fillShared b t shared hb hadd =>
    obtain ⟨-, -, -, -, hdirty⟩ := SharedCache.add_spec hadd (htidy.absent hb) htidy.marked
    refine .of_dirty (fun _ _ => id) (fun x hx hd => ?_) (fun _ => id) id rfl
    rcases hdirty x hx hd with rfl | hd
    · exact absurd rfl hx
    · exact hd
  | evict hb hadd hq => exact evict_keeps htidy hb hadd hq
  | @removeL1 b l1 r hq hremove =>
    obtain ⟨-, -, -, hdirty⟩ := remove_spec hremove
    refine ⟨fun x hx hd => ?_, fun x _ hd => .inl (.inl hd), fun _ => id, id, rfl⟩
    -- the removed block is in the request of its flush, unless that was refused
    by_cases hxb : x = b
    · rcases hq with hnull | hq
      · exact absurd (hxb.trans hnull) hx
      · subst hxb
        exact hq.writing.imp (fun hreq => .inr (.inr hreq)) .inr
    · exact .inl (.inl (hdirty x hxb hd))
  | @removeShared b shared r hq hremove =>
    obtain ⟨-, -, -, hdirty⟩ := remove_spec hremove
    refine ⟨fun x _ hd => .inl (.inl hd), fun x _ hd => ?_, fun _ => id, id, rfl⟩
    by_cases hxb : x = b
    · subst hxb
      exact hq.writing.imp_left .inr
    · exact .inl (.inl (hdirty x hxb hd))
  | queueFlush => exact queueFlush_keeps _ rfl
  | @send req =>
    rcases addToMctrl_cases cfg c req with hadd | hadd
    · rw [hadd]
      exact .of_dirty (fun _ _ => id) (fun _ _ => id) (fun _ => id) id rfl
    · rw [hadd]
      exact .of_dirty (fun _ _ => id) (fun _ _ => id) (fun _ => withWaiting_writing) id rfl
  | writeBack => exact writeBack_keeps hall
  | movedOn => exact .of_dirty (fun _ _ => id) (fun _ _ => id) (fun _ => id) id rfl

/-- The record grows, and a processor moves on only from a delivered instruction. -/
theorem Effect.acts (heffect : Effect cfg w c c') : ∃ as, c'.acts = c.acts ++ as ∧
    ∀ ins, .movedOn ins ∈ as → c.Delivered w ins := by
  cases heffect with
  | quiet hsame => exact ⟨[], by rw [hsame.acts, List.append_nil], by simp⟩
  | @note a hquiet =>
    refine ⟨[a], rfl, fun ins hins => ?_⟩
    rw [← List.mem_singleton.mp hins] at hquiet
    cases hquiet
  | searchL1 hsearch =>
    obtain ⟨l1, -, rfl⟩ := searchL1_eq_ok hsearch
    exact ⟨[], (List.append_nil _).symm, by simp⟩
  | searchShared hsearch =>
    obtain ⟨shared, -, rfl⟩ := searchShared_eq_ok hsearch
    exact ⟨[], (List.append_nil _).symm, by simp⟩
  | @fillL1 b v t l1 hb hadd =>
    split_ifs
    · exact ⟨[], (List.append_nil _).symm, by simp⟩
    · exact ⟨[.dropped v], rfl, by simp⟩
  | fillShared => exact ⟨[], (List.append_nil _).symm, by simp⟩
  | @evict _ b v t shared hb hadd hq =>
    obtain ⟨-, rfl⟩ := queueWriteback_eq_ok.mp hq
    exact ⟨[.evicted v], rfl, by simp⟩
  | removeL1 => exact ⟨[], (List.append_nil _).symm, by simp⟩
  | removeShared => exact ⟨[], (List.append_nil _).symm, by simp⟩
  -- A flush is recorded as made, or as refused by the controller; neither moves the processor on.
  | @queueFlush addr actualAddr =>
    unfold Core.queueFlush
    split_ifs
    · exact ⟨[.flushed addr], rfl, by simp⟩
    · rcases addToMctrl_cases cfg c (c.flushItem addr actualAddr) with hadd | hadd
      · rw [hadd]
        exact ⟨[.flushRefused addr], rfl, by simp⟩
      · rw [hadd]
        exact ⟨[.flushed addr], rfl, by simp⟩
  | @send req =>
    rcases addToMctrl_cases cfg c req with hadd | hadd <;> rw [hadd] <;>
      exact ⟨[], (List.append_nil _).symm, by simp⟩
  | writeBack =>
    unfold writeBackOne handleWritebackQueue
    cases c.proc.writebackReq with
    | nil => exact ⟨[], (List.append_nil _).symm, by simp⟩
    | cons req reqs =>
      rcases addToMctrl_cases cfg c req with hadd | hadd
      · simp only [hadd]
        exact ⟨[], (List.append_nil _).symm, by simp⟩
      · simp only [hadd]
        exact ⟨[.wroteBack req], rfl, by simp⟩
  | @movedOn ins hdelivered =>
    refine ⟨[.movedOn ins], rfl, fun ins' hins' => ?_⟩
    cases List.mem_singleton.mp hins'
    exact hdelivered

/-- The block is held, or given up under the waiver. -/
def Spared (w : Waiver) (c : Core) (b : UInt64) : Prop := c.Holds b ∨ w.dropped b ∨ w.refused b

/-- From `c₀` to `c` every block stays held or is given up under the waiver, and so are the blocks of
the writes that the processor moved on from. -/
structure Kept (w : Waiver) (c₀ c : Core) : Prop where
  tidy : c.Tidy
  allWrite : c.AllWrite
  sendQueue : c.world.mctrl.sendQueue = c₀.world.mctrl.sendQueue
  held : ∀ b, b ≠ NULL → c₀.Holds b → c.Spared w b
  shared : ∀ b, b ≠ NULL → c₀.SharedHolds b → c.SharedHolds b ∨ w.refused b
  writing : ∀ b, c₀.Writing b → c.Writing b
  acts : ∃ as, c.acts = c₀.acts ++ as ∧ ∀ ins, .movedOn ins ∈ as → ins.isMem = true →
    ins.type = .write → w.written ins.blockAddr ∧
      (ins.blockAddr ≠ NULL → c.Spared w ins.blockAddr ∨ w.unserved ins.blockAddr)

theorem Keeps.sharedHolds (h : Keeps w c c') {b : UInt64} (hb : b ≠ NULL) (hold : c.SharedHolds b) :
    c'.SharedHolds b ∨ w.refused b := by
  rcases hold with hd | hreq
  · exact h.shared b hb hd
  · exact .inl (.inr (h.writing b hreq))

theorem Keeps.spared (h : Keeps w c c') {b : UInt64} (hb : b ≠ NULL) (hold : c.Spared w b) :
    c'.Spared w b := by
  rcases hold with (hl1 | hshared) | hgiven
  · exact h.l1 b hb hl1
  · exact (h.sharedHolds hb hshared).imp .inr .inr
  · exact .inr hgiven

/-- **A sequence of effects** keeps the blocks held, but for those that the waiver names. -/
theorem Effects.kept {c₀ : Core} (heffects : Effects cfg w c₀ c) (htidy : c₀.Tidy)
    (hall : c₀.AllWrite) : Kept w c₀ c := by
  refine heffects.invariant (I := fun c => Kept w c₀ c) (fun c c' hkept heffect => ?_) ?_
  · obtain ⟨as, has, hold⟩ := hkept.acts
    obtain ⟨as', has', hmoved⟩ := heffect.acts
    have hkeeps := heffect.keeps hkept.tidy hkept.allWrite
    refine ⟨heffect.tidy hkept.tidy, hkeeps.allWrite hkept.allWrite,
      hkeeps.sendQueue.trans hkept.sendQueue,
      fun b hb hheld => hkeeps.spared hb (hkept.held b hb hheld), fun b hb hheld => ?_,
      fun b hreq => hkeeps.writing b (hkept.writing b hreq),
      as ++ as', by rw [has', has, List.append_assoc], fun ins hins hmem htype => ?_⟩
    · rcases hkept.shared b hb hheld with hheld | hrefused
      · exact hkeeps.sharedHolds hb hheld
      · exact .inr hrefused
    · rcases List.mem_append.mp hins with hins | hins
      · obtain ⟨hwritten, hspared⟩ := hold ins hins hmem htype
        exact ⟨hwritten, fun hb => (hspared hb).imp_left (hkeeps.spared hb)⟩
      · -- The processor moves on from a write, which is delivered.
        obtain ⟨hwritten, hheld⟩ := hmoved ins hins hmem htype
        exact ⟨hwritten, fun hb => hheld.imp_left fun hold => hkeeps.spared hb (.inl hold)⟩
  · exact ⟨htidy, hall, rfl, fun _ _ => .inl, fun _ _ => .inl, fun _ => id, [],
      (List.append_nil _).symm, nofun⟩

end Core

/-! ### The host -/

variable {host host' : Host} {memory : List MemRequest} {i k : ℕ} {b : UInt64}

/-- A memory request that writes its block. -/
def MemRequest.writes (m : MemRequest) : Bool := m.memtype = .write || m.memtype = .flush

/-- The processor `k` moved on from a write of the block, which has not been written to the memory
since. -/
def Modified (history : List Record) (k : ℕ) (b : UInt64) : Prop :=
  ∃ pre ins post, history = pre ++ .core k (.movedOn ins) :: post ∧ ins.isMem = true ∧
    ins.type = .write ∧ ins.blockAddr = b ∧ .written b ∉ post

/-- The block is in a request of the controller that writes it. -/
def Controller.Writes (c : Controller) (b : UInt64) : Prop :=
  (∃ req ∈ c.waitQueue, req.writes = true ∧ req.blockAddr = b) ∨
    ∃ m ∈ c.sendQueue.flatten, m.writes = true ∧ m.blockAddr = b

/-- A write of the host is in a memory object. -/
def InMemory (memory : List MemRequest) (b : UInt64) : Prop :=
  ∃ m ∈ memory, m.pim = false ∧ m.writes = true ∧ m.blockAddr = b

/-- The block is in a write-back queue, or in a request accepted by the controller that writes it. -/
def Requested (host : Host) (memory : List MemRequest) (b : UInt64) : Prop :=
  (∃ proc ∈ host.procs, ∃ req ∈ proc.writebackReq, req.blockAddr = b) ∨
    host.world.mctrl.Writes b ∨ InMemory memory b

/-- The block is dirty in the shared cache, or requested. -/
def Beyond (host : Host) (memory : List MemRequest) (b : UInt64) : Prop :=
  Dirty host.world.sharedCache b ∨ Requested host memory b

/-- **The block is covered**: it is dirty in the first-level cache of the processor `k` or in the
shared cache, or it is in a write-back queue, or in a request accepted by the controller that writes
it. -/
def Covered (host : Host) (memory : List MemRequest) (k : ℕ) (b : UInt64) : Prop :=
  (∃ proc, host.procs[k]? = some proc ∧ Dirty proc.l1Cache b) ∨ Beyond host memory b

instance : Decidable (Requested host memory b) := by
  unfold Requested Controller.Writes InMemory
  infer_instance

instance : Decidable (Beyond host memory b) := by
  unfold Beyond Dirty
  infer_instance

instance : Decidable (Covered host memory k b) := by
  unfold Covered Dirty
  exact inferInstanceAs (Decidable ((∃ proc ∈ host.procs[k]?, ∃ e ∈ proc.l1Cache.lines
    (b.toNat % proc.l1Cache.maxSet), e.blockAddr = b ∧ e.dirty = true) ∨ _))

/-- What the processors may give up as the host stands: a dirty line of a block that is held beyond
the first-level caches, the request of a flush whose block is requested, and the writes that
`unserved` names. A write is of a block. -/
def Host.waiver (host : Host) (memory : List MemRequest) (unserved : UInt64 → Prop) : Waiver where
  dropped := Beyond host memory
  refused := Requested host memory
  unserved := unserved
  written := fun b => b ≠ NULL

/-- Every modified block is covered. -/
structure DataSound (host : Host) (memory : List MemRequest) : Prop where
  tidy : host.Tidy
  paired : host.Paired
  allWrite : ∀ proc ∈ host.procs, ∀ req ∈ proc.writebackReq, req.writes = true
  covered : ∀ k b, Modified host.history k b → b ≠ NULL ∧ Covered host memory k b

/-- What a longer record says about a block. -/
theorem modified_append {history history' : List Record} (h : Modified (history ++ history') k b) :
    (Modified history k b ∧ .written b ∉ history') ∨ ∃ ins, .core k (.movedOn ins) ∈ history' ∧
      ins.isMem = true ∧ ins.type = .write ∧ ins.blockAddr = b := by
  obtain ⟨pre, ins, post, heq, hmem, htype, hb, hpost⟩ := h
  rcases List.append_eq_append_iff.mp heq with ⟨as, -, hm⟩ | ⟨as, hpre, hm⟩
  · exact .inr ⟨ins, by rw [hm]; simp, hmem, htype, hb⟩
  · cases as with
    | nil =>
      rw [List.nil_append] at hm
      exact .inr ⟨ins, by rw [← hm]; simp, hmem, htype, hb⟩
    | cons a as =>
      rw [List.cons_append, List.cons.injEq] at hm
      obtain ⟨rfl, rfl⟩ := hm
      refine .inl ⟨⟨pre, ins, as, hpre, hmem, htype, hb, fun hw => ?_⟩, fun hw => ?_⟩
      · exact hpost (List.mem_append_left _ hw)
      · exact hpost (List.mem_append_right _ hw)

/-- A processor is put back in the middle of its work, and at its end. -/
theorem Host.put_put {c₀ c : Core} {as : List Act} (has : c.acts = c₀.acts ++ as) :
    (host.put i c₀).put i { c with acts := as } = host.put i c := by
  simp only [Host.put, List.set_set, has, List.map_append, List.append_assoc]

theorem Host.getElem?_put {proc : Proc} (hproc : host.procs[i]? = some proc) (c : Core) :
    (host.put i c).procs[i]? = some c.proc :=
  List.getElem?_set_self (List.getElem?_eq_some_iff.mp hproc).1

section Put

variable {c₀ c : Core} (hproc : host.procs[i]? = some c₀.proc) (hworld : c₀.world = host.world)
  (hkept : Core.Kept w c₀ c)

include hproc in
theorem requested_of_writing (h : c.Writing b) : Requested (host.put i c) memory b := by
  rcases h with ⟨req, hreq, hb⟩ | h
  · exact .inl ⟨c.proc, List.mem_of_getElem? (Host.getElem?_put hproc c), req, hreq, hb⟩
  · exact .inr (.inl (.inl h))

include hproc in
theorem beyond_of_sharedHolds (h : c.SharedHolds b) : Beyond (host.put i c) memory b :=
  h.imp_right (requested_of_writing hproc)

include hproc in
/-- A block that the processor put back holds is covered for it. -/
theorem covered_of_holds (h : c.Holds b) : Covered (host.put i c) memory i b := by
  rcases h with h | h
  · exact .inl ⟨c.proc, Host.getElem?_put hproc c, h⟩
  · exact .inr (beyond_of_sharedHolds hproc h)

include hproc hworld hkept

/-- The requests stay when a processor is put back. -/
theorem Requested.put (h : Requested host memory b) : Requested (host.put i c) memory b := by
  rcases h with ⟨p, hp, req, hreq, hrb⟩ | (hd | hd) | hd
  · -- a write-back queue: of the processor put back, or of another one
    obtain ⟨j, hj⟩ := List.getElem?_of_mem hp
    by_cases hij : i = j
    · subst hij
      obtain rfl : c₀.proc = p := Option.some.inj (hproc.symm.trans hj)
      exact requested_of_writing hproc (hkept.writing b (.inl ⟨req, hreq, hrb⟩))
    · have hat : (host.put i c).procs[j]? = some p := (List.getElem?_set_ne hij).trans hj
      exact .inl ⟨p, List.mem_of_getElem? hat, req, hreq, hrb⟩
  · -- the wait queue, which the processor may have extended
    rw [← hworld] at hd
    exact requested_of_writing hproc (hkept.writing b (.inr hd))
  · -- the send queues, which no processor touches
    refine .inr (.inl (.inr ?_))
    show ∃ m ∈ c.world.mctrl.sendQueue.flatten, _
    rw [hkept.sendQueue, hworld]
    exact hd
  · exact .inr (.inr hd)

/-- A block stays held beyond the first-level caches when a processor is put back that may give up
requested blocks only. -/
theorem Beyond.put (hrefused : ∀ x, w.refused x → Requested host memory x)
    (h : Beyond host memory b) (hb : b ≠ NULL) : Beyond (host.put i c) memory b := by
  rcases h with hd | hd
  · rw [← hworld] at hd
    rcases hkept.shared b hb (.inl hd) with hheld | hgiven
    · exact beyond_of_sharedHolds hproc hheld
    · exact .inr ((hrefused b hgiven).put hproc hworld hkept)
  · exact .inr (hd.put hproc hworld hkept)

/-- What the processor put back holds or has given up is covered for it. -/
theorem covered_of_spared (hdropped : ∀ x, w.dropped x → Beyond host memory x)
    (hrefused : ∀ x, w.refused x → Requested host memory x) (h : c.Spared w b) (hb : b ≠ NULL) :
    Covered (host.put i c) memory i b := by
  rcases h with h | h | h
  · exact covered_of_holds hproc h
  · exact .inr ((hdropped b h).put hproc hworld hkept hrefused hb)
  · exact .inr (.inr ((hrefused b h).put hproc hworld hkept))

/-- What was covered stays so when a processor is put back that may give up covered blocks only. -/
theorem Covered.put (hdropped : ∀ x, w.dropped x → Beyond host memory x)
    (hrefused : ∀ x, w.refused x → Requested host memory x) (h : Covered host memory k b)
    (hb : b ≠ NULL) : Covered (host.put i c) memory k b := by
  rcases h with ⟨p, hp, hd⟩ | hd
  · by_cases hik : i = k
    · subst hik
      obtain rfl : c₀.proc = p := Option.some.inj (hproc.symm.trans hp)
      exact covered_of_spared hproc hworld hkept hdropped hrefused (hkept.held b hb (.inl hd)) hb
    · exact .inl ⟨p, (List.getElem?_set_ne hik).trans hp, hd⟩
  · exact .inr (hd.put hproc hworld hkept hrefused hb)

end Put

theorem DataSound.kept {c₀ c : Core} (h : DataSound host memory)
    (hproc : host.procs[i]? = some c₀.proc) (hworld : c₀.world = host.world)
    (heffects : Core.Effects cfg w c₀ c) : Core.Kept w c₀ c := by
  have hproc₀ := List.mem_of_getElem? hproc
  have htidy : c₀.Tidy := ⟨h.tidy.l1 _ hproc₀, hworld ▸ h.tidy.shared, hworld ▸ h.tidy.marked,
    hworld ▸ h.tidy.flushQueue, hworld ▸ h.tidy.tlb⟩
  exact heffects.kept htidy (h.allWrite _ hproc₀)

/-- **A processor that gives up covered blocks only** is put back. -/
theorem DataSound.put {c₀ c : Core} {as : List Act} {unserved : UInt64 → Prop}
    (h : DataSound host memory) (hproc : host.procs[i]? = some c₀.proc)
    (hworld : c₀.world = host.world) (heffects : Core.Effects cfg (host.waiver memory unserved) c₀ c)
    (has : c.acts = c₀.acts ++ as) (hpair : c.Paired)
    (hunserved : ∀ x, unserved x → Covered host memory i x) :
    DataSound (host.put i { c with acts := as }) memory := by
  have hkept := h.kept hproc hworld heffects
  have hcovered : ∀ {j x}, Covered host memory j x → x ≠ NULL → Covered (host.put i c) memory j x :=
    fun hx hne => hx.put hproc hworld hkept (fun _ => id) (fun _ => id) hne
  have hspares : ∀ {x}, c.Spared (host.waiver memory unserved) x → x ≠ NULL →
      Covered (host.put i c) memory i x :=
    fun hx hne => covered_of_spared hproc hworld hkept (fun _ => id) (fun _ => id) hx hne
  refine ⟨⟨fun p hp => ?_, hkept.tidy.shared, hkept.tidy.marked, hkept.tidy.flushQueue,
    hkept.tidy.tlb⟩, h.paired.put hpair, fun p hp => ?_, fun j x hmod => ?_⟩
  · rcases List.mem_or_eq_of_mem_set hp with hp | rfl
    · exact h.tidy.l1 p hp
    · exact hkept.tidy.l1
  · rcases List.mem_or_eq_of_mem_set hp with hp | rfl
    · exact h.allWrite p hp
    · exact hkept.allWrite
  · rcases modified_append hmod with ⟨hmod, -⟩ | ⟨ins, hins, hmem, htype, rfl⟩
    · -- modified before: covered before, and still
      obtain ⟨hnull, hx⟩ := h.covered j x hmod
      exact ⟨hnull, hcovered hx hnull⟩
    · -- modified by this processor: the write is held, or passed over as its block was covered
      obtain ⟨a, ha, heq⟩ := List.mem_map.mp hins
      cases heq
      obtain ⟨as', has', hmoved⟩ := hkept.acts
      obtain rfl := List.append_cancel_left (has.symm.trans has')
      obtain ⟨hnull, hspared⟩ := hmoved ins ha hmem htype
      refine ⟨hnull, ?_⟩
      rcases hspared hnull with hheld | hgiven
      · exact hspares hheld hnull
      · exact hcovered (hunserved _ hgiven) hnull

/-- **Callbacks and flushes that give up covered blocks only.** -/
theorem DataSound.works (h : DataSound host memory)
    (hworks : Host.Works cfg (fun host => host.waiver memory fun _ => False) host host') :
    DataSound host' memory := by
  refine hworks.invariant (I := fun host => DataSound host memory) (fun host₁ host₂ hsound hwork => ?_)
    h
  obtain ⟨hproc, heffects, haside⟩ := hwork
  exact hsound.put hproc rfl heffects rfl
    (haside.paired (hsound.paired _ (List.mem_of_getElem? hproc))) nofun

/-- **A cycle of a processor that gives up covered blocks only.** -/
theorem DataSound.step {proc : Proc} {c : Core} (h : DataSound host memory)
    (hproc : host.procs[i]? = some proc)
    (hfills : ∀ v ∈ (host.core proc).cacheEvicted cfg, Beyond host memory v)
    (hwrite : ∀ c₁, (host.core proc).arrive cfg = .ok (true, c₁) →
      c₁.WaivesWrite cfg ((host.put i c₁).waiver memory (Covered (host.put i c₁) memory i)))
    (hstep : (host.core proc).step cfg = .ok c) : DataSound (host.put i c) memory := by
  obtain ⟨⟨goesOn, c₁⟩, harrive, hstep⟩ := Outcome.bind_eq_ok.mp hstep
  have hpair := h.paired proc (List.mem_of_getElem? hproc)
  have hfirst := Core.arrive_passage (w := host.waiver memory fun _ => False) hpair hfills harrive
  have hsound : DataSound (host.put i c₁) memory :=
    h.put hproc rfl hfirst.effects rfl hfirst.paired nofun
  cases goesOn with
  | false =>
    cases hstep
    exact hsound
  | true =>
    -- The rest of the cycle starts from the state in which it meets the request.
    have hrest := Core.retryAndServe_passage hfirst.paired (hwrite c₁ harrive) hstep
    obtain ⟨as, has, -⟩ := (hsound.kept (Host.getElem?_put hproc c₁) rfl hrest.effects).acts
    have hlast := hsound.put (Host.getElem?_put hproc c₁) rfl hrest.effects has hrest.paired
      fun _ => id
    rwa [Host.put_put has] at hlast

/-! ### The controller and the memory objects -/

/-- A request is transferred with its block and its direction. -/
theorem Mctrl.transfer_writes {req : ProcRequest} {m : MemRequest}
    (h : Mctrl.transfer info req = .ok m) :
    m.blockAddr = req.blockAddr ∧ (req.writes = true → m.writes = true) := by
  obtain ⟨address, -, heq⟩ := Outcome.bind_eq_ok.mp h
  cases heq
  refine ⟨rfl, fun hw => ?_⟩
  unfold ProcRequest.writes at hw
  unfold MemRequest.writes
  cases htype : req.type <;> simp_all

/-- A visit of the host's controller keeps the request and the queues, or places the request. -/
theorem Mctrl.visit_moves {lock : Option SpinLock} {cycle : UInt64}
    {queues queues' : List (List MemRequest)} {req : ProcRequest} {fate : Fate}
    (h : Mctrl.visit cfg info lock cycle queues req = .ok (queues', fate)) :
    (queues' = queues ∧ fate.leaves = false) ∨ ∃ n m queue, Mctrl.transfer info req = .ok m ∧
      queues[n]? = some queue ∧ queues' = queues.set n (queue ++ [m]) := by
  unfold Mctrl.visit at h
  split_ifs at h
  · simp only [Outcome.bind_eq_ok] at h
    obtain ⟨l, -, locked, -, h⟩ := h
    split_ifs at h
    · obtain ⟨n, m, queue, -, -, htrans, hget, hqueues⟩ := Controller.place_eq_ok h
      exact .inr ⟨n, m, queue, htrans, hget, hqueues⟩
    · cases h
      exact .inl ⟨rfl, rfl⟩
  · cases h
    exact .inl ⟨rfl, rfl⟩
  · cases h
    exact .inl ⟨rfl, rfl⟩

/-- In the scan of the host's controller a write of the block is placed, or still to visit, or
visited and kept. -/
def Mctrl.Writing (b : UInt64) (queues : List (List MemRequest)) (reqs : List ProcRequest)
    (us : List (ProcRequest × Fate)) : Prop :=
  (∃ m ∈ queues.flatten, m.writes = true ∧ m.blockAddr = b) ∨
    (∃ req ∈ reqs, req.writes = true ∧ req.blockAddr = b) ∨
    ∃ req ∈ kept Fate.leaves us, req.writes = true ∧ req.blockAddr = b

theorem Mctrl.writing_visit {lock : Option SpinLock} {cycle : UInt64}
    {queues queues' : List (List MemRequest)} {req : ProcRequest} {reqs : List ProcRequest}
    {us : List (ProcRequest × Fate)} {fate : Fate} (h : Mctrl.Writing b queues (req :: reqs) us)
    (hvisit : Mctrl.visit cfg info lock cycle queues req = .ok (queues', fate)) :
    Mctrl.Writing b queues' reqs (us ++ [(req, fate)]) := by
  have hus : ∀ r ∈ kept Fate.leaves us, r ∈ kept Fate.leaves (us ++ [(req, fate)]) := by
    intro r hr
    obtain ⟨f, hf, hl⟩ := mem_kept.mp hr
    exact mem_kept.mpr ⟨f, List.mem_append_left _ hf, hl⟩
  rcases Mctrl.visit_moves hvisit with ⟨rfl, hstays⟩ | ⟨n, m, queue, htrans, hget, rfl⟩
  · -- the request is kept: it was still to visit, and is visited now
    rcases h with h | ⟨r, hr, hrw⟩ | ⟨r, hr, hrw⟩
    · exact .inl h
    · rcases List.mem_cons.mp hr with rfl | hr
      · exact .inr (.inr ⟨r, mem_kept.mpr ⟨fate, by simp, hstays⟩, hrw⟩)
      · exact .inr (.inl ⟨r, hr, hrw⟩)
    · exact .inr (.inr ⟨r, hus r hr, hrw⟩)
  · -- the request is placed: what it is transferred to writes the same block
    have hperm := flatten_push_perm hget m
    rcases h with ⟨m', hm', hw'⟩ | ⟨r, hr, hrw, hrb⟩ | ⟨r, hr, hrw⟩
    · exact .inl ⟨m', hperm.symm.subset (List.mem_cons_of_mem m hm'), hw'⟩
    · rcases List.mem_cons.mp hr with rfl | hr
      · obtain ⟨hblock, hdir⟩ := Mctrl.transfer_writes htrans
        exact .inl ⟨m, hperm.symm.subset List.mem_cons_self, hdir hrw, hblock.trans hrb⟩
      · exact .inr (.inl ⟨r, hr, hrw, hrb⟩)
    · exact .inr (.inr ⟨r, hus r hr, hrw⟩)

/-- **A step of the host's controller** keeps the writes it has. -/
theorem Mctrl.step_writes {lock : Option SpinLock} {c c' : Controller}
    (h : Mctrl.step cfg info lock c = .ok c') (hw : c.Writes b) : c'.Writes b := by
  obtain ⟨⟨queues, waiting⟩, hscan, heq⟩ := Outcome.bind_eq_ok.mp h
  cases heq
  obtain ⟨vs, hvs, rfl⟩ := scan_eq_ok.mp hscan
  have hfirst : Mctrl.Writing b c.sendQueue c.waitQueue [] := by
    rcases hw with h | h
    · exact .inr (.inl h)
    · exact .inl h
  have hlast := visits_rule (P := Mctrl.Writing b)
    (fun _ _ _ _ _ _ hP hvisit => Mctrl.writing_visit hP hvisit) hfirst hvs
  rcases hlast with h | ⟨req, hreq, -⟩ | h
  · exact .inr h
  · cases hreq
  · exact .inl h

/-- Changes outside the processors and the caches that keep the writes on their way. -/
theorem DataSound.outside {memory' : List MemRequest} {w : World} (h : DataSound host memory)
    (hshared : w.sharedCache = host.world.sharedCache)
    (hflush : w.flushQueue = host.world.flushQueue) (htlb : w.tlb = host.world.tlb)
    (hout : ∀ b, host.world.mctrl.Writes b ∨ InMemory memory b →
      w.mctrl.Writes b ∨ InMemory memory' b) :
    DataSound { host with world := w } memory' := by
  refine ⟨⟨h.tidy.l1, hshared ▸ h.tidy.shared, hshared ▸ h.tidy.marked,
    hflush.trans h.tidy.flushQueue, htlb ▸ h.tidy.tlb⟩, h.paired, h.allWrite, fun k b hmod => ?_⟩
  obtain ⟨hnull, hcovered⟩ := h.covered k b hmod
  refine ⟨hnull, ?_⟩
  rcases hcovered with hd | hd | hd | hd
  · exact .inl hd
  · exact .inr (.inl (hshared ▸ hd))
  · exact .inr (.inr (.inl hd))
  · exact .inr (.inr (.inr (hout b hd)))

theorem mem_of_eraseIdx {req m : MemRequest} {n : ℕ} (hreq : memory[n]? = some req)
    (hm : m ∈ memory) : m = req ∨ m ∈ memory.eraseIdx n := by
  obtain ⟨p, hp⟩ := List.getElem?_of_mem hm
  by_cases hpn : p = n
  · subst hpn
    exact .inl (Option.some.inj (hp.symm.trans hreq))
  · exact .inr (List.mem_eraseIdx_iff_getElem?.mpr ⟨p, hpn, hp⟩)

/-- A request that is no write of the host leaves its memory object. -/
theorem DataSound.erase {req : MemRequest} {n : ℕ} (h : DataSound host memory)
    (hreq : memory[n]? = some req) (hno : req.pim = true ∨ req.writes = false) :
    DataSound host (memory.eraseIdx n) := by
  refine h.outside (w := host.world) rfl rfl rfl fun b => Or.imp_right ?_
  rintro ⟨m, hm, hpim, hw, hb⟩
  rcases mem_of_eraseIdx hreq hm with rfl | hm
  · rcases hno with hno | hno
    · exact absurd hno (by simp [hpim])
    · exact absurd hw (by simp [hno])
  · exact ⟨m, hm, hpim, hw, hb⟩

/-- A write of the host reaches its memory object. -/
theorem DataSound.written {req : MemRequest} {n : ℕ} (h : DataSound host memory)
    (hreq : memory[n]? = some req) :
    DataSound { host with history := host.history ++ [.written req.blockAddr] }
      (memory.eraseIdx n) := by
  refine ⟨⟨h.tidy.l1, h.tidy.shared, h.tidy.marked, h.tidy.flushQueue, h.tidy.tlb⟩, h.paired,
    h.allWrite, fun k b hmod => ?_⟩
  rcases modified_append hmod with ⟨hmod, hnew⟩ | ⟨ins, hins, -⟩
  · obtain ⟨hnull, hcovered⟩ := h.covered k b hmod
    refine ⟨hnull, ?_⟩
    rcases hcovered with hd | hd | hd | hd | ⟨m, hm, hpim, hw, hb⟩
    · exact .inl hd
    · exact .inr (.inl hd)
    · exact .inr (.inr (.inl hd))
    · exact .inr (.inr (.inr (.inl hd)))
    · -- The block is another one than the one written.
      rcases mem_of_eraseIdx hreq hm with rfl | hm
      · exact absurd (by simp [hb]) hnew
      · exact .inr (.inr (.inr (.inr ⟨m, hm, hpim, hw, hb⟩)))
  · cases List.mem_singleton.mp hins

/-! ### Transitions -/

/-- The second request may join the first one: the two are not merged, or it is no write of the host,
or both write one block. -/
def Mergeable (req other : MemRequest) : Prop :=
  req.address = other.address → req.pim = other.pim →
    other.pim = true ∨ other.writes = false ∨ req.writes = true ∧ req.blockAddr = other.blockAddr

instance (req other : MemRequest) : Decidable (Mergeable req other) := by
  unfold Mergeable
  infer_instance

/-- The rest of a cycle of the processor `i`, which comes to it when it goes on: a write that it merges
with a request of the window, or retries without the controller, is of a covered block. -/
def KeepsWrite (cfg : Config) (s : System) (i : ℕ) : Outcome (Bool × Core) → Prop
  | .ok (true, c) => c.WaivesWrite cfg
      ((s.coherence.host.put i c).waiver s.memory (Covered (s.coherence.host.put i c) s.memory i))
  | _ => True

/-- A cycle of the processor `i` gives up covered blocks only: it pushes out no dirty line but one
whose block is held beyond the first-level caches, and passes over no write but of a covered block. -/
def KeepsCycle (cfg : Config) (s : System) (i : ℕ) (proc : Proc) : Prop :=
  (∀ v ∈ (s.coherence.host.core proc).cacheEvicted cfg, Beyond s.coherence.host s.memory v) ∧
    KeepsWrite cfg s i ((s.coherence.host.core proc).arrive cfg)

/-- A processor that is asked to flush the block finds it clean, or the controller takes the request,
or the block is requested. -/
def KeepsFlushed (cfg : Config) (memory : List MemRequest) (b : UInt64) (call : Host × ℕ) : Prop :=
  Host.FlushWaives cfg (fun host => host.waiver memory fun _ => False) b call

/-- The block of a request arrives at its processors, and pushes out no dirty line but one whose
block is held beyond the first-level caches. -/
def KeepsArrived (cfg : Config) (s : System) (memory : List MemRequest) (req : MemRequest) : Prop :=
  match req.memtype with
  | .read => ∀ call ∈ System.callbackCalls (·.handleReadCallback cfg (System.callBackInfo req)) req.pid
      s.coherence.host,
        Host.CallbackWaives cfg (fun host => host.waiver memory fun _ => False) req.blockAddr call
  | .write => ∀ call ∈ System.callbackCalls (·.handleWriteCallback cfg (System.callBackInfo req)) req.pid
      (s.written req).coherence.host,
        Host.CallbackWaives cfg (fun host => host.waiver memory fun _ => False) req.blockAddr call
  | _ => True

/-- **A transition that gives up covered blocks only**: what each of its branches gives up is covered
in the state in which the transition comes to it. -/
def KeepsData (cfg : Config) (info : List (Region Obj)) (s : System) : Event → Prop
  | .procStep i => ∀ proc ∈ s.coherence.host.procs[i]?, KeepsCycle cfg s i proc
  | .pimMctrlStep => ∀ call ∈ PIMMctrl.flushCalls cfg info (s.pimMctrl.cycle + 1)
      s.pimMctrl.waitQueue (s.coherence, s.pimMctrl.sendQueue),
        KeepsFlushed cfg s.memory call.1 call.2
  | .flush addr actual => ∀ call ∈ Coherence.flushCalls cfg addr actual
      s.coherence.host.procs.length 0 s.coherence.host, KeepsFlushed cfg s.memory addr call
  | .complete k => ∀ req ∈ s.memory[k]?, req.pim = false →
      KeepsArrived cfg s (s.memory.eraseIdx k) req
  | .merge i j => i ≠ j → ∀ req ∈ s.memory[i]?, ∀ other ∈ s.memory[j]?, Mergeable req other
  | _ => True

instance (c : Core) : Decidable (c.WaivesWrite cfg (host.waiver memory (Covered host memory k))) := by
  unfold Core.WaivesWrite Host.waiver
  infer_instance

instance (s : System) : ∀ r, Decidable (KeepsWrite cfg s i r)
  | .ok (true, c) => inferInstanceAs (Decidable (c.WaivesWrite cfg _))
  | .ok (false, _) => .isTrue trivial
  | .error _ => .isTrue trivial

instance (s : System) (proc : Proc) : Decidable (KeepsCycle cfg s i proc) :=
  @instDecidableAnd _ _ (List.decidableBAll _ _) inferInstance

instance (call : Host × ℕ) : Decidable (KeepsFlushed cfg memory b call) := by
  unfold KeepsFlushed Host.FlushWaives Host.waiver
  infer_instance

instance (call : Host × ℕ) : Decidable (Host.CallbackWaives cfg
    (fun host => host.waiver memory fun _ => False) b call) := by
  unfold Host.CallbackWaives Host.waiver
  exact @Option.decidableForallMem _ _ (fun _ => Option.decidableForallMem _) _

instance (s : System) (req : MemRequest) : Decidable (KeepsArrived cfg s memory req) := by
  unfold KeepsArrived
  split <;> infer_instance

instance (s : System) : ∀ e, Decidable (KeepsData cfg info s e)
  | .procStep i => inferInstanceAs (Decidable (∀ proc ∈ _, KeepsCycle cfg s i proc))
  | .pimMctrlStep => inferInstanceAs (Decidable (∀ call ∈ PIMMctrl.flushCalls .., _))
  | .flush addr _ => inferInstanceAs (Decidable (∀ call ∈ _, KeepsFlushed cfg s.memory addr call))
  | .complete k => inferInstanceAs (Decidable (∀ req ∈ s.memory[k]?, req.pim = false → _))
  | .merge i j => inferInstanceAs
      (Decidable (i ≠ j → ∀ req ∈ s.memory[i]?, ∀ other ∈ s.memory[j]?, Mergeable req other))
  | .mctrlStep | .pimAdd _ | .take _ | .takePim _ | .tick => .isTrue trivial

variable {s s' : System}

theorem System.written_withMemory (s : System) (memory : List MemRequest) (req : MemRequest) :
    System.written { s with memory := memory } req = { s.written req with memory := memory } := by
  unfold System.written
  split_ifs <;> rfl

/-- A completion. -/
theorem covered_complete {n : ℕ} (h : DataSound s.coherence.host s.memory)
    (hkeeps : KeepsData cfg info s (.complete n)) (hs : s.complete cfg info n = .ok s') :
    DataSound s'.coherence.host s'.memory := by
  unfold System.complete at hs
  split at hs
  · cases hs
    exact h
  next req hreq =>
  replace hkeeps := hkeeps req hreq
  unfold KeepsArrived at hkeeps
  unfold System.finish at hs
  dsimp only at hs
  rw [System.written_withMemory] at hs
  -- The write has reached the memory before its callbacks start.
  have hwritten : DataSound (s.written req).coherence.host (s.memory.eraseIdx n) := by
    unfold System.written
    split_ifs with hpim
    · exact h.erase hreq (.inl hpim)
    · exact h.written hreq
  cases hmemtype : req.memtype <;> rw [hmemtype] at hs hkeeps
  case read =>
    obtain ⟨hworks, hmemory⟩ := System.callBack_works (s := { s with memory := s.memory.eraseIdx n })
      (fun _ _ _ _ => PIMProc.readCallback_host) hkeeps hs
    rw [hmemory]
    exact (h.erase hreq (.inr (by simp [MemRequest.writes, hmemtype]))).works hworks
  case write =>
    obtain ⟨hworks, hmemory⟩ := System.callBack_works
      (s := { s.written req with memory := s.memory.eraseIdx n })
      (fun _ _ _ _ => PIMProc.writeCallback_host) hkeeps hs
    rw [hmemory]
    exact hwritten.works hworks
  case flush =>
    cases hs
    refine hwritten.outside rfl ?_ rfl fun _ => id
    show List.erase _ _ = _
    rw [hwritten.tidy.flushQueue]
    rfl
  case load => cases hs
  case store => cases hs
  case returnData =>
    cases hs
    exact h.erase hreq (.inr (by simp [MemRequest.writes, hmemtype]))
  case null =>
    cases hs
    exact h.erase hreq (.inr (by simp [MemRequest.writes, hmemtype]))

/-- Two requests are merged. -/
theorem covered_merge {n j : ℕ} (h : DataSound s.coherence.host s.memory)
    (hmerge : KeepsData cfg info s (.merge n j)) :
    DataSound (s.merge n j).coherence.host (s.merge n j).memory := by
  unfold System.merge
  split
  · next req other hreq hother =>
    split_ifs with hsame
    · obtain ⟨hnj, haddr, hpims⟩ := hsame
      refine h.outside (w := s.coherence.host.world) rfl rfl rfl fun b => Or.imp_right ?_
      rintro ⟨m, hm, hpim, hw, hb⟩
      obtain ⟨p, hp⟩ := List.getElem?_of_mem hm
      have hn : n < s.memory.length := (List.getElem?_eq_some_iff.mp hreq).1
      -- The request that the other one joins keeps all its fields but the processors.
      let joined : MemRequest := { req with pid := req.pid ++ other.pid }
      have hjoined : joined ∈ (s.memory.set n joined).eraseIdx j :=
        List.mem_eraseIdx_iff_getElem?.mpr ⟨n, hnj, List.getElem?_set_self hn⟩
      -- the write is the request that joins, the joined one, or another one
      by_cases hpj : p = j
      · subst hpj
        obtain rfl : m = other := Option.some.inj (hp.symm.trans hother)
        rcases hmerge hnj req hreq m hother haddr hpims with hno | hno | ⟨hrw, hrb⟩
        · exact absurd hno (by simp [hpim])
        · exact absurd hw (by simp [hno])
        · exact ⟨joined, hjoined, hpims.trans hpim, hrw, hrb.trans hb⟩
      · by_cases hpn : p = n
        · subst hpn
          obtain rfl : m = req := Option.some.inj (hp.symm.trans hreq)
          exact ⟨joined, hjoined, hpim, hw, hb⟩
        · refine ⟨m, List.mem_eraseIdx_iff_getElem?.mpr ⟨p, hpj, ?_⟩, hpim, hw, hb⟩
          rw [List.getElem?_set_ne fun h => hpn h.symm]
          exact hp
    · exact h
  · exact h

/-- A memory object takes a request of the host's controller. -/
theorem covered_take {pid : Int} {req : Option MemRequest} {mctrl : Controller}
    (h : DataSound s.coherence.host s.memory)
    (hr : s.mctrl.getReq false pid = .ok (req, mctrl)) :
    DataSound ((s.withMctrl mctrl).fetch req).coherence.host
      ((s.withMctrl mctrl).fetch req).memory := by
  refine h.outside rfl rfl rfl fun b hb => ?_
  obtain ⟨queue, hqueue, hr⟩ := Outcome.bind_eq_ok.mp hr
  cases queue with
  | nil =>
    cases hr
    rcases hb with hb | ⟨m, hm, hb⟩
    · exact .inl hb
    · exact .inr ⟨m, List.mem_append_left _ hm, hb⟩
  | cons m queue =>
    cases hr
    obtain ⟨-, hget⟩ := listAt_eq_ok.mp hqueue
    rcases hb with (hb | ⟨m', hm', hw, hb⟩) | ⟨m', hm', hb⟩
    · exact .inl (.inl hb)
    · -- the head of the queue is in the memory object now
      rcases List.mem_cons.mp ((flatten_pop_perm hget).subset hm') with rfl | hm'
      · refine .inr ⟨{ m' with pim := false }, ?_, rfl, hw, hb⟩
        exact List.mem_append_right _ (List.mem_singleton_self _)
      · exact .inl (.inr ⟨m', hm', hw, hb⟩)
    · exact .inr ⟨m', List.mem_append_left _ hm', hb⟩

/-- **A transition that gives up covered blocks only** keeps the modified blocks covered. -/
theorem covered_step {e : Event} (h : DataSound s.coherence.host s.memory)
    (hkeeps : KeepsData cfg info s e) (hs : System.step cfg info s e = .ok s') :
    DataSound s'.coherence.host s'.memory := by
  cases e with
  | procStep i =>
    obtain ⟨host, hrun, heq⟩ := Outcome.bind_eq_ok.mp hs
    cases heq
    obtain ⟨-, proc, c, hproc, hstep, rfl⟩ := Host.run_eq_ok.mp hrun
    obtain ⟨hfills, hwrite⟩ := hkeeps proc hproc
    refine h.step hproc hfills (fun c₁ harrive => ?_) hstep
    rw [harrive] at hwrite
    exact hwrite
  | mctrlStep =>
    obtain ⟨mctrl, hstep, heq⟩ := Outcome.bind_eq_ok.mp hs
    cases heq
    exact h.outside rfl rfl rfl fun b => Or.imp_left (Mctrl.step_writes hstep)
  | pimMctrlStep =>
    obtain ⟨⟨coherence, pimMctrl⟩, hstep, heq⟩ := Outcome.bind_eq_ok.mp hs
    cases heq
    exact h.works (PIMMctrl.step_works hkeeps hstep)
  | pimAdd req =>
    cases hs
    exact h
  | take pid =>
    obtain ⟨⟨req, mctrl⟩, hr, heq⟩ := Outcome.bind_eq_ok.mp hs
    cases heq
    exact covered_take h hr
  | takePim pid =>
    obtain ⟨⟨req, pimMctrl⟩, -, heq⟩ := Outcome.bind_eq_ok.mp hs
    cases heq
    refine h.outside (w := s.coherence.host.world) rfl rfl rfl fun b => Or.imp_right ?_
    rintro ⟨m, hm, hb⟩
    exact ⟨m, List.mem_append_left _ hm, hb⟩
  | merge i j =>
    cases hs
    exact covered_merge h hkeeps
  | complete n => exact covered_complete h hkeeps hs
  | flush addr actual =>
    obtain ⟨⟨stall, host⟩, hflush, heq⟩ := Outcome.bind_eq_ok.mp hs
    cases heq
    exact h.works (Coherence.flush_works hkeeps hflush)
  | tick =>
    cases hs
    exact h.outside rfl rfl rfl fun _ => id

/-! ### Runs -/

theorem dataSound_init {P : Platform Obj} (h : System.init cfg P = .ok s) :
    DataSound s.coherence.host s.memory := by
  have hhost := System.host_of_init h
  rw [hhost]
  refine ⟨Host.tidy_host P, Host.paired_host P, fun proc hproc => ?_, fun k b hmod => ?_⟩
  · obtain ⟨i, hi, rfl⟩ := List.mem_mapIdx.mp hproc
    intro req hreq
    cases hreq
  · obtain ⟨pre, ins, post, heq, -⟩ := hmod
    exact absurd heq (by simp [Platform.host])

/-- **No dirty data is lost in any run** whose transitions give up covered blocks only: every block
that a processor modified since it was last written to the memory is dirty in its first-level cache
or in the shared cache, or in a request that writes it. -/
theorem no_dirty_data_lost (P : Platform Obj) {s₀ s : System} {es : List Event}
    (hinit : System.init cfg P = .ok s₀)
    (hkeeps : Along (System.step cfg P.memory) (KeepsData cfg P.memory) s₀ es)
    (h : exec (System.step cfg P.memory) s₀ es = .ok s) {k : ℕ} {b : UInt64}
    (hmod : Modified s.coherence.host.history k b) :
    Covered s.coherence.host s.memory k b :=
  ((exec_along (I := fun s => DataSound s.coherence.host s.memory)
    (fun _ _ _ hI hgood hstep => covered_step hI hgood hstep) (dataSound_init hinit) hkeeps
    h).covered k b hmod).2

/-- The processor `0` moved on from a write of the block. -/
def movedOnWrite (b : UInt64) (r : Record) : Bool :=
  match r with
  | .core 0 (.movedOn ins) => ins.isMem && ins.type = .write && ins.blockAddr = b
  | _ => false

/-- The record behind the last write of the block to the memory. -/
def sinceWritten (history : List Record) (b : UInt64) : List Record :=
  history.reverse.takeWhile (· ≠ .written b)

theorem modified_of_movedOnWrite {history : List Record}
    (h : (sinceWritten history b).any (movedOnWrite b) = true) : Modified history 0 b := by
  obtain ⟨r, hr, hone⟩ := List.any_eq_true.mp h
  obtain ⟨post, pre, hsplit⟩ := List.append_of_mem hr
  obtain ⟨older, hrev⟩ : ∃ older, sinceWritten history b ++ older = history.reverse :=
    ⟨_, List.takeWhile_append_dropWhile⟩
  have hhistory : history = (older.reverse ++ pre.reverse) ++ r :: post.reverse := by
    rw [← List.reverse_inj, ← hrev, hsplit]
    simp only [List.reverse_append, List.reverse_cons, List.reverse_reverse, List.append_assoc,
      List.cons_append, List.nil_append]
  unfold movedOnWrite at hone
  split at hone
  · next ins =>
    simp only [Bool.and_eq_true, decide_eq_true_eq] at hone
    obtain ⟨⟨hmem, htype⟩, rfl⟩ := hone
    refine ⟨_, ins, _, hhistory, hmem, htype, rfl, fun hw => ?_⟩
    have hbehind : .written ins.blockAddr ∈ sinceWritten history ins.blockAddr := by
      rw [hsplit]
      exact List.mem_append_left _ (List.mem_reverse.mp hw)
    simpa using List.all_eq_true.mp List.all_takeWhile _ hbehind
  · cases hone

/-- One processor that writes a block, writes it again and reads another block. -/
def writeWriteRead : List (List Input) :=
  [[.instruction { type := .write, address := 64, isMem := true },
    .instruction { type := .write, address := 64, isMem := true },
    .instruction { type := .read, address := 128, isMem := true }]]

/-- The platform of `writeWriteRead`, with a first-level cache of one line. -/
def writeWriteReadPlatform : Platform Unit := { smallPlatform writeWriteRead with l1Assoc := 1 }

/-- The first write has filled both caches, the second one hits the first-level cache, and the read
pushes the line out: the block is still dirty in the shared cache. -/
theorem no_dirty_data_lost_evicted : ∃ s₀ s, System.init {} writeWriteReadPlatform = .ok s₀ ∧
    exec (System.step {} oneObject) s₀ [.procStep 0, .mctrlStep, .take 0, .complete 0, .procStep 0,
      .procStep 0, .mctrlStep, .take 0, .complete 0, .procStep 0] = .ok s ∧
      Modified s.coherence.host.history 0 64 ∧ Covered s.coherence.host s.memory 0 64 := by
  let s₀ : System := {
    coherence := {
      host := writeWriteReadPlatform.host {}
      spinLock := some SpinLock.freeLock
      consistency := .spinLock }
    pimMctrl := Controller.init 1
    pimUnits := [PIMProc.fresh] }
  have hinit : System.init {} writeWriteReadPlatform = .ok s₀ := init_oneObject rfl rfl rfl
  have hrun : (exec (System.step {} oneObject) s₀ [.procStep 0, .mctrlStep, .take 0, .complete 0,
      .procStep 0, .procStep 0, .mctrlStep, .take 0, .complete 0, .procStep 0]).map (fun s =>
        (sinceWritten s.coherence.host.history 64).any (movedOnWrite 64)) = .ok true := by
    decide +kernel
  obtain ⟨s, hs, hwritten⟩ := Outcome.exists_of_map_eq_ok hrun
  have hmod := modified_of_movedOnWrite hwritten
  refine ⟨s₀, s, hinit, hs, hmod, no_dirty_data_lost writeWriteReadPlatform hinit ?_ hs hmod⟩
  decide +kernel

/-- One processor that reads a block and writes it. -/
def readWrite : List (List Input) :=
  [[.instruction { type := .read, address := 64, isMem := true },
    .instruction { type := .write, address := 64, isMem := true }]]

/-- The write merges with the read of the window and leaves nothing. -/
theorem not_covered_merged_write : ¬ ∀ s, exec (System.step {} oneObject)
    (smallSystem {} readWrite) [.procStep 0, .procStep 0, .mctrlStep, .take 0, .complete 0] = .ok s →
      Modified s.coherence.host.history 0 64 → Covered s.coherence.host s.memory 0 64 := by
  intro h
  have hrun : (exec (System.step {} oneObject) (smallSystem {} readWrite)
      [.procStep 0, .procStep 0, .mctrlStep, .take 0, .complete 0]).map (fun s =>
        ((sinceWritten s.coherence.host.history 64).any (movedOnWrite 64),
        decide (Covered s.coherence.host s.memory 0 64))) = .ok (true, false) := by decide +kernel
  obtain ⟨s, hs, hstate⟩ := Outcome.exists_of_map_eq_ok hrun
  obtain ⟨hwritten, hlost⟩ := Prod.mk.inj hstate
  exact absurd (h s hs (modified_of_movedOnWrite hwritten)) (of_decide_eq_false hlost)

end PIMSim
