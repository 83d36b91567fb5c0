import PIMSim.Procs.Proc

/-!
# The record of the issued instructions

What the record of a processor says about the instructions it issues: a memory instruction that
needs the memory is queued in the window once, and its request is sent once, before the processor
moves on.

## Main definitions

* `Act.issues`, `Act.hit`: the acts that belong to the issue of an instruction, and those that need
  no memory request
* `Serves`: the acts of one instruction
* `AllServed`: the acts before each instruction the processor moves on from serve it
* `ServedRun`: a record made of the acts of served instructions, and of others in between

## Main results

* `ServedRun.append`, `ServedRun.allServed`: such records compose, and conserve the instructions
-/

namespace PIMSim

/-- The instruction needs no memory request. -/
def Act.hit : Act → Bool
  | .windowHit _ | .l1Hit _ | .sharedHit _ => true
  | _ => false

/-- Acts that belong to the issue of an instruction. -/
def Act.issues : Act → Bool
  | .loaded _ | .sent _ | .movedOn _ => true
  | a => a.hit

/-- The instruction objects queued in the window. -/
def loads (as : List Act) : List ℕ :=
  as.filterMap fun
    | .loaded ref => some ref
    | _ => none

/-- The requests that the controller accepted. -/
def sends (as : List Act) : List ProcRequest :=
  as.filterMap fun
    | .sent req => some req
    | _ => none

/-- The acts serve the instruction: a memory instruction without a hit is queued in the window once,
and its request is sent once. -/
def Serves (ins : Instruction) (as : List Act) : Prop :=
  ins.isMem = true → (∀ a ∈ as, a.hit = false) → loads as = [ins.ref] ∧ sends as = [parseIns ins]

/-- Whenever the processor moves on, the acts since it last moved on serve the instruction. The
first list holds the acts since it last moved on. -/
def AllServed : List Act → List Act → Prop
  | _, [] => True
  | seg, .movedOn ins :: as => Serves ins seg ∧ AllServed [] as
  | seg, a :: as => AllServed (seg ++ [a]) as

instance (ins : Instruction) (as : List Act) : Decidable (Serves ins as) := by
  unfold Serves
  infer_instance

instance AllServed.decide : ∀ seg as, Decidable (AllServed seg as)
  | _, [] => .isTrue trivial
  | seg, a :: as => by
    cases a with
    | movedOn ins =>
      have := AllServed.decide [] as
      exact inferInstanceAs (Decidable (Serves ins seg ∧ AllServed [] as))
    | _ => exact AllServed.decide (seg ++ [_]) as

/-- The acts of served instructions, with acts that belong to no instruction in between. -/
inductive ServedRun : List Act → Prop
  | nil : ServedRun []
  | aside {a : Act} {as : List Act} (ha : a.issues = false) (h : ServedRun as) : ServedRun (a :: as)
  | movedOn {ins : Instruction} {seg as : List Act} (hseg : ∀ i, .movedOn i ∉ seg)
      (hserves : Serves ins seg) (h : ServedRun as) : ServedRun (seg ++ .movedOn ins :: as)

/-- Records of served instructions compose. -/
theorem ServedRun.append {as bs : List Act} (h : ServedRun as) (h' : ServedRun bs) : ServedRun (as ++ bs) := by
  induction h with
  | nil => exact h'
  | aside ha _ ih => exact .aside ha ih
  | movedOn hseg hserves _ ih =>
    rw [List.append_assoc, List.cons_append]
    exact .movedOn hseg hserves ih

theorem served_of_aside {as : List Act} (h : ∀ a ∈ as, a.issues = false) : ServedRun as := by
  induction as with
  | nil => exact .nil
  | cons a as ih =>
    apply ServedRun.aside (h a List.mem_cons_self)
    exact ih fun b hb => h b (List.mem_cons_of_mem a hb)

theorem allServed_append {seg as bs : List Act} (has : ∀ i, .movedOn i ∉ as) :
    AllServed seg (as ++ bs) ↔ AllServed (seg ++ as) bs := by
  induction as generalizing seg with
  | nil => simp
  | cons a as ih =>
    have ha : ∀ i, a ≠ .movedOn i := fun i hi => has i (hi ▸ List.mem_cons_self)
    have hcons : AllServed seg (a :: (as ++ bs)) ↔ AllServed (seg ++ [a]) (as ++ bs) := by
      cases a with
      | movedOn i => exact absurd rfl (ha i)
      | _ => rfl
    rw [List.cons_append, hcons, ih fun i hi => has i (List.mem_cons_of_mem a hi),
      List.append_assoc, List.singleton_append]

/-- Acts that belong to no instruction may come before those of an instruction. -/
theorem Serves.append_left {ins : Instruction} {seg as : List Act} (h : Serves ins as)
    (hseg : ∀ a ∈ seg, a.issues = false) : Serves ins (seg ++ as) := by
  intro hmem hhit
  have hloads : loads seg = [] := by
    apply List.filterMap_eq_nil_iff.mpr
    intro a ha
    have := hseg a ha
    cases a <;> simp_all [Act.issues]
  have hsends : sends seg = [] := by
    apply List.filterMap_eq_nil_iff.mpr
    intro a ha
    have := hseg a ha
    cases a <;> simp_all [Act.issues]
  unfold loads sends at *
  rw [List.filterMap_append, List.filterMap_append, hloads, hsends, List.nil_append, List.nil_append]
  exact h hmem fun a ha => hhit a (List.mem_append_right seg ha)

/-- **A record of served instructions** conserves them. -/
theorem ServedRun.allServed {as : List Act} (h : ServedRun as) : AllServed [] as := by
  have hall : ∀ seg : List Act, (∀ a ∈ seg, a.issues = false) → AllServed seg as := by
    induction h with
    | nil => exact fun _ _ => trivial
    | @aside a as ha _ ih =>
      intro seg hseg
      have hmoved : ∀ i, .movedOn i ∉ [a] := by
        rintro i hi
        rw [← List.mem_singleton.mp hi] at ha
        cases ha
      rw [← List.singleton_append, allServed_append hmoved]
      apply ih
      intro b hb
      rcases List.mem_append.mp hb with hb | hb
      · exact hseg b hb
      · rw [List.mem_singleton.mp hb]
        exact ha
    | movedOn hmoved hserves _ ih =>
      intro seg hseg
      rw [allServed_append hmoved]
      exact ⟨hserves.append_left hseg, ih [] (by simp)⟩
  exact hall [] (by simp)

end PIMSim
