import Mathlib.Algebra.Order.BigOperators.Group.Finset
import Mathlib.Algebra.Order.Group.Multiset
import Mathlib.Data.List.Infix
import Mathlib.Logic.Function.Basic
import Mathlib.Logic.Relation

/-!
# Items that move through places

Items are accepted and then move from place to place. The class of an item fixes its route, a list of
places; the item enters at the first place of the route, and every move takes it to the next one. A place
is a list, and an item may enter and leave a place anywhere.

A step is in order when an item enters its place behind every item of its class, and leaves a place
before every other one of its class.

## Main definitions

* `Network P ι`: the accepted items, and the items at the places
* `Network.Step`: an item is accepted, or moves on
* `Network.Conserved`: every accepted item is at one place
* `Network.OnRoute`: the items are on their routes
* `Network.line`: the items of a class, from the end of the route to its start
* `Network.remaining`: the way that the items have before them
* `Network.Shows`: what is seen at the places, each item through its view
* `Network.Carries`: what is seen changes by steps without an acceptance

## Main results

* `Network.Step.keeps_conserved`, `Network.Step.onRoute`: what the steps keep
* `Network.Conserved.existsUnique`: every accepted item is at exactly one place
* `Network.Step.line_eq`: in steps in order, the items of a class stay in the order of acceptance
* `Network.conserved_of_steps`, `Network.line_of_steps`: what holds in every run
* `Network.steps_remaining`: steps without an acceptance shorten the way
* `Network.Shows.accept`, `Network.carries_move`: a change of what is seen that is a step
-/

/-- The accepted items, and the items at the places. -/
structure Network (P ι : Type) where
  accepted : List ι := []
  items : P → List ι := fun _ => []

namespace Network

open Function

variable {P ι κ : Type} [DecidableEq P]

/-- The network with other items at a place. -/
def put (N : Network P ι) (p : P) (l : List ι) : Network P ι := { N with items := update N.items p l }

/-- The network with another item accepted. -/
def accept (N : Network P ι) (x : ι) : Network P ι := { N with accepted := N.accepted ++ [x] }

section Steps

variable (cls : ι → κ) (route : κ → List P)

/-- An item `x` is accepted at the start of its route, or moves on. When the step is in order, it enters
behind the items of its class and leaves before them. -/
inductive Step (ordered : Prop) (N : Network P ι) : Network P ι → Prop
  | accept {p : P} {x : ι} {l r : List ι} (hroute : [p] <+: route (cls x)) (hp : N.items p = l ++ r)
      (hlast : ordered → ∀ y ∈ r, cls y ≠ cls x) :
      Step ordered N ((N.put p (l ++ x :: r)).accept x)
  | move {p q : P} {x : ι} {l r l' r' : List ι} (hroute : [p, q] <:+: route (cls x))
      (hp : N.items p = l ++ x :: r) (hq : N.items q = l' ++ r')
      (hfirst : ordered → ∀ y ∈ l, cls y ≠ cls x) (hlast : ordered → ∀ y ∈ r', cls y ≠ cls x) :
      Step ordered N ((N.put p (l ++ r)).put q (l' ++ x :: r'))

/-- The items are on their routes. -/
def OnRoute (N : Network P ι) : Prop := ∀ p, ∀ x ∈ N.items p, p ∈ route (cls x)

/-- The items of the class `k` at a place. -/
def ofClass [DecidableEq κ] (N : Network P ι) (k : κ) (p : P) : List ι :=
  (N.items p).filter fun x => cls x = k

/-- The items of the class `k`, from the end of its route to its start. -/
def line [DecidableEq κ] (N : Network P ι) (k : κ) : List ι := (route k).reverse.flatMap (N.ofClass cls k)

end Steps

/-- Every accepted item is at one place. -/
def Conserved [Fintype P] (N : Network P ι) : Prop := ∑ p, (N.items p : Multiset ι) = N.accepted

variable {cls : ι → κ} {route : κ → List P} {ordered : Prop} {N N' : Network P ι} {p q : P} {x : ι}
  {l r l' r' : List ι}

omit [DecidableEq P] in
@[simp] theorem items_accept : (N.accept x).items = N.items := rfl

omit [DecidableEq P] in
@[simp] theorem accepted_accept : (N.accept x).accepted = N.accepted ++ [x] := rfl

@[simp] theorem accepted_put : (N.put p l).accepted = N.accepted := rfl

@[simp] theorem items_put_self : (N.put p l).items p = l := by
  unfold put
  exact update_self p l N.items

theorem items_put_of_ne (h : q ≠ p) : (N.put p l).items q = N.items q := by
  unfold put
  exact update_of_ne h l N.items

/-! ### Conservation -/

theorem sum_put [Fintype P] (N : Network P ι) (p : P) (l : List ι) :
    ∑ o, ((N.put p l).items o : Multiset ι) + (N.items p : Multiset ι) =
      ∑ o, (N.items o : Multiset ι) + (l : Multiset ι) := by
  have hother : ∀ o ∈ Finset.univ.erase p,
      ((N.put p l).items o : Multiset ι) = (N.items o : Multiset ι) := by
    intro o ho
    rw [items_put_of_ne (Finset.ne_of_mem_erase ho)]
  rw [← Finset.sum_erase_add _ _ (Finset.mem_univ p), ← Finset.sum_erase_add _ _ (Finset.mem_univ p),
    Finset.sum_congr rfl hother, items_put_self]
  exact add_right_comm _ _ _

theorem coe_insert (l : List ι) (x : ι) (r : List ι) :
    ((l ++ x :: r : List ι) : Multiset ι) = ((l ++ r : List ι) : Multiset ι) + {x} := by
  rw [← Multiset.coe_singleton, Multiset.coe_add, Multiset.coe_eq_coe]
  exact List.perm_middle.trans (List.perm_append_singleton x (l ++ r)).symm

/-- An item enters a place. -/
theorem sum_enter [Fintype P] (hp : N.items p = l ++ r) :
    ∑ o, ((N.put p (l ++ x :: r)).items o : Multiset ι) = ∑ o, (N.items o : Multiset ι) + {x} := by
  have h := sum_put N p (l ++ x :: r)
  rw [coe_insert, ← hp, ← add_assoc, add_right_comm] at h
  exact add_right_cancel h

/-- An item leaves a place. -/
theorem sum_leave [Fintype P] (hp : N.items p = l ++ x :: r) :
    ∑ o, ((N.put p (l ++ r)).items o : Multiset ι) + {x} = ∑ o, (N.items o : Multiset ι) := by
  have h := sum_put N p (l ++ r)
  rw [hp, coe_insert, ← add_assoc, add_right_comm] at h
  exact add_right_cancel h

omit [DecidableEq P] in
/-- The places of a move are different when a route has no place twice. -/
theorem ne_of_infix {places : List P} (hnodup : places.Nodup) (h : [p, q] <:+: places) : p ≠ q := by
  have hpair := hnodup.sublist h.sublist
  simpa using hpair

/-- **A step** keeps every accepted item at one place. -/
theorem Step.keeps_conserved [Fintype P] (hnodup : ∀ k, (route k).Nodup) (h : Step cls route ordered N N')
    (hN : N.Conserved) : N'.Conserved := by
  unfold Conserved at hN ⊢
  cases h with
  | accept hroute hp hlast =>
    rw [items_accept, accepted_accept, sum_enter hp, hN, ← Multiset.coe_singleton, Multiset.coe_add]
    rfl
  | move hroute hp hq hfirst hlast =>
    have hne := ne_of_infix (hnodup _) hroute
    rw [sum_enter ((items_put_of_ne hne.symm).trans hq), sum_leave hp, hN]
    rfl

omit [DecidableEq P] in
theorem Conserved.mem_iff [Fintype P] (h : N.Conserved) : (∃ p, x ∈ N.items p) ↔ x ∈ N.accepted := by
  have hsum : x ∈ ∑ p, (N.items p : Multiset ι) ↔ x ∈ N.accepted := by
    rw [h]
    exact Multiset.mem_coe
  rw [← hsum, Multiset.mem_sum]
  simp

omit [DecidableEq P] in
/-- An accepted item is at a place once. -/
theorem Conserved.nodup [Fintype P] (h : N.Conserved) (hnodup : N.accepted.Nodup) (p : P) :
    (N.items p).Nodup := by
  rw [← Multiset.coe_nodup] at hnodup ⊢
  refine Multiset.nodup_of_le ?_ hnodup
  rw [← h]
  exact Finset.single_le_sum (fun _ _ => Multiset.zero_le _) (Finset.mem_univ p)

/-- **Every accepted item** is at exactly one place. -/
theorem Conserved.existsUnique [Fintype P] (h : N.Conserved) (hnodup : N.accepted.Nodup)
    (hx : x ∈ N.accepted) : ∃! p, x ∈ N.items p := by
  classical
  obtain ⟨p, hp⟩ := h.mem_iff.mpr hx
  refine ⟨p, hp, fun q hq => ?_⟩
  by_contra hne
  have honce : ∑ o, Multiset.count x (N.items o : Multiset ι) ≤ 1 := by
    rw [← Multiset.count_sum', h]
    exact Multiset.nodup_iff_count_le_one.mp (Multiset.coe_nodup.mpr hnodup) x
  have htwo : ∑ o ∈ {q, p}, Multiset.count x (N.items o : Multiset ι) ≤
      ∑ o, Multiset.count x (N.items o : Multiset ι) :=
    Finset.sum_le_sum_of_subset (Finset.subset_univ _)
  rw [Finset.sum_pair hne] at htwo
  have hq' : 0 < Multiset.count x (N.items q : Multiset ι) := Multiset.count_pos.mpr hq
  have hp' : 0 < Multiset.count x (N.items p : Multiset ι) := Multiset.count_pos.mpr hp
  omega

theorem OnRoute.put (h : N.OnRoute cls route) (hl : ∀ y ∈ l, p ∈ route (cls y)) :
    (N.put p l).OnRoute cls route := by
  intro o y hy
  by_cases ho : o = p
  · subst ho
    rw [items_put_self] at hy
    exact hl y hy
  · rw [items_put_of_ne ho] at hy
    exact h o y hy

theorem OnRoute.enter (h : N.OnRoute cls route) (hp : N.items p = l ++ r) (hx : p ∈ route (cls x)) :
    (N.put p (l ++ x :: r)).OnRoute cls route := by
  refine h.put fun y hy => ?_
  rw [List.mem_append, List.mem_cons] at hy
  rcases hy with hy | rfl | hy
  · exact h p y (hp ▸ List.mem_append_left r hy)
  · exact hx
  · exact h p y (hp ▸ List.mem_append_right l hy)

/-- **A step** keeps the items on their routes. -/
theorem Step.onRoute (hnodup : ∀ k, (route k).Nodup) (h : Step cls route ordered N N')
    (hN : N.OnRoute cls route) : N'.OnRoute cls route := by
  cases h with
  | accept hroute hp hlast => exact hN.enter hp (hroute.subset (List.mem_singleton_self _))
  | @move p q x l r l' r' hroute hp hq hfirst hlast =>
    have hne := ne_of_infix (hnodup _) hroute
    have hleave : (N.put p (l ++ r)).OnRoute cls route := by
      refine hN.put fun y hy => hN p y (hp ▸ ?_)
      rw [List.mem_append] at hy ⊢
      exact hy.imp_right (List.mem_cons_of_mem x)
    exact hleave.enter ((items_put_of_ne hne.symm).trans hq) (hroute.subset (by simp))

/-! ### Order -/

section Order

variable [DecidableEq κ] {k : κ}

omit [DecidableEq P] in
/-- An item of another class enters or leaves. -/
theorem filter_of_ne (h : cls x ≠ k) :
    (l ++ x :: r).filter (fun y => cls y = k) = (l ++ r).filter fun y => cls y = k := by
  simp [List.filter_append, h]

omit [DecidableEq P] in
/-- An item enters behind all others of its class. -/
theorem filter_last (h : ∀ y ∈ r, cls y ≠ cls x) :
    (l ++ x :: r).filter (fun y => cls y = cls x) = (l ++ r).filter (fun y => cls y = cls x) ++ [x] := by
  have hnil : r.filter (fun y => cls y = cls x) = [] := by
    simpa using h
  simp [List.filter_append, hnil]

omit [DecidableEq P] in
/-- An item leaves before all others of its class. -/
theorem filter_first (h : ∀ y ∈ l, cls y ≠ cls x) :
    (l ++ x :: r).filter (fun y => cls y = cls x) = x :: (l ++ r).filter fun y => cls y = cls x := by
  have hnil : l.filter (fun y => cls y = cls x) = [] := by
    simpa using h
  simp [List.filter_append, hnil]

omit [DecidableEq P] in
/-- A line, by a part of its route. -/
theorem line_of_route {s t places : List P} (h : s ++ places ++ t = route k) :
    N.line cls route k = t.reverse.flatMap (N.ofClass cls k) ++
      (places.reverse.flatMap (N.ofClass cls k) ++ s.reverse.flatMap (N.ofClass cls k)) := by
  unfold line
  rw [← h]
  simp

omit [DecidableEq P] in
theorem flatMap_congr {places : List P} (h : ∀ p ∈ places, N'.ofClass cls k p = N.ofClass cls k p) :
    places.reverse.flatMap (N'.ofClass cls k) = places.reverse.flatMap (N.ofClass cls k) :=
  List.flatMap_congr fun p hp => h p (List.mem_reverse.mp hp)

omit [DecidableEq P] in
/-- The line of a class whose items stay. -/
theorem line_congr (h : ∀ p, N'.ofClass cls k p = N.ofClass cls k p) :
    N'.line cls route k = N.line cls route k :=
  flatMap_congr fun p _ => h p

theorem ofClass_put_self : (N.put p l).ofClass cls k p = l.filter fun y => cls y = k := by
  unfold ofClass
  rw [items_put_self]

theorem ofClass_put_of_ne (h : q ≠ p) : (N.put p l).ofClass cls k q = N.ofClass cls k q := by
  unfold ofClass
  rw [items_put_of_ne h]

/-- The items of another class stay when an item enters. -/
theorem ofClass_enter (hp : N.items p = l ++ r) (hx : cls x ≠ k) (o : P) :
    (N.put p (l ++ x :: r)).ofClass cls k o = N.ofClass cls k o := by
  by_cases ho : o = p
  · subst ho
    rw [ofClass_put_self, filter_of_ne hx, ← hp]
    rfl
  · exact ofClass_put_of_ne ho

/-- The items of another class stay when an item leaves. -/
theorem ofClass_leave (hp : N.items p = l ++ x :: r) (hx : cls x ≠ k) (o : P) :
    (N.put p (l ++ r)).ofClass cls k o = N.ofClass cls k o := by
  by_cases ho : o = p
  · subst ho
    rw [ofClass_put_self, ← filter_of_ne hx, ← hp]
    rfl
  · exact ofClass_put_of_ne ho

/-- An item that is accepted comes last in its line. -/
theorem line_enter (hnodup : (route (cls x)).Nodup) (hroute : [p] <+: route (cls x))
    (hp : N.items p = l ++ r) (hlast : ∀ y ∈ r, cls y ≠ cls x) :
    (N.put p (l ++ x :: r)).line cls route (cls x) = N.line cls route (cls x) ++ [x] := by
  obtain ⟨t, ht⟩ := hroute
  have hroute : [] ++ [p] ++ t = route (cls x) := ht
  have hother : ∀ o ∈ t, o ≠ p := by
    rw [← ht, List.singleton_append, List.nodup_cons] at hnodup
    rintro o ho rfl
    exact hnodup.1 ho
  have hplace : (N.put p (l ++ x :: r)).ofClass cls (cls x) p = N.ofClass cls (cls x) p ++ [x] := by
    rw [ofClass_put_self, filter_last hlast, ← hp]
    rfl
  rw [line_of_route hroute, line_of_route hroute,
    flatMap_congr fun o ho => ofClass_put_of_ne (hother o ho)]
  simp [hplace]

/-- An item that moves on keeps its place in its line. -/
theorem line_move (hnodup : (route (cls x)).Nodup) (hroute : [p, q] <:+: route (cls x))
    (hp : N.items p = l ++ x :: r) (hq : N.items q = l' ++ r') (hfirst : ∀ y ∈ l, cls y ≠ cls x)
    (hlast : ∀ y ∈ r', cls y ≠ cls x) :
    ((N.put p (l ++ r)).put q (l' ++ x :: r')).line cls route (cls x) = N.line cls route (cls x) := by
  have hpq := ne_of_infix hnodup hroute
  obtain ⟨s, t, hst⟩ := hroute
  have hdistinct : (s ++ [p, q] ++ t).Nodup := hst ▸ hnodup
  have hs : ∀ o ∈ s, o ≠ p ∧ o ≠ q := by
    intro o ho
    have hdisjoint := (List.nodup_append.mp (List.nodup_append.mp hdistinct).1).2.2 o ho
    exact ⟨hdisjoint p (by simp), hdisjoint q (by simp)⟩
  have ht : ∀ o ∈ t, o ≠ p ∧ o ≠ q := by
    intro o ho
    have hdisjoint := (List.nodup_append.mp hdistinct).2.2
    exact ⟨(hdisjoint p (by simp) o ho).symm, (hdisjoint q (by simp) o ho).symm⟩
  have hother : ∀ o, o ≠ p ∧ o ≠ q → ((N.put p (l ++ r)).put q (l' ++ x :: r')).ofClass cls (cls x) o =
      N.ofClass cls (cls x) o := by
    intro o ho
    rw [ofClass_put_of_ne ho.2, ofClass_put_of_ne ho.1]
  have hleft : ((N.put p (l ++ r)).put q (l' ++ x :: r')).ofClass cls (cls x) p =
      (l ++ r).filter fun y => cls y = cls x := by
    rw [ofClass_put_of_ne hpq, ofClass_put_self]
  have hentered : ((N.put p (l ++ r)).put q (l' ++ x :: r')).ofClass cls (cls x) q =
      N.ofClass cls (cls x) q ++ [x] := by
    rw [ofClass_put_self, filter_last hlast, ← hq]
    rfl
  have hbefore : N.ofClass cls (cls x) p = x :: (l ++ r).filter fun y => cls y = cls x := by
    unfold ofClass
    rw [hp, filter_first hfirst]
  rw [line_of_route hst, line_of_route hst, flatMap_congr fun o ho => hother o (hs o ho),
    flatMap_congr fun o ho => hother o (ht o ho)]
  simp [hleft, hentered, hbefore]

/-- **A step in order** keeps the items of each class in the order of acceptance. -/
theorem Step.line_eq (hnodup : ∀ k, (route k).Nodup) (h : Step cls route True N N')
    (hN : ∀ k, N.line cls route k = N.accepted.filter fun x => cls x = k) (k : κ) :
    N'.line cls route k = N'.accepted.filter fun x => cls x = k := by
  cases h with
  | @accept p x l r hroute hp hlast =>
    rw [accepted_accept, accepted_put, List.filter_append, ← hN k]
    change (N.put p (l ++ x :: r)).line cls route k = _
    by_cases hk : cls x = k
    · subst hk
      rw [line_enter (hnodup _) hroute hp (hlast trivial)]
      simp
    · rw [line_congr (ofClass_enter hp hk)]
      simp [hk]
  | @move p q x l r l' r' hroute hp hq hfirst hlast =>
    rw [accepted_put, accepted_put, ← hN k]
    by_cases hk : cls x = k
    · subst hk
      exact line_move (hnodup _) hroute hp hq (hfirst trivial) (hlast trivial)
    · have hne := ne_of_infix (hnodup _) hroute
      have hq' := (items_put_of_ne (l := l ++ r) hne.symm).trans hq
      rw [line_congr (ofClass_enter hq' hk), line_congr (ofClass_leave hp hk)]

omit [DecidableEq P] in
/-- The items at the end of a route are the first ones of their line. -/
theorem ofClass_prefix_line {places : List P} (h : route k = places ++ [p]) :
    N.ofClass cls k p <+: N.line cls route k := by
  unfold line
  rw [h, List.reverse_append, List.reverse_singleton, List.flatMap_append, List.flatMap_singleton]
  exact List.prefix_append _ _

end Order

/-! ### Runs -/

section Runs

variable (hnodup : ∀ k, (route k).Nodup)
  (h : Relation.ReflTransGen (Step cls route ordered) ({} : Network P ι) N)

include hnodup h

/-- **In every run** every accepted item is at one place. -/
theorem conserved_of_steps [Fintype P] : N.Conserved := by
  induction h with
  | refl => exact Finset.sum_eq_zero fun _ _ => rfl
  | tail _ hstep ih => exact hstep.keeps_conserved hnodup ih

end Runs

/-- **In every run in order** the items of each class stay in the order of acceptance. -/
theorem line_of_steps [DecidableEq κ] (hnodup : ∀ k, (route k).Nodup)
    (h : Relation.ReflTransGen (Step cls route True) ({} : Network P ι) N) (k : κ) :
    N.line cls route k = N.accepted.filter fun x => cls x = k := by
  induction h generalizing k with
  | refl => simp [line, ofClass]
  | tail _ hstep ih => exact hstep.line_eq hnodup ih k

/-! ### The way that is left -/

section Remaining

variable [Fintype P] {weight : P → ℕ}

/-- The way that is left: every item counts the weight of its place. -/
def remaining (weight : P → ℕ) (N : Network P ι) : ℕ := ∑ p, weight p * (N.items p).length

variable (weight) in
theorem remaining_put (N : Network P ι) (p : P) (l : List ι) :
    (N.put p l).remaining weight + weight p * (N.items p).length =
      N.remaining weight + weight p * l.length := by
  have hother : ∀ o ∈ Finset.univ.erase p,
      weight o * ((N.put p l).items o).length = weight o * (N.items o).length := by
    intro o ho
    rw [items_put_of_ne (Finset.ne_of_mem_erase ho)]
  unfold remaining
  rw [← Finset.sum_erase_add _ _ (Finset.mem_univ p), ← Finset.sum_erase_add _ _ (Finset.mem_univ p),
    Finset.sum_congr rfl hother, items_put_self]
  omega

variable (weight) in
/-- **A move** goes the way between two weights. -/
theorem remaining_move (hpq : p ≠ q) (hp : N.items p = l ++ x :: r) (hq : N.items q = l' ++ r') :
    ((N.put p (l ++ r)).put q (l' ++ x :: r')).remaining weight + weight p =
      N.remaining weight + weight q := by
  have hleave := remaining_put weight N p (l ++ r)
  have henter := remaining_put weight (N.put p (l ++ r)) q (l' ++ x :: r')
  rw [items_put_of_ne hpq.symm, hq] at henter
  rw [hp] at hleave
  simp only [List.length_append, List.length_cons, Nat.mul_add, Nat.mul_one] at hleave henter
  omega

omit [Fintype P] in
theorem steps_accepted (h : Relation.ReflTransGen (Step cls route ordered) N N') :
    N.accepted <+: N'.accepted := by
  induction h with
  | refl => exact List.prefix_rfl
  | tail _ hstep ih =>
    cases hstep with
    | accept _ _ _ => exact ih.trans (List.prefix_append _ _)
    | move _ _ _ _ _ => exact ih

/-- **Steps without an acceptance** leave the network, or go on along falling routes. -/
theorem steps_remaining (hfalls : ∀ k, (route k).Pairwise fun p q => weight q < weight p)
    (h : Relation.ReflTransGen (Step cls route ordered) N N') (haccepted : N'.accepted = N.accepted) :
    N' = N ∨ N'.remaining weight < N.remaining weight := by
  induction h with
  | refl => exact Or.inl rfl
  | @tail M N' hsteps hstep ih =>
    have hprefix := steps_accepted hsteps
    cases hstep with
    | @accept p y l r _ _ _ =>
      have hlength := congrArg List.length haccepted
      have hle := hprefix.length_le
      simp only [accepted_accept, accepted_put, List.length_append, List.length_singleton] at hlength
      omega
    | @move p q y l r l' r' hroute hp hq _ _ =>
      have hfall := (List.pairwise_iff_forall_sublist.mp (hfalls (cls y))) hroute.sublist
      have hpq : p ≠ q := by
        rintro rfl
        exact lt_irrefl _ hfall
      have hmove := remaining_move weight hpq hp hq
      right
      rcases ih haccepted with rfl | hlt
      · omega
      · omega

end Remaining

/-! ### What is seen of a network -/

section Views

variable {γ : Type} (view : P → ι → γ)

omit [DecidableEq P] in
/-- What is seen at the places are the items, each through its view. -/
def Shows (N : Network P ι) (shown : P → List γ) : Prop := ∀ p, shown p = (N.items p).map (view p)

variable (cls route ordered) in
/-- What is seen changes by steps without an acceptance. -/
def Carries (shown shown' : P → List γ) : Prop :=
  ∀ N : Network P ι, N.OnRoute cls route → N.Shows view shown →
    ∃ N', Relation.ReflTransGen (Step cls route ordered) N N' ∧ N'.accepted = N.accepted ∧
      N'.Shows view shown'

variable {view} {shown shown' shown'' : P → List γ} {a b a' b' : List γ} {c c' : γ}

theorem Shows.put (h : N.Shows view shown) (hp : shown' p = l.map (view p))
    (hother : ∀ o, o ≠ p → shown' o = shown o) : (N.put p l).Shows view shown' := by
  intro o
  by_cases ho : o = p
  · subst ho
    rw [items_put_self]
    exact hp
  · rw [items_put_of_ne ho, hother o ho]
    exact h o

/-- An acceptance is seen at the start of the route. -/
theorem Shows.accept (h : N.Shows view shown) (hp : shown p = a ++ b) (hp' : shown' p = a ++ view p x :: b)
    (hother : ∀ o, o ≠ p → shown' o = shown o) (hroute : [p] <+: route (cls x))
    (hlast : ordered → ∀ y ∈ N.items p, view p y ∈ b → cls y ≠ cls x) :
    ∃ N', Step cls route ordered N N' ∧ N'.accepted = N.accepted ++ [x] ∧ N'.Shows view shown' := by
  obtain ⟨l, r, hitems, rfl, rfl⟩ := List.map_eq_append_iff.mp ((h p).symm.trans hp)
  refine ⟨_, .accept hroute hitems fun ho y hy => ?_, rfl, ?_⟩
  · exact hlast ho y (hitems ▸ List.mem_append_right l hy) (List.mem_map_of_mem hy)
  · refine h.put ?_ hother
    rw [hp']
    simp

/-- A change of what is seen at two places is a move. -/
theorem carries_move (hpq : p ≠ q) (hp : shown p = a ++ c :: b) (hq : shown q = a' ++ b')
    (hp' : shown' p = a ++ b) (hq' : shown' q = a' ++ c' :: b')
    (hother : ∀ o, o ≠ p → o ≠ q → shown' o = shown o)
    (hitem : ∀ x, p ∈ route (cls x) → view p x = c → view q x = c' ∧ [p, q] <:+: route (cls x) ∧
      (ordered → (∀ y, p ∈ route (cls y) → view p y ∈ a → cls y ≠ cls x) ∧
        ∀ y, q ∈ route (cls y) → view q y ∈ b' → cls y ≠ cls x)) :
    Carries cls route ordered view shown shown' := by
  intro N hroute h
  obtain ⟨l, m, hitems, rfl, hm⟩ := List.map_eq_append_iff.mp ((h p).symm.trans hp)
  obtain ⟨x, r, rfl, hx, rfl⟩ := List.map_eq_cons_iff.mp hm
  obtain ⟨l', r', hitems', rfl, rfl⟩ := List.map_eq_append_iff.mp ((h q).symm.trans hq)
  obtain ⟨hview, hinfix, hordered⟩ := hitem x (hroute p x (hitems ▸ by simp)) hx
  refine ⟨_, .single (.move hinfix hitems hitems' ?_ ?_), rfl, ?_⟩
  · intro ho y hy
    exact (hordered ho).1 y (hroute p y (hitems ▸ List.mem_append_left _ hy)) (List.mem_map_of_mem hy)
  · intro ho y hy
    exact (hordered ho).2 y (hroute q y (hitems' ▸ List.mem_append_right _ hy)) (List.mem_map_of_mem hy)
  · intro o
    by_cases hoq : o = q
    · subst hoq
      rw [items_put_self, hq', ← hview]
      simp
    · rw [items_put_of_ne hoq]
      by_cases hop : o = p
      · subst hop
        rw [items_put_self, hp']
        simp
      · rw [items_put_of_ne hop, hother o hop hoq]
        exact h o

/-- What the steps keep, they keep all along. -/
theorem steps_onRoute (hnodup : ∀ k, (route k).Nodup)
    (h : Relation.ReflTransGen (Step cls route ordered) N N') (hN : N.OnRoute cls route) :
    N'.OnRoute cls route := by
  induction h with
  | refl => exact hN
  | tail _ hstep ih => exact hstep.onRoute hnodup ih

theorem Carries.refl : Carries cls route ordered view shown shown :=
  fun N _ h => ⟨N, .refl, rfl, h⟩

theorem Carries.trans (hnodup : ∀ k, (route k).Nodup) (h : Carries cls route ordered view shown shown')
    (h' : Carries cls route ordered view shown' shown'') :
    Carries cls route ordered view shown shown'' := by
  intro N hN hshows
  obtain ⟨N₁, hsteps₁, haccepted₁, hshows₁⟩ := h N hN hshows
  obtain ⟨N₂, hsteps₂, haccepted₂, hshows₂⟩ := h' N₁ (steps_onRoute hnodup hsteps₁ hN) hshows₁
  exact ⟨N₂, hsteps₁.trans hsteps₂, haccepted₂.trans haccepted₁, hshows₂⟩

end Views

end Network
