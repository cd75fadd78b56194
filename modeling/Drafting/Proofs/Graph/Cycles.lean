import Mathlib
import Drafting.Proofs.Graph.Nesting

/-!
Cycles of clusters that lie in each other.

A cluster lies in one other at most, so cycles are disjoint, and a walk outward that comes back has
met all of its cycle.  The clusters at which cycles are cut are the first of each cycle.

* `IsCycle`, `IsCycle.eq_of_mem`, `exists_isCycle`: the cycles of a relation that gives each
  point one next point at most.
* `encard_isCycle`: points that represent the cycles are as many as the cycles.
* `Clusters.IsFirst`, `Clusters.mem_cuts`: where cycles are cut.
-/

namespace Drafting.Graph

open Relation

/-! ### Cycles of a relation -/

section Cycles

variable {β : Type} {R S : β → β → Prop} {a b c : β} {z w : Cycle β}

/-- A directed cycle of a relation, which passes no point twice. -/
structure IsCycle (R : β → β → Prop) (z : Cycle β) : Prop where
  ne_nil : z ≠ Cycle.nil
  nodup : z.Nodup
  chain : z.Chain R

/-- All points of a cycle are reached from each other. -/
lemma IsCycle.transGen (h : IsCycle R z) (ha : a ∈ z) (hb : b ∈ z) : TransGen R a b :=
  Cycle.chain_iff_pairwise.mp (h.chain.imp fun _ _ => TransGen.single) a ha b hb

lemma IsCycle.exists_mem (h : IsCycle R z) : ∃ a, a ∈ z := by
  induction z with
  | nil => exact absurd rfl h.ne_nil
  | cons a l => exact ⟨a, by simp⟩

/-- A cycle can be read from each of its points. -/
lemma exists_eq_cons_of_mem (h : a ∈ z) : ∃ l : List β, z = ↑(a :: l) := by
  induction z using Quotient.inductionOn' with
  | h l =>
    obtain ⟨u, v, rfl⟩ := List.append_of_mem (show a ∈ l from h)
    have hrotated : List.IsRotated (u ++ a :: v) (a :: v ++ u) := List.isRotated_append
    exact ⟨v ++ u, Cycle.coe_eq_coe.mpr hrotated⟩

section Functional

variable (hR : Relator.RightUnique R)

include hR

/-- A way to a point that does not pass it before its end is determined by where it begins. -/
lemma eq_of_isChain {u v : List β} (hu : List.IsChain R (b :: (u ++ [a])))
    (hv : List.IsChain R (b :: (v ++ [a]))) (hau : a ∉ u) (hav : a ∉ v) : u = v := by
  induction u generalizing b v with
  | nil =>
      cases v with
      | nil => rfl
      | cons y v =>
          obtain rfl : a = y := hR (List.isChain_cons_cons.mp hu).1 (List.isChain_cons_cons.mp hv).1
          exact absurd List.mem_cons_self hav
  | cons x u ih =>
      rw [List.cons_append, List.isChain_cons_cons] at hu
      cases v with
      | nil =>
          obtain rfl : x = a := hR hu.1 (List.isChain_cons_cons.mp hv).1
          exact absurd List.mem_cons_self hau
      | cons y v =>
          rw [List.cons_append, List.isChain_cons_cons] at hv
          obtain rfl : x = y := hR hu.1 hv.1
          rw [List.mem_cons, not_or] at hau hav
          rw [ih hu.2 hv.2 hau.2 hav.2]

/-- Two cycles with a common point are the same. -/
lemma IsCycle.eq_of_mem (hz : IsCycle R z) (hw : IsCycle R w) (haz : a ∈ z) (haw : a ∈ w) :
    z = w := by
  obtain ⟨u, rfl⟩ := exists_eq_cons_of_mem haz
  obtain ⟨v, rfl⟩ := exists_eq_cons_of_mem haw
  have hu := List.nodup_cons.mp (Cycle.nodup_coe_iff.mp hz.nodup)
  have hv := List.nodup_cons.mp (Cycle.nodup_coe_iff.mp hw.nodup)
  rw [eq_of_isChain hR hz.chain hw.chain hu.1 hv.1]

/-- A walk never leaves a cycle. -/
lemma IsCycle.mem_of_transGen (h : IsCycle R z) (ha : a ∈ z) (hab : TransGen R a b) : b ∈ z := by
  have hstep : ∀ {x y}, x ∈ z → R x y → y ∈ z := by
    intro x y hx hxy
    obtain ⟨l, rfl⟩ := exists_eq_cons_of_mem hx
    cases l with
    | nil =>
        obtain rfl := hR hxy ((Cycle.chain_singleton _ _).mp h.chain)
        exact hx
    | cons next l =>
        obtain rfl : y = next := hR hxy (List.isChain_cons_cons.mp h.chain).1
        simp
  induction hab with
  | single hab => exact hstep ha hab
  | tail _ hbc ih => exact hstep ih hbc

/-- What lies on a cycle of fewer links stays on it with all links. -/
lemma transGen_self_of_step (hSR : ∀ x y, S x y → R x y) (h : TransGen S a a) (hab : R a b) :
    TransGen S b b := by
  obtain ⟨c, hac, hca⟩ := TransGen.head'_iff.mp h
  obtain rfl : b = c := hR hab (hSR _ _ hac)
  exact TransGen.tail' hca hac

lemma transGen_self_of_transGen (hSR : ∀ x y, S x y → R x y) (h : TransGen S a a)
    (hab : TransGen R a b) : TransGen S b b := by
  induction hab with
  | single hab => exact transGen_self_of_step hR hSR h hab
  | tail _ hbc ih => exact transGen_self_of_step hR hSR ih hbc

/-- From each point of a cycle there is a way back. -/
lemma transGen_back (h : TransGen R a a) (hab : TransGen R a b) : TransGen R b a := by
  have hstep : ∀ {x y}, TransGen R x a → R x y → TransGen R y a := by
    intro x y hxa hxy
    obtain ⟨c, hxc, hca⟩ := TransGen.head'_iff.mp hxa
    obtain rfl := hR hxy hxc
    exact TransGen.trans_right hca h
  induction hab with
  | single hab => exact hstep h hab
  | tail _ hbc ih => exact hstep ih hbc

/-- What is reached from itself lies on a cycle. -/
lemma exists_isCycle (h : TransGen R a a) : ∃ z, IsCycle R z ∧ a ∈ z := by
  have hexists : ∀ x, ∃ y, (∃ y, R x y) → R x y := fun x => by
    by_cases hx : ∃ y, R x y
    · exact ⟨hx.choose, fun _ => hx.choose_spec⟩
    · exact ⟨x, fun hy => absurd hy hx⟩
  choose next hnext using hexists
  have hreach : ∀ {b}, TransGen R a b → ∃ n, next^[n + 1] a = b := by
    intro b hab
    induction hab with
    | single hab => exact ⟨0, hR (hnext _ ⟨_, hab⟩) hab⟩
    | tail _ hbc ih =>
        obtain ⟨n, rfl⟩ := ih
        refine ⟨n + 1, ?_⟩
        rw [Function.iterate_succ_apply']
        exact hR (hnext _ ⟨_, hbc⟩) hbc
  have hlink : ∀ {x}, TransGen R x x → R x (next x) := fun hx =>
    hnext _ ((TransGen.head'_iff.mp hx).imp fun _ h => h.1)
  have hself : ∀ n, TransGen R (next^[n] a) (next^[n] a) := by
    intro n
    induction n with
    | zero => exact h
    | succ n ih =>
        rw [Function.iterate_succ_apply']
        exact transGen_self_of_step hR (fun _ _ => id) ih (hlink ih)
  obtain ⟨n, hn⟩ := hreach h
  have hperiodic : a ∈ Function.periodicPts next :=
    Function.mk_mem_periodicPts (Nat.succ_pos n) hn
  refine ⟨Function.periodicOrbit next a, ⟨?_, Function.nodup_periodicOrbit, ?_⟩,
    Function.self_mem_periodicOrbit hperiodic⟩
  · rw [Ne, Function.periodicOrbit_eq_nil_iff_not_periodic_pt, not_not]
    exact hperiodic
  · rw [Function.periodicOrbit_chain]
    intro i _
    rw [Function.iterate_succ_apply']
    exact hlink (hself i)

/-- **There are as many cycles as there are points that represent them.** -/
lemma encard_isCycle {points : List β} (hnodup : points.Nodup)
    (hself : ∀ a ∈ points, TransGen R a a)
    (hall : ∀ a, TransGen R a a → ∃ b ∈ points, TransGen R a b)
    (hone : ∀ a ∈ points, ∀ b ∈ points, TransGen R a b → a = b) :
    {z | IsCycle R z}.encard = points.length := by
  classical
  choose! f hf hmem using fun a (h : TransGen R a a) => exists_isCycle hR h
  have hinj : Set.InjOn f {a | a ∈ points} := by
    intro a ha b hb heq
    have hb' : b ∈ f a := heq ▸ hmem b (hself b hb)
    exact hone a ha b hb ((hf a (hself a ha)).transGen (hmem a (hself a ha)) hb')
  have himage : f '' {a | a ∈ points} = {z | IsCycle R z} := by
    ext z
    constructor
    · rintro ⟨a, ha, rfl⟩
      exact hf a (hself a ha)
    · intro hz
      obtain ⟨a, ha⟩ := hz.exists_mem
      obtain ⟨b, hb, hab⟩ := hall a (hz.transGen ha ha)
      exact ⟨b, hb, (hf b (hself b hb)).eq_of_mem hR hz (hmem b (hself b hb))
        (hz.mem_of_transGen hR ha hab)⟩
  rw [← himage, hinj.encard_image, ← List.coe_toFinset, Set.encard_coe_eq_coe_finsetCard,
    List.toFinset_card_of_nodup hnodup]

end Functional

end Cycles

/-! ### Where cycles are cut -/

namespace Clusters

variable {parents : Array (Option Nat)}

/-- A cluster lies in one cluster at most. -/
lemma rightUnique_liesIn (parents : Array (Option Nat)) : Relator.RightUnique (LiesIn parents) :=
  fun _ _ _ h h' => Option.some.inj (h.symm.trans h')

/-- The first cluster of a cycle. -/
def IsFirst (parents : Array (Option Nat)) (c : Nat) : Prop :=
  TransGen (LiesIn parents) c c ∧ ∀ d, TransGen (LiesIn parents) c d → c ≤ d

/-- A cycle has a first cluster. -/
lemma exists_isFirst {c : Nat} (h : TransGen (LiesIn parents) c c) :
    ∃ d, TransGen (LiesIn parents) c d ∧ IsFirst parents d := by
  classical
  have hexists : ∃ d, TransGen (LiesIn parents) c d := ⟨c, h⟩
  have hfirst := Nat.find_spec hexists
  refine ⟨Nat.find hexists, hfirst, ?_, fun d hd => Nat.find_min' hexists (hfirst.trans hd)⟩
  exact transGen_self_of_transGen (rightUnique_liesIn parents) (fun _ _ => id) h hfirst

/-- A cycle has one first cluster only. -/
lemma IsFirst.eq {c d : Nat} (hc : IsFirst parents c) (hd : IsFirst parents d)
    (h : TransGen (LiesIn parents) c d) : c = d :=
  Nat.le_antisymm (hc.2 d h) (hd.2 c (transGen_back (rightUnique_liesIn parents) hc.1 h))

lemma leadsTo_iff_transGen {c : Nat} :
    leadsTo parents c (parents.size + 1) (parents.getD c none) = true ↔
      TransGen (LiesIn parents) c c := by
  refine ⟨fun h => ?_, leadsTo_of_transGen⟩
  obtain ⟨i, _, hi⟩ := leadsTo_iff.mp h
  exact transGen_of_iterate (n := i) (by rw [Function.iterate_succ_apply]; exact hi)

/-- After the steps of the clusters below a number, the cycles with a first cluster below it are cut
there, and there only. -/
structure Cut (parents : Array (Option Nat)) (number : Nat)
    (state : Array (Option Nat) × List Nat) : Prop where
  /-- A cluster that was cut lies in nothing; the others lie where they did. -/
  liesIn : ∀ c d, LiesIn state.1 c d ↔ LiesIn parents c d ∧ c ∉ state.2
  /-- The first clusters of cycles are cut. -/
  mem : ∀ c, c ∈ state.2 ↔ c < number ∧ IsFirst parents c
  /-- No cluster is cut twice. -/
  nodup : state.2.Nodup

variable {number : Nat} {state : Array (Option Nat) × List Nat}

/-- A cluster still lies in itself exactly if it is the first of its cycle. -/
lemma Cut.transGen_iff (h : Cut parents number state) :
    TransGen (LiesIn state.1) number number ↔ IsFirst parents number := by
  have hsub : ∀ c d, LiesIn state.1 c d → LiesIn parents c d := fun c d hcd =>
    ((h.liesIn c d).mp hcd).1
  constructor
  · intro hcycle
    have hold := TransGen.mono hsub _ _ hcycle
    obtain ⟨first, hreach, hfirst⟩ := exists_isFirst hold
    -- the first cluster of the cycle was not cut, so its step is still to come
    have hkept : TransGen (LiesIn state.1) first first :=
      transGen_self_of_transGen (rightUnique_liesIn parents) hsub hcycle hreach
    obtain ⟨next, hnext, _⟩ := TransGen.head'_iff.mp hkept
    have huncut := ((h.liesIn first next).mp hnext).2
    rw [h.mem, not_and] at huncut
    have hle : number ≤ first := Nat.not_lt.mp fun hlt => huncut hlt hfirst
    refine ⟨hold, fun d hd => hle.trans (hfirst.2 d ?_)⟩
    exact (transGen_back (rightUnique_liesIn parents) hold hreach).trans hd
  · intro hfirst
    have hstays : ∀ {d e}, number ≤ d → LiesIn parents d e → LiesIn state.1 d e :=
      fun {d e} hd hde =>
      (h.liesIn d e).mpr ⟨hde, fun hcut => absurd ((h.mem d).mp hcut).1 (Nat.not_lt.mpr hd)⟩
    have hreach : ∀ {d}, TransGen (LiesIn parents) number d →
        TransGen (LiesIn state.1) number d := by
      intro d hd
      induction hd with
      | single hd => exact TransGen.single (hstays (Nat.le_refl _) hd)
      | tail hd hde ih => exact ih.tail (hstays (hfirst.2 _ hd) hde)
    exact hreach hfirst.1

lemma Cut.step (h : Cut parents number state) :
    Cut parents (number + 1) (breakCycle state number) := by
  obtain ⟨current, cuts⟩ := state
  have hmem := h.mem
  rw [breakCycle]
  by_cases hfirst : IsFirst parents number
  · rw [if_pos (leadsTo_iff_transGen.mpr (h.transGen_iff.mpr hfirst))]
    refine ⟨fun c d => ?_, fun c => ?_, ?_⟩
    · rw [LiesIn, getD_setIfInBounds_none, List.mem_append, List.mem_singleton, not_or]
      have hold := h.liesIn c d
      by_cases hc : number = c
      · simp [hc]
      · rw [if_neg hc]
        exact hold.trans (by simp [Ne.symm hc])
    · rw [List.mem_append, List.mem_singleton, hmem]
      constructor
      · rintro (⟨hlt, hc⟩ | rfl)
        · exact ⟨by omega, hc⟩
        · exact ⟨by omega, hfirst⟩
      · rintro ⟨hlt, hc⟩
        rcases Nat.lt_succ_iff_lt_or_eq.mp hlt with hlt | rfl
        · exact Or.inl ⟨hlt, hc⟩
        · exact Or.inr rfl
    · rw [List.nodup_append]
      refine ⟨h.nodup, List.nodup_singleton _, fun c hc d hd => ?_⟩
      rw [List.mem_singleton] at hd
      have hlt := ((hmem c).mp hc).1
      omega
  · rw [if_neg fun hleads => hfirst (h.transGen_iff.mp (leadsTo_iff_transGen.mp hleads))]
    refine ⟨h.liesIn, fun c => (hmem c).trans ?_, h.nodup⟩
    constructor
    · rintro ⟨hlt, hc⟩
      exact ⟨by omega, hc⟩
    · rintro ⟨hlt, hc⟩
      rcases Nat.lt_succ_iff_lt_or_eq.mp hlt with hlt | rfl
      · exact ⟨hlt, hc⟩
      · exact absurd hc hfirst

lemma cut_range (parents : Array (Option Nat)) (number : Nat) :
    Cut parents number ((List.range number).foldl breakCycle (parents, [])) := by
  induction number with
  | zero => exact ⟨by simp, by simp, List.nodup_nil⟩
  | succ number ih =>
      rw [List.range_succ, List.foldl_append]
      exact ih.step

/-- **Cycles are cut at their first clusters.** -/
lemma mem_cuts {c : Nat} : c ∈ (breakCycles parents).2 ↔ IsFirst parents c := by
  rw [breakCycles, (cut_range parents parents.size).mem]
  refine and_iff_right_of_imp fun h => ?_
  obtain ⟨d, hd, _⟩ := TransGen.head'_iff.mp h.1
  exact hd.lt_size

lemma nodup_cuts (parents : Array (Option Nat)) : (breakCycles parents).2.Nodup :=
  (cut_range parents parents.size).nodup

end Clusters

end Drafting.Graph
