import Mathlib
import Drafting.Proofs.Graph.Exchanges
import Drafting.Proofs.Graph.ProperLayering

/-!
What the reduction of crossings guarantees.

A sweep may add crossings and an exchange may undo another one, so nothing is known of the order
that a pass ends with, except that it rearranges the ranks.  The order that is kept is one that was
seen, with the crossings that were counted in it.

* `Layers.PassesEnd`: the passes, without a bound on the exchanges in each;
  `Layers.passesEnd_improve`: they end, and with the order that is kept.
* `Layers.exchanges_end_in_every_part`: so they do for every part of a scope.
* `Layers.crossings_improve_le`: the passes never give up crossings that were removed.
* `Layers.Fits.flatten_perm`: layers that fit hold every node exactly once.
* `Layers.minimize_keeps_nodes_and_adds_no_crossing`: the order that is kept is one of all nodes,
  each in its rank, and is not worse than that of the depth-first walk.
-/

namespace Drafting.Graph

variable {α : Type}

namespace Layers

/-! ### Passes -/

section Unbounded

variable [Scalar α]

variable (α) in
/-- The passes from an order and a best one, with the number that is left of them: each sweeps once
and then exchanges neighbours until a round finds nothing to exchange. -/
inductive PassesEnd (heuristic : Heuristic) (predecessors successors : Array (List Nat)) :
    (passes : Nat) → (down : Bool) → (layers best : Layers) → (fewest : Nat) →
    (last : Layers) → Prop
  | done {down : Bool} {layers best : Layers} {fewest : Nat} :
      PassesEnd heuristic predecessors successors 0 down layers best fewest best
  | uncrossed {passes : Nat} {down : Bool} {layers best : Layers} :
      PassesEnd heuristic predecessors successors (passes + 1) down layers best 0 best
  | better {passes : Nat} {down : Bool} {layers best next last : Layers} {fewest : Nat}
      (hpos : fewest ≠ 0)
      (hends : RoundsEnd predecessors successors
        (sweep α heuristic predecessors successors down layers) next)
      (hfewer : crossings successors next < fewest)
      (rest : PassesEnd heuristic predecessors successors passes (!down) next next
        (crossings successors next) last) :
      PassesEnd heuristic predecessors successors (passes + 1) down layers best fewest last
  | worse {passes : Nat} {down : Bool} {layers best next last : Layers} {fewest : Nat}
      (hpos : fewest ≠ 0)
      (hends : RoundsEnd predecessors successors
        (sweep α heuristic predecessors successors down layers) next)
      (hkeep : fewest ≤ crossings successors next)
      (rest : PassesEnd heuristic predecessors successors passes (!down) next best fewest last) :
      PassesEnd heuristic predecessors successors (passes + 1) down layers best fewest last

variable {g : Layering α} {heuristic : Heuristic} {passes : Nat} {down : Bool}
    {layers best last last' : Layers} {fewest : Nat}

/-- Where the passes end is known from where they begin. -/
lemma PassesEnd.unique {predecessors successors : Array (List Nat)}
    (h : PassesEnd α heuristic predecessors successors passes down layers best fewest last)
    (h' : PassesEnd α heuristic predecessors successors passes down layers best fewest last') :
    last = last' := by
  induction h with
  | done =>
      cases h'
      rfl
  | uncrossed =>
      cases h' with
      | uncrossed => rfl
      | better hpos => exact absurd rfl hpos
      | worse hpos => exact absurd rfl hpos
  | better hpos hends hfewer _ ih =>
      cases h' with
      | uncrossed => exact absurd rfl hpos
      | better _ hends' _ rest =>
          obtain rfl := hends.unique hends'
          exact ih rest
      | worse _ hends' hkeep =>
          obtain rfl := hends.unique hends'
          exact absurd hfewer (Nat.not_lt.mpr hkeep)
  | worse hpos hends hkeep _ ih =>
      cases h' with
      | uncrossed => exact absurd rfl hpos
      | better _ hends' hfewer =>
          obtain rfl := hends.unique hends'
          exact absurd hfewer (Nat.not_lt.mpr hkeep)
      | worse _ hends' _ rest =>
          obtain rfl := hends.unique hends'
          exact ih rest

/-- One pass: its exchanges end before their rounds are used up, and it places every node. -/
lemma Places.pass (hg : g.Stepwise) (h : Places g layers) (heuristic : Heuristic) (down : Bool) :
    let swept := sweep α heuristic g.predecessors g.successors down layers
    let next := transpose g.predecessors g.successors swept
    RoundsEnd g.predecessors g.successors swept next ∧ Places g next := by
  intro swept next
  have hswept : Places g swept := h.rearranges (rearranges_sweep heuristic _ _ down layers)
  have hends : RoundsEnd g.predecessors g.successors swept next :=
    hswept.roundsEnd hg (Nat.le_refl _)
  exact ⟨hends, (hends.spec hg hswept).1⟩

/-- **All passes end, and with the order that is kept.** -/
lemma passesEnd_improve (hg : g.Stepwise) (h : Places g layers) (heuristic : Heuristic)
    (passes : Nat) (down : Bool) (best : Layers) (fewest : Nat) :
    PassesEnd α heuristic g.predecessors g.successors passes down layers best fewest
      (improve α heuristic g.predecessors g.successors passes down layers best fewest) := by
  induction passes generalizing down layers best fewest with
  | zero => exact PassesEnd.done
  | succ passes ih =>
      obtain ⟨hends, hnext⟩ := h.pass hg heuristic down
      rw [improve]
      split
      · next hzero =>
          subst hzero
          exact PassesEnd.uncrossed
      · next hpos =>
          simp only
          split
          · next hfewer => exact PassesEnd.better hpos hends hfewer (ih hnext _ _ _)
          · next hkeep =>
              exact PassesEnd.worse hpos hends (Nat.not_lt.mp hkeep) (ih hnext _ _ _)

/-- **The reduction of crossings is what passes with unbounded exchanges end with.** -/
theorem minimize_eq_iff_passesEnd (hg : g.Proper) (passes : Nat) (heuristic : Heuristic)
    (last : Layers) :
    minimize g passes heuristic = last ↔
      PassesEnd α heuristic g.predecessors g.successors passes true (initial g) (initial g)
        (crossings g.successors (initial g)) last := by
  have hends := passesEnd_improve hg.stepwise ((fits_initial g).places hg.rank_lt) heuristic passes
    true (initial g) (crossings g.successors (initial g))
  refine ⟨?_, fun h => hends.unique h⟩
  rintro rfl
  exact hends

/-- The exchanges come to an end by themselves in every part of a scope that is laid out. -/
theorem exchanges_end_in_every_part {config : GraphConfig α} {sizes : Array (Size α)}
    {shapes : Array (EdgeShape α)} {s : Scope} {c : Component} {l : ComponentLayout α}
    {named after : Nat} (hs : s.WellFormed) (hc : c ∈ Component.ofScope s)
    (h : c.layout config sizes shapes named = .ok (l, after)) :
    ∃ ranking, let g := c.layering config sizes shapes named ranking
      l = c.arrange config sizes shapes ranking g ∧
      PassesEnd α config.orderingHeuristic g.predecessors g.successors config.orderingPasses true
        (initial g) (initial g) (crossings g.successors (initial g))
        (minimize g config.orderingPasses config.orderingHeuristic) := by
  obtain ⟨ranking, hranked, hl, -⟩ := Component.exists_ranked hs hc h
  exact ⟨ranking, hl, (minimize_eq_iff_passesEnd
    (Component.proper_layering hs hc hranked named) _ _ _).mp rfl⟩

end Unbounded

/-! ### Crossings -/

section Passes

variable [Scalar α]

/-- The passes start from a best order and the crossings counted in it, and end with an order that
has no more of them. -/
lemma crossings_improve_le (heuristic : Heuristic) (predecessors successors : Array (List Nat))
    (passes : Nat) (down : Bool) (layers best : Layers) :
    crossings successors (improve α heuristic predecessors successors passes down layers best
      (crossings successors best)) ≤ crossings successors best := by
  induction passes generalizing down layers best with
  | zero => exact Nat.le_refl _
  | succ passes ih =>
      set next := transpose predecessors successors
        (sweep α heuristic predecessors successors down layers) with hnext
      rw [improve]
      split
      · exact Nat.le_refl _
      · simp only [← hnext]
        split
        · next hfewer => exact Nat.le_trans (ih _ next next) (Nat.le_of_lt hfewer)
        · exact ih _ next best

end Passes

/-! ### Nodes -/

/-- Layers that fit hold every node exactly once, if there are as many ranks as nodes need. -/
lemma Fits.flatten_perm {g : Layering α} {layers : Layers} (h : Fits g layers)
    (hrank : ∀ v < g.nodes.size, rankOf g v < g.rankCount) :
    layers.flatten.Perm (List.range g.nodes.size) := by
  have hnodup : layers.flatten.Nodup := by
    refine List.nodup_flatten.mpr ⟨h.nodup, List.pairwise_iff_getElem.mpr ?_⟩
    intro r r' hr hr' hlt v hv hv'
    have hown := ((h.mem r _ (List.getElem?_eq_getElem hr) v).mp hv).2
    have hother := ((h.mem r' _ (List.getElem?_eq_getElem hr') v).mp hv').2
    omega
  refine (List.perm_ext_iff_of_nodup hnodup List.nodup_range).mpr fun v => ?_
  rw [List.mem_flatten, List.mem_range]
  constructor
  · rintro ⟨layer, hlayer, hv⟩
    exact h.toByRank.lt_of_mem hlayer hv
  · intro hv
    have hr : rankOf g v < layers.length := h.length ▸ hrank v hv
    have hlayer := List.getElem?_eq_getElem hr
    exact ⟨_, List.mem_of_getElem? hlayer, (h.mem _ _ hlayer v).mpr ⟨hv, rfl⟩⟩

variable [Scalar α]

/-- **The reduction of crossings loses no node and makes nothing worse.**  Whatever the number of
passes and the heuristic, the layers that are kept hold every node exactly once and in the layer of
its rank, and they have no more crossings than the order of the depth-first walk. -/
theorem minimize_keeps_nodes_and_adds_no_crossing (g : Layering α) (hg : g.Proper) (passes : Nat)
    (heuristic : Heuristic) :
    (minimize g passes heuristic).flatten.Perm (List.range g.nodes.size) ∧
      (∀ r layer, (minimize g passes heuristic)[r]? = some layer →
        ∀ v ∈ layer, rankOf g v = r) ∧
      crossings g.successors (minimize g passes heuristic) ≤
        crossings g.successors (initial g) := by
  have hfits := fits_minimize g passes heuristic
  refine ⟨hfits.flatten_perm hg.rank_lt, fun r layer hlayer v hv => ?_, ?_⟩
  · exact ((hfits.mem r layer hlayer v).mp hv).2
  · exact crossings_improve_le heuristic g.predecessors g.successors passes true _ _

/-- In the order of the walk the segments of a long and of a short edge cross; the order that is
kept has no crossing. -/
theorem minimize_uncrosses_a_long_edge :
    let g : Layering Rat :=
      Layering.ofEdges 10 0
        [⟨0, ⟨5, 5⟩, 10⟩, ⟨0, ⟨5, 5⟩, 10⟩, ⟨1, ⟨5, 5⟩, 10⟩, ⟨2, ⟨5, 5⟩, 10⟩]
        [(0, 2), (0, 3), (1, 2)]
    g.Proper ∧ (minimize g 8 .median).flatten.Perm (List.range 5) ∧
      crossings g.successors (minimize g 8 .median) = 0 ∧
      crossings g.successors (initial g) = 1 := by
  intro g
  have hg : g.Proper := ⟨by decide +kernel, by decide +kernel⟩
  obtain ⟨hnodes, -, -⟩ := minimize_keeps_nodes_and_adds_no_crossing g hg 8 .median
  exact ⟨hg, hnodes, by cbv, by cbv⟩

end Layers

end Drafting.Graph
