import Mathlib
import Drafting.Proofs.Graph.Crossings

/-!
Exchanges of neighbours, and the loop that ends with them.

Positions are computed once for a round, and those of the layer that is improved are out of date
after its first exchange.  The crossings that an exchange removes depend on the other layers only,
so each exchange still removes what it seems to.

* `Layers.Places.between_exchange`, `Layers.Places.crossings_exchange`: what an exchange does to the
  crossings between two ranks, and to all.
* `Layers.Swaps`: exchanges of neighbours one after the other; `Layers.swaps_bubble` finds them in a
  pass through a layer, and `Layers.Places.crossings_swaps` adds up what they remove.
* `Layers.RoundsEnd`: the loop over rounds, without a bound on their number.
* `Layers.transpose_ends_at_local_optimum`: the loop ends, and no exchange
  improves what it ends with.
-/

namespace Drafting.Graph.Layers

open scoped List

variable {α : Type} {g : Layering α} {layers : Layers}

/-! ### Exchanging neighbours -/

lemma Places.set (h : Places g layers) {r : Nat} {layer layer' : List Nat}
    (hlayer : layers[r]? = some layer) (hperm : layer ~ layer') :
    Places g (layers.set r layer') := by
  have hr := (List.getElem?_eq_some_iff.mp hlayer).1
  refine ⟨⟨fun t row hrow v => ?_, fun row hrow => ?_⟩, fun v hv => ?_⟩
  · rw [List.getElem?_set] at hrow
    split at hrow
    · next hrt =>
        obtain rfl := Option.some.inj hrow
        rw [← hperm.mem_iff, h.mem r layer hlayer, hrt]
    · exact h.mem t row hrow v
  · rcases List.mem_or_eq_of_mem_set hrow with hrow | rfl
    · exact h.nodup row hrow
    · exact hperm.nodup_iff.mp (h.nodup layer (List.mem_of_getElem? hlayer))
  · rw [List.length_set]
    exact h.rank_lt v hv

/-- Changing one layer moves no node of another. -/
lemma position_set {r v : Nat} (layer' : List Nat) (hv : rankOf g v ≠ r) :
    position g (layers.set r layer') v = position g layers v := by
  rw [position, position, List.getD_eq_getElem?_getD, List.getElem?_set_ne (Ne.symm hv),
    List.getD_eq_getElem?_getD]

/-- The crossings between two ranks depend on the positions in these only. -/
lemma between_congr (hg : g.Stepwise) {layers' : Layers} {r : Nat}
    (h : ∀ u, rankOf g u = r ∨ rankOf g u = r + 1 →
      position g layers' u = position g layers u) :
    between g layers' r = between g layers r := by
  refine sumPairs_congr (List.pairwise_of_forall_mem_list fun e he f hf => ?_)
  obtain ⟨he, her⟩ := List.mem_filter.mp he
  obtain ⟨hf, hfr⟩ := List.mem_filter.mp hf
  have her := of_decide_eq_true her
  have hfr := of_decide_eq_true hfr
  have hlower : ∀ e ∈ g.segments, rankOf g e.1 = r →
      position g layers' e.2 = position g layers e.2 := fun e he hr =>
    h e.2 (Or.inr ((hg e he).2.2.trans (by rw [hr])))
  refine if_congr ?_ rfl rfl
  rw [Crosses, Crosses, h e.1 (Or.inl her), h f.1 (Or.inl hfr), hlower e he her, hlower f hf hfr]

section Exchange

variable {r : Nat} {layer xs ys : List Nat} {v w : Nat} {ps : Array Nat}

lemma swap_perm (xs : List Nat) (v w : Nat) (ys : List Nat) :
    (xs ++ v :: w :: ys) ~ (xs ++ w :: v :: ys) :=
  (List.Perm.swap w v ys).append_left xs

/-- The crossings of the segments that two neighbours have to the rank before. -/
def crossingsAbove (g : Layering α) (ps : Array Nat) (v w : Nat) : Nat :=
  pairCrossings ps (g.predecessors.getD v []) (g.predecessors.getD w [])

/-- The crossings of the segments that two neighbours have to the next rank. -/
def crossingsBelow (g : Layering α) (ps : Array Nat) (v w : Nat) : Nat :=
  pairCrossings ps (g.successors.getD v []) (g.successors.getD w [])

lemma neighbourCrossings_eq : neighbourCrossings g.predecessors g.successors ps v w =
    crossingsAbove g ps v w + crossingsBelow g ps v w := rfl

/-- An exchange changes the crossings below the rank by those of the segments to the next rank. -/
lemma Places.between_exchange_below (hg : g.Stepwise) (h : Places g layers)
    (hlayer : layers[r]? = some (xs ++ v :: w :: ys))
    (hps : ∀ u < g.nodes.size, rankOf g u ≠ r → ps.getD u 0 = position g layers u) :
    between g (layers.set r (xs ++ w :: v :: ys)) r + crossingsBelow g ps v w =
      between g layers r + crossingsBelow g ps w v := by
  have hr := (List.getElem?_eq_some_iff.mp hlayer).1
  have h' := h.set hlayer (swap_perm xs v w ys)
  rw [← h.rankCrossings_successors hg hlayer fun u hu hrank => hps u hu (by omega),
    ← h'.rankCrossings_successors hg (List.getElem?_set_self hr) fun u hu hrank => by
      rw [position_set _ (by omega)]
      exact hps u hu (by omega)]
  exact sumPairs_exchange (crossingsBelow g ps) xs v w ys

/-- It changes those above the rank by those of the segments to the rank before. -/
lemma Places.between_exchange_above (hg : g.Stepwise) (h : Places g layers)
    (hlayer : layers[r + 1]? = some (xs ++ v :: w :: ys))
    (hps : ∀ u < g.nodes.size, rankOf g u ≠ r + 1 → ps.getD u 0 = position g layers u) :
    between g (layers.set (r + 1) (xs ++ w :: v :: ys)) r + crossingsAbove g ps v w =
      between g layers r + crossingsAbove g ps w v := by
  have hr := (List.getElem?_eq_some_iff.mp hlayer).1
  have h' := h.set hlayer (swap_perm xs v w ys)
  rw [← h.rankCrossings_predecessors hg hlayer fun u hu hrank => hps u hu (by omega),
    ← h'.rankCrossings_predecessors hg (List.getElem?_set_self hr) fun u hu hrank => by
      rw [position_set _ (by omega)]
      exact hps u hu (by omega)]
  exact sumPairs_exchange (crossingsAbove g ps) xs v w ys

/-- What an exchange changes between any two ranks. -/
lemma Places.between_exchange (hg : g.Stepwise) (h : Places g layers)
    (hlayer : layers[r]? = some (xs ++ v :: w :: ys))
    (hps : ∀ u < g.nodes.size, rankOf g u ≠ r → ps.getD u 0 = position g layers u) (i : Nat) :
    between g (layers.set r (xs ++ w :: v :: ys)) i +
        ((if i + 1 = r then crossingsAbove g ps v w else 0) +
          if i = r then crossingsBelow g ps v w else 0) =
      between g layers i +
        ((if i + 1 = r then crossingsAbove g ps w v else 0) +
          if i = r then crossingsBelow g ps w v else 0) := by
  by_cases hi : i = r
  · have hi' : ¬ i + 1 = r := by omega
    simp only [hi', if_false, if_pos hi, Nat.zero_add]
    rw [hi]
    exact h.between_exchange_below hg hlayer hps
  by_cases hi' : i + 1 = r
  · subst hi'
    simp only [hi, if_false, if_true, Nat.add_zero]
    exact h.between_exchange_above hg hlayer hps
  · rw [between_congr hg fun u hu => position_set _ (by omega)]
    simp only [hi, hi', if_false]

/-- A node of the first rank has nothing above it. -/
lemma predecessors_eq_nil (hg : g.Stepwise) (hv : v < g.nodes.size) (hrank : rankOf g v = 0) :
    g.predecessors.getD v [] = [] := by
  rw [Layering.predecessors, Layering.getD_adjacency hv, List.map_eq_nil_iff,
    List.filter_eq_nil_iff]
  refine List.forall_mem_map.mpr fun e he hev => ?_
  have hev : e.2 = v := of_decide_eq_true hev
  have := (hg e he).2.2
  rw [hev, hrank] at this
  omega

/-- What the segments of a node add to the crossings is found above and below its rank. -/
lemma Places.sum_neighbourCrossings (hg : g.Stepwise) (h : Places g layers)
    (hlayer : layers[r]? = some layer) (hv : v ∈ layer) (w : Nat) :
    ∑ i ∈ Finset.range layers.length,
        ((if i + 1 = r then crossingsAbove g ps v w else 0) +
          if i = r then crossingsBelow g ps v w else 0) =
      neighbourCrossings g.predecessors g.successors ps v w := by
  have hr := (List.getElem?_eq_some_iff.mp hlayer).1
  obtain ⟨hv, hrank⟩ := (h.mem r layer hlayer v).mp hv
  rw [neighbourCrossings_eq, Finset.sum_add_distrib, Finset.sum_ite_eq',
    if_pos (Finset.mem_range.mpr hr)]
  congr 1
  cases r with
  | zero =>
      have hnone : crossingsAbove g ps v w = 0 := by
        rw [crossingsAbove, predecessors_eq_nil hg hv hrank]
        rfl
      simp [hnone]
  | succ r => simp [Nat.lt_of_succ_lt hr]

lemma Places.crossings_eq (hg : g.Stepwise) (h : Places g layers) :
    crossings g.successors layers = ∑ r ∈ Finset.range layers.length, between g layers r :=
  crossingsBetween_eq_of_crossingsBetween? (h.crossings?_eq hg)

/-- **Exchanging two neighbours of a layer changes the crossings by those of their own segments**,
which are told from the positions in other layers. -/
lemma Places.crossings_exchange (hg : g.Stepwise) (h : Places g layers)
    (hlayer : layers[r]? = some (xs ++ v :: w :: ys))
    (hps : ∀ u < g.nodes.size, rankOf g u ≠ r → ps.getD u 0 = position g layers u) :
    crossings g.successors (layers.set r (xs ++ w :: v :: ys)) +
        neighbourCrossings g.predecessors g.successors ps v w =
      crossings g.successors layers +
        neighbourCrossings g.predecessors g.successors ps w v := by
  have h' := h.set hlayer (swap_perm xs v w ys)
  rw [h'.crossings_eq hg, List.length_set, h.crossings_eq hg,
    ← h.sum_neighbourCrossings hg hlayer (by simp) w,
    ← h.sum_neighbourCrossings hg hlayer (by simp) v, ← Finset.sum_add_distrib,
    ← Finset.sum_add_distrib]
  exact Finset.sum_congr rfl fun i _ => h.between_exchange hg hlayer hps i

end Exchange

/-! ### Exchanges one after the other -/

/-- A number of better exchanges of neighbours lead from one list to another. -/
inductive Swaps (better : Nat → Nat → Bool) : Nat → List Nat → List Nat → Prop
  | refl (xs : List Nat) : Swaps better 0 xs xs
  | step {n : Nat} {v w : Nat} {zs : List Nat} (xs ys : List Nat) (h : better v w)
      (rest : Swaps better n (xs ++ w :: v :: ys) zs) : Swaps better (n + 1) (xs ++ v :: w :: ys) zs

section Swaps

variable {better : Nat → Nat → Bool} {n : Nat}

lemma Swaps.cons (u : Nat) {xs zs : List Nat} (h : Swaps better n xs zs) :
    Swaps better n (u :: xs) (u :: zs) := by
  induction h with
  | refl xs => exact Swaps.refl _
  | step xs ys h _ ih => exact Swaps.step (u :: xs) ys h ih

/-- A pass through a layer exchanges neighbours one after the other; it tells
whether there were any. -/
lemma swaps_bubble (better : Nat → Nat → Bool) (v : Nat) (layer : List Nat) :
    ∃ n, Swaps better n (v :: layer) (bubble better v layer).1 ∧
      ((bubble better v layer).2 = true → 0 < n) := by
  induction layer generalizing v with
  | nil => exact ⟨0, Swaps.refl _, by simp [bubble]⟩
  | cons w layer ih =>
      rw [bubble]
      split
      · next hbetter =>
          obtain ⟨n, hswaps, -⟩ := ih v
          exact ⟨n + 1, Swaps.step [] layer hbetter (hswaps.cons w), fun _ => n.succ_pos⟩
      · obtain ⟨n, hswaps, hpos⟩ := ih w
        exact ⟨n, hswaps.cons v, hpos⟩

/-- A pass that exchanges nothing has met no neighbours that are better exchanged. -/
lemma isChain_of_bubble {v : Nat} {layer : List Nat} (h : (bubble better v layer).2 = false) :
    (v :: layer).IsChain fun v w => better v w = false := by
  induction layer generalizing v with
  | nil => exact List.isChain_singleton v
  | cons w layer ih =>
      rw [bubble] at h
      split at h
      · exact absurd h (by simp)
      · next hbetter => exact List.isChain_cons_cons.mpr ⟨by simpa using hbetter, ih h⟩

/-- A round improves one layer, by one exchange at least. -/
lemma exists_of_exchange? {improved : Layers} (h : exchange? better layers = some improved) :
    ∃ r layer zs n, layers[r]? = some layer ∧ improved = layers.set r zs ∧ 0 < n ∧
      Swaps better n layer zs := by
  induction layers generalizing improved with
  | nil => simp [exchange?] at h
  | cons layer layers ih =>
      have hlater : ∀ rest, exchange? better layers = some rest → layer :: rest = improved →
          ∃ r row zs n, (layer :: layers)[r]? = some row ∧ improved = (layer :: layers).set r zs ∧
            0 < n ∧ Swaps better n row zs := by
        rintro rest hrest rfl
        obtain ⟨r, row, zs, n, hrow, rfl, hpos, hswaps⟩ := ih hrest
        exact ⟨r + 1, row, zs, n, hrow, rfl, hpos, hswaps⟩
      cases layer with
      | nil =>
          obtain ⟨rest, hrest, himproved⟩ := Option.map_eq_some_iff.mp h
          exact hlater rest hrest himproved
      | cons v layer =>
          simp only [exchange?] at h
          split at h
          · next hchanged =>
              obtain ⟨n, hswaps, hpos⟩ := swaps_bubble better v layer
              exact ⟨0, v :: layer, _, n, rfl, (Option.some.inj h).symm, hpos hchanged, hswaps⟩
          · obtain ⟨rest, hrest, himproved⟩ := Option.map_eq_some_iff.mp h
            exact hlater rest hrest himproved

/-- No round can be made where no neighbours are better exchanged. -/
lemma isChain_of_exchange? (h : exchange? better layers = none) :
    ∀ layer ∈ layers, layer.IsChain fun v w => better v w = false := by
  induction layers with
  | nil => simp
  | cons layer layers ih =>
      rw [List.forall_mem_cons]
      cases layer with
      | nil => exact ⟨List.isChain_nil, ih (Option.map_eq_none_iff.mp h)⟩
      | cons v layer =>
          simp only [exchange?] at h
          split at h
          · exact absurd h (by simp)
          · next hchanged =>
              exact ⟨isChain_of_bubble (by simpa using hchanged), ih (Option.map_eq_none_iff.mp h)⟩

end Swaps

/-- **Every exchange of a round removes a crossing**, though the positions are
those from before it. -/
lemma Places.crossings_swaps (hg : g.Stepwise) (h : Places g layers) {r : Nat} {layer zs : List Nat}
    (hlayer : layers[r]? = some layer) {ps : Array Nat}
    (hps : ∀ u < g.nodes.size, rankOf g u ≠ r → ps.getD u 0 = position g layers u) {n : Nat}
    (hswaps : Swaps (isBetter g.predecessors g.successors ps) n layer zs) :
    Places g (layers.set r zs) ∧
      crossings g.successors (layers.set r zs) + n ≤ crossings g.successors layers := by
  induction hswaps generalizing layers with
  | refl xs =>
      obtain ⟨hr, rfl⟩ := List.getElem?_eq_some_iff.mp hlayer
      rw [List.set_getElem_self]
      exact ⟨h, Nat.le_refl _⟩
  | step xs ys hbetter _ ih =>
      have hexchange := h.crossings_exchange hg hlayer hps
      have hr := (List.getElem?_eq_some_iff.mp hlayer).1
      obtain ⟨hplaces, hle⟩ := ih (h.set hlayer (swap_perm xs _ _ ys)) (List.getElem?_set_self hr)
        fun u hu hrank => by
          rw [position_set _ hrank]
          exact hps u hu hrank
      rw [List.set_set] at hplaces hle
      have hfewer := of_decide_eq_true hbetter
      exact ⟨hplaces, by omega⟩

/-! ### Rounds -/

/-- The loop over rounds: it ends once a round finds nothing to exchange. -/
inductive RoundsEnd (predecessors successors : Array (List Nat)) : Layers → Layers → Prop
  | stop {layers : Layers} (h : exchangeRound predecessors successors layers = none) :
      RoundsEnd predecessors successors layers layers
  | next {layers improved last : Layers}
      (h : exchangeRound predecessors successors layers = some improved)
      (rest : RoundsEnd predecessors successors improved last) :
      RoundsEnd predecessors successors layers last

/-- Where the loop ends is known from where it begins. -/
lemma RoundsEnd.unique {predecessors successors : Array (List Nat)} {last last' : Layers}
    (h : RoundsEnd predecessors successors layers last)
    (h' : RoundsEnd predecessors successors layers last') : last = last' := by
  induction h with
  | stop hnone =>
      cases h' with
      | stop => rfl
      | next hsome => exact absurd (hnone.symm.trans hsome) nofun
  | next hsome _ ih =>
      cases h' with
      | stop hnone => exact absurd (hnone.symm.trans hsome) nofun
      | next hsome' rest =>
          obtain rfl := Option.some.inj (hsome.symm.trans hsome')
          exact ih rest

/-- The positions that a round starts from. -/
lemma Places.getD_positions_successors (h : Places g layers) {u : Nat} (hu : u < g.nodes.size) :
    (positions g.successors.size layers).getD u 0 = position g layers u := by
  have hsize : g.successors.size = g.nodes.size := Layering.size_adjacency _ _
  rw [hsize, h.getD_positions hu]

/-- A round removes crossings. -/
lemma Places.crossings_lt_of_exchangeRound (hg : g.Stepwise) (h : Places g layers)
    {improved : Layers}
    (hround : exchangeRound g.predecessors g.successors layers = some improved) :
    Places g improved ∧ crossings g.successors improved < crossings g.successors layers := by
  obtain ⟨r, layer, zs, n, hlayer, rfl, hpos, hswaps⟩ := exists_of_exchange? hround
  obtain ⟨hplaces, hle⟩ := h.crossings_swaps hg hlayer
    (fun u hu _ => h.getD_positions_successors hu) hswaps
  exact ⟨hplaces, by omega⟩

/-- As many rounds as there are crossings suffice. -/
lemma Places.roundsEnd (hg : g.Stepwise) (h : Places g layers) {rounds : Nat}
    (hle : crossings g.successors layers ≤ rounds) :
    RoundsEnd g.predecessors g.successors layers
      (transposeFor g.predecessors g.successors rounds layers) := by
  induction rounds generalizing layers with
  | zero =>
      refine RoundsEnd.stop (Option.eq_none_iff_forall_ne_some.mpr fun improved hround => ?_)
      have := (h.crossings_lt_of_exchangeRound hg hround).2
      omega
  | succ rounds ih =>
      rw [transposeFor]
      split
      · next hround => exact RoundsEnd.stop hround
      · next improved hround =>
          obtain ⟨hplaces, hlt⟩ := h.crossings_lt_of_exchangeRound hg hround
          exact RoundsEnd.next hround (ih hplaces (by omega))

/-- The loop ends where a round finds nothing to exchange, and it removes crossings if it exchanges
anything. -/
lemma RoundsEnd.spec (hg : g.Stepwise) {last : Layers}
    (hends : RoundsEnd g.predecessors g.successors layers last) (h : Places g layers) :
    Places g last ∧ exchangeRound g.predecessors g.successors last = none ∧
      crossings g.successors last ≤ crossings g.successors layers ∧
      (exchangeRound g.predecessors g.successors layers ≠ none →
        crossings g.successors last < crossings g.successors layers) := by
  induction hends with
  | stop hround => exact ⟨h, hround, Nat.le_refl _, fun hsome => absurd hround hsome⟩
  | next hround _ ih =>
      obtain ⟨hplaces, hlt⟩ := h.crossings_lt_of_exchangeRound hg hround
      obtain ⟨hlast, hnone, hle, -⟩ := ih hplaces
      exact ⟨hlast, hnone, hle.trans hlt.le, fun _ => hle.trans_lt hlt⟩

/-- Where a round finds nothing to exchange, no exchange of neighbours removes crossings. -/
lemma Places.crossings_le_of_exchangeRound (hg : g.Stepwise) (h : Places g layers)
    (hround : exchangeRound g.predecessors g.successors layers = none) {r v w : Nat}
    {xs ys : List Nat} (hlayer : layers[r]? = some (xs ++ v :: w :: ys)) :
    crossings g.successors layers ≤ crossings g.successors (layers.set r (xs ++ w :: v :: ys)) := by
  have hexchange := h.crossings_exchange hg hlayer fun u hu _ => h.getD_positions_successors hu
  have hchain := isChain_of_exchange? hround _ (List.mem_of_getElem? hlayer)
  have hkeep := (List.isChain_cons_cons.mp (List.isChain_append.mp hchain).2.1).1
  have hle := of_decide_eq_false hkeep
  omega

/-- **The exchange of neighbours ends, and with layers that no further exchange improves.**  The
loop over rounds comes to an end with the layers that are returned.  These hold the same nodes rank
by rank and have no more crossings, fewer if anything was exchanged, and exchanging two neighbours
of a layer in them does not lower the number of crossings. -/
theorem transpose_ends_at_local_optimum (g : Layering α) (hg : g.Stepwise) {layers : Layers}
    (h : Places g layers) :
    let last := transpose g.predecessors g.successors layers
    RoundsEnd g.predecessors g.successors layers last ∧ Rearranges layers last ∧
      crossings g.successors last ≤ crossings g.successors layers ∧
      (exchangeRound g.predecessors g.successors layers ≠ none →
        crossings g.successors last < crossings g.successors layers) ∧
      ∀ r xs v w ys, last[r]? = some (xs ++ v :: w :: ys) →
        crossings g.successors last ≤ crossings g.successors (last.set r (xs ++ w :: v :: ys)) := by
  intro last
  have hends : RoundsEnd g.predecessors g.successors layers last := h.roundsEnd hg (Nat.le_refl _)
  obtain ⟨hlast, hnone, hle, hfewer⟩ := hends.spec hg h
  exact ⟨hends, rearranges_transposeFor _ _ _ _, hle, hfewer,
    fun r xs v w ys hlayer => hlast.crossings_le_of_exchangeRound hg hnone hlayer⟩

/-- A node is exchanged with two neighbours in one round, and both of its crossings are gone. -/
theorem transpose_moves_a_node_past_two :
    let g : Layering Rat :=
      Layering.ofEdges 10 0
        [⟨0, ⟨5, 5⟩, 10⟩, ⟨0, ⟨5, 5⟩, 10⟩, ⟨0, ⟨5, 5⟩, 10⟩, ⟨1, ⟨5, 5⟩, 10⟩, ⟨1, ⟨5, 5⟩, 10⟩]
        [(0, 3), (0, 4), (1, 3), (2, 3)]
    g.Stepwise ∧ Places g [[0, 1, 2], [3, 4]] ∧
      RoundsEnd g.predecessors g.successors [[0, 1, 2], [3, 4]] [[1, 2, 0], [3, 4]] ∧
      crossings g.successors [[0, 1, 2], [3, 4]] = 2 ∧
      crossings g.successors [[1, 2, 0], [3, 4]] = 0 := by
  intro g
  have hg : g.Stepwise := by decide +kernel
  have hinitial : initial g = [[0, 1, 2], [3, 4]] := by cbv
  have hplaces : Places g [[0, 1, 2], [3, 4]] :=
    hinitial ▸ (fits_initial g).places (by decide +kernel)
  have hcrossings : crossings g.successors [[0, 1, 2], [3, 4]] = 2 := by cbv
  have hround : exchangeRound g.predecessors g.successors [[0, 1, 2], [3, 4]] =
      some [[1, 2, 0], [3, 4]] := by decide +kernel
  have hnone : exchangeRound g.predecessors g.successors [[1, 2, 0], [3, 4]] = none := by
    decide +kernel
  obtain ⟨hends, -⟩ := transpose_ends_at_local_optimum g hg hplaces
  simp only [transpose, hcrossings, transposeFor, hround, hnone] at hends
  exact ⟨hg, hplaces, hends, hcrossings, by cbv⟩

end Drafting.Graph.Layers
