import Mathlib
import Drafting.Proofs.Graph.Interiors

/-!
Elements in their places.

The scopes are moved into the frames around them from the outermost inward.  When a scope is moved
the frame around it is in its place, and no element is moved twice.

* `Placed.Holds`: the place of an element.
* `Placed.Housed`: a scope has been moved to where its frame is.
* `Placed.Housed.placeScope`: what one more scope leaves in its place.
* `Placed.housed_ofInteriors`: in the end every scope is in its place.
-/

namespace Drafting.Graph.Placed

open scoped List

variable {α : Type} [Scalar α] {c : Containment α} {i : Interiors α} {p : Placed α}

/-- An element has a place. -/
def Holds (p : Placed α) (m : Member) (place : PlacedMember α) : Prop :=
  match m with
  | .node n => p.node n = place
  | .cluster k => p.cluster k = place.bounds

/-- There is room for every element and every edge. -/
structure Sized (c : Containment α) (p : Placed α) : Prop where
  nodes : p.nodes.size = c.nodeCluster.size
  clusters : p.clusters.size = c.clusterParent.size
  edges : p.edges.size = c.ends.length

/-! ### One element -/

omit [Scalar α] in
lemma Sized.enterMember (hp : p.Sized c) (m : Member) (place : PlacedMember α) :
    (p.enterMember m place).Sized c := by
  cases m with
  | node n => exact ⟨by simp [Placed.enterMember, hp.nodes], hp.clusters, hp.edges⟩
  | cluster k => exact ⟨hp.nodes, by simp [Placed.enterMember, hp.clusters], hp.edges⟩

lemma holds_enterMember (hp : p.Sized c) {m : Member} (hm : c.Declares m) (place : PlacedMember α) :
    (p.enterMember m place).Holds m place := by
  cases m with
  | node n => exact getD_setIfInBounds_self (by rw [hp.nodes]; exact hm) _ _
  | cluster k => exact getD_setIfInBounds_self (by rw [hp.clusters]; exact hm) _ _

lemma holds_enterMember_ne {m m' : Member} (hne : m' ≠ m) (place place' : PlacedMember α) :
    (p.enterMember m' place').Holds m place ↔ p.Holds m place := by
  cases m with
  | node n =>
      cases m' with
      | node n' =>
          rw [Holds, node, enterMember, getD_setIfInBounds_ne (by simpa using hne)]
          rfl
      | cluster k' => rfl
  | cluster k =>
      cases m' with
      | node n' => rfl
      | cluster k' =>
          rw [Holds, cluster, enterMember, getD_setIfInBounds_ne (by simpa using hne)]
          rfl

/-! ### Elements one after the other -/

/-- Enters the places of elements. -/
def enterMembers (p : Placed α) (entries : List (Member × PlacedMember α)) : Placed α :=
  entries.foldl (fun p e => p.enterMember e.1 e.2) p

omit [Scalar α] in
lemma Sized.enterMembers (hp : p.Sized c) (entries : List (Member × PlacedMember α)) :
    (p.enterMembers entries).Sized c := by
  induction entries generalizing p with
  | nil => exact hp
  | cons e entries ih => exact ih (hp.enterMember e.1 e.2)

lemma holds_enterMembers_of_notMem {entries : List (Member × PlacedMember α)} {m : Member}
    (hm : m ∉ entries.map Prod.fst) (place : PlacedMember α) :
    (p.enterMembers entries).Holds m place ↔ p.Holds m place := by
  induction entries generalizing p with
  | nil => exact Iff.rfl
  | cons e entries ih =>
      rw [List.map_cons, List.mem_cons, not_or] at hm
      exact (ih hm.2).trans (holds_enterMember_ne (Ne.symm hm.1) _ _)

lemma holds_enterMembers (hp : p.Sized c) {entries : List (Member × PlacedMember α)}
    (hnodup : (entries.map Prod.fst).Nodup) {m : Member} {place : PlacedMember α}
    (hmem : (m, place) ∈ entries) (hm : c.Declares m) : (p.enterMembers entries).Holds m place := by
  induction entries generalizing p with
  | nil => simp at hmem
  | cons e entries ih =>
      rw [List.map_cons, List.nodup_cons] at hnodup
      rcases List.mem_cons.mp hmem with rfl | hmem
      · exact (holds_enterMembers_of_notMem hnodup.1 place).mpr (holds_enterMember hp hm place)
      · exact ih (hp.enterMember e.1 e.2) hnodup.2 hmem

omit [Scalar α] in
lemma edges_enterMembers (p : Placed α) (entries : List (Member × PlacedMember α)) :
    (p.enterMembers entries).edges = p.edges := by
  induction entries generalizing p with
  | nil => rfl
  | cons e entries ih =>
      obtain ⟨m, place⟩ := e
      refine (ih _).trans ?_
      cases m <;> rfl

/-- Enters the ways of edges. -/
def enterEdges (p : Placed α) (edges : List (RoutedEdge α)) : Placed α := edges.foldl enterEdge p

omit [Scalar α] in
lemma nodes_enterEdges (p : Placed α) (edges : List (RoutedEdge α)) :
    (p.enterEdges edges).nodes = p.nodes := by
  induction edges generalizing p with
  | nil => rfl
  | cons e edges ih => exact ih (p.enterEdge e)

omit [Scalar α] in
lemma clusters_enterEdges (p : Placed α) (edges : List (RoutedEdge α)) :
    (p.enterEdges edges).clusters = p.clusters := by
  induction edges generalizing p with
  | nil => rfl
  | cons e edges ih => exact ih (p.enterEdge e)

omit [Scalar α] in
lemma size_enterEdges (p : Placed α) (edges : List (RoutedEdge α)) :
    (p.enterEdges edges).edges.size = p.edges.size := by
  induction edges generalizing p with
  | nil => rfl
  | cons e edges ih => exact (ih (p.enterEdge e)).trans Array.size_setIfInBounds

omit [Scalar α] in
/-- An edge that has a way keeps one. -/
lemma isSome_enterEdges (edges : List (RoutedEdge α)) {n : Nat} (hn : (p.edge? n).isSome) :
    ((p.enterEdges edges).edge? n).isSome := by
  induction edges generalizing p with
  | nil => exact hn
  | cons e edges ih =>
      refine ih ?_
      by_cases heq : e.edge = n
      · have hlt : n < p.edges.size := by
          by_contra hlt
          rw [edge?, Array.getD_eq_getD_getElem?, Array.getElem?_eq_none (by omega)] at hn
          simp at hn
        rw [edge?, enterEdge, heq, getD_setIfInBounds_self hlt]
        rfl
      · rw [edge?, enterEdge, getD_setIfInBounds_ne heq]
        exact hn

omit [Scalar α] in
lemma isSome_enterEdges_of_mem {edges : List (RoutedEdge α)} {e : RoutedEdge α} (he : e ∈ edges)
    (hlt : e.edge < p.edges.size) : ((p.enterEdges edges).edge? e.edge).isSome := by
  induction edges generalizing p with
  | nil => simp at he
  | cons first edges ih =>
      rcases List.mem_cons.mp he with rfl | he
      · refine isSome_enterEdges edges (p := p.enterEdge e) ?_
        rw [edge?, enterEdge, getD_setIfInBounds_self hlt]
        rfl
      · exact ih he (by rwa [enterEdge, Array.size_setIfInBounds])

/-! ### One scope -/

/-- The members of a scope with their places inside it. -/
def interior (c : Containment α) (i : Interiors α) (container : Option Nat) :
    List (Member × PlacedMember α) :=
  (c.scopeOf container).members.zip (i.scope container).members.toList

/-- A scope has been moved to where its frame is, and its edges have ways. -/
structure Housed (c : Containment α) (i : Interiors α) (p : Placed α) (container : Option Nat) :
    Prop where
  members : ∀ m place, (m, place) ∈ interior c i container →
    p.Holds m (place.translate (p.origin i container))
  edges : ∀ e ∈ (i.scope container).edges, e.edge < c.ends.length → (p.edge? e.edge).isSome

lemma placeScope_eq (container : Option Nat) :
    p.placeScope i (c.scopeOf container) =
      (p.enterMembers ((interior c i container).map fun e =>
        (e.1, e.2.translate (p.origin i container)))).enterEdges
        ((i.scope container).edges.map (·.translate (p.origin i container))) := by
  rw [placeScope, enterEdges, enterMembers, List.foldl_map, List.foldl_map]
  rfl

lemma Sized.placeScope (hp : p.Sized c) (container : Option Nat) :
    (p.placeScope i (c.scopeOf container)).Sized c := by
  have hp' := hp.enterMembers
    ((interior c i container).map fun e => (e.1, e.2.translate (p.origin i container)))
  rw [placeScope_eq]
  exact ⟨by rw [nodes_enterEdges, hp'.nodes], by rw [clusters_enterEdges, hp'.clusters],
    by rw [size_enterEdges, hp'.edges]⟩

lemma keys_interior_sublist (v : Point α) (container : Option Nat) :
    ((interior c i container).map fun e => (e.1, e.2.translate v)).map Prod.fst <+
      (c.scopeOf container).members :=
  map_fst_map_zip_sublist (PlacedMember.translate · v) _ _

lemma mem_members_of_mem_interior {container : Option Nat} {m : Member}
    (hm : m ∈ (interior c i container).map Prod.fst) : m ∈ (c.scopeOf container).members :=
  (map_fst_zip_sublist _ _).subset hm

lemma holds_enterEdges {m : Member} {place : PlacedMember α} (edges : List (RoutedEdge α)) :
    (p.enterEdges edges).Holds m place ↔ p.Holds m place := by
  cases m with
  | node n => rw [Holds, Holds, node, node, nodes_enterEdges]
  | cluster k => rw [Holds, Holds, cluster, cluster, clusters_enterEdges]

/-- Elements that are not members of a scope stay where they are. -/
lemma holds_placeScope_of_notMem {container : Option Nat} {m : Member}
    (hm : m ∉ (c.scopeOf container).members) (place : PlacedMember α) :
    (p.placeScope i (c.scopeOf container)).Holds m place ↔ p.Holds m place := by
  rw [placeScope_eq, holds_enterEdges, holds_enterMembers_of_notMem]
  exact fun h => hm ((keys_interior_sublist _ _).subset h)

/-- The interior of a cluster begins where it did when the frame of the cluster is not moved. -/
lemma origin_placeScope {container x : Option Nat}
    (h : ∀ k, x = some k → Member.cluster k ∉ (c.scopeOf container).members) :
    (p.placeScope i (c.scopeOf container)).origin i x = p.origin i x := by
  cases x with
  | none => rfl
  | some k =>
      have hkeep := (holds_placeScope_of_notMem (p := p) (i := i) (h k rfl) ⟨p.cluster k, 0, 0⟩).mpr
        rfl
      rw [origin, origin, hkeep]

lemma isSome_placeScope (container : Option Nat) {n : Nat} (hn : (p.edge? n).isSome) :
    ((p.placeScope i (c.scopeOf container)).edge? n).isSome := by
  rw [placeScope_eq]
  refine isSome_enterEdges _ ?_
  rw [edge?, edges_enterMembers]
  exact hn

/-- A scope stays in its place when another one is moved that does not hold its frame. -/
lemma Housed.placeScope {x container : Option Nat} (hx : Housed c i p x) (hne : x ≠ container)
    (h : ∀ k, x = some k → Member.cluster k ∉ (c.scopeOf container).members) :
    Housed c i (p.placeScope i (c.scopeOf container)) x := by
  refine ⟨fun m place hm => ?_, fun e he hlt => isSome_placeScope container (hx.edges e he hlt)⟩
  have hmem := (Containment.mem_members.mp
    (mem_members_of_mem_interior (List.mem_map.mpr ⟨_, hm, rfl⟩))).2
  rw [origin_placeScope h, holds_placeScope_of_notMem]
  · exact hx.members m place hm
  · -- an element is a member of one scope only
    intro hother
    exact hne (hmem.symm.trans (Containment.mem_members.mp hother).2)

/-- The scope that is moved is in its place. -/
lemma housed_placeScope (hp : p.Sized c) {container : Option Nat}
    (h : ∀ k, container = some k → Member.cluster k ∉ (c.scopeOf container).members) :
    Housed c i (p.placeScope i (c.scopeOf container)) container := by
  refine ⟨fun m place hm => ?_, fun e he hlt => ?_⟩
  · have hdeclared := (Containment.mem_members.mp
      (mem_members_of_mem_interior (List.mem_map.mpr ⟨_, hm, rfl⟩))).1
    rw [origin_placeScope h, placeScope_eq, holds_enterEdges]
    refine holds_enterMembers hp ?_ (List.mem_map.mpr ⟨_, hm, rfl⟩) hdeclared
    exact (keys_interior_sublist _ _).nodup (c.nodup_members container)
  · rw [placeScope_eq]
    have hmoved : e.translate (p.origin i container) ∈
        (i.scope container).edges.map (·.translate (p.origin i container)) :=
      List.mem_map.mpr ⟨e, he, rfl⟩
    have hroom : (e.translate (p.origin i container)).edge <
        (p.enterMembers ((interior c i container).map fun e =>
          (e.1, e.2.translate (p.origin i container)))).edges.size := by
      rw [edges_enterMembers, hp.edges]
      exact hlt
    have hsome := isSome_enterEdges_of_mem hmoved hroom
    exact hsome

/-! ### All scopes -/

omit [Scalar α] in
/-- A scope that is moved does not hold the frames of scopes that were moved before, nor its own:
the scope that holds the frame of a cluster is moved before the interior of that cluster. -/
lemma cluster_notMem_of_order (hc : c.Sound) {before todo : List (Option Nat)}
    {container : Option Nat} (horder : before ++ container :: todo = c.order.reverse)
    {x : Option Nat} (hx : x ∈ before ++ [container]) :
    ∀ k, x = some k → Member.cluster k ∉ (c.scopeOf container).members := by
  rintro k rfl hk
  have hsorted := List.pairwise_reverse.mpr hc.pairwise_order
  rw [← horder, List.pairwise_append] at hsorted
  rcases List.mem_append.mp hx with hbefore | hlast
  · exact hsorted.2.2 (some k) hbefore container List.mem_cons_self k rfl hk
  · have hlevel := hc.level_of_mem hk
    rw [List.mem_singleton.mp hlast] at hlevel
    omega

/-- Moving further scopes brings them to their places, and leaves there what is. -/
lemma housed_foldl (hc : c.Sound) {before todo : List (Option Nat)}
    (horder : before ++ todo = c.order.reverse) (hp : p.Sized c)
    (hhoused : ∀ x ∈ before, Housed c i p x) :
    ∀ x ∈ c.order, Housed c i ((todo.map c.scopeOf).foldl (placeScope i) p) x := by
  induction todo generalizing before p with
  | nil =>
      intro x hx
      rw [List.append_nil] at horder
      exact hhoused x (by rwa [horder, List.mem_reverse])
  | cons container todo ih =>
      have hnext : before ++ [container] ++ todo = c.order.reverse := by
        rw [← horder]
        simp
      refine ih hnext (hp.placeScope container) fun x hx => ?_
      have hfree := cluster_notMem_of_order hc horder hx
      rcases List.mem_append.mp hx with hbefore | hlast
      · refine (hhoused x hbefore).placeScope ?_ hfree
        have hsplit := List.nodup_reverse.mpr hc.nodup_order
        rw [← horder, List.nodup_append] at hsplit
        rintro rfl
        exact hsplit.2.2 x hbefore x (by simp) rfl
      · rw [List.mem_singleton.mp hlast] at hfree ⊢
        exact housed_placeScope hp hfree

/-- **Every scope is moved to its place.** -/
lemma housed_ofInteriors (hc : c.Sound) (i : Interiors α) {container : Option Nat}
    (h : c.IsContainer container) :
    Housed c i (ofInteriors c c.orderedScopes i) container := by
  have hsized : (Placed.empty c : Placed α).Sized c := by
    constructor <;> simp [Placed.empty, hc.size_nodeCluster, hc.size_clusterParent]
  have hnone : ∀ x ∈ ([] : List (Option Nat)), Housed c i (Placed.empty c) x := by simp
  have hall := housed_foldl hc (List.nil_append _) hsized hnone
  rw [ofInteriors, Containment.orderedScopes_eq, ← List.map_reverse]
  exact hall container (hc.mem_order.mpr h)

end Drafting.Graph.Placed
