import Mathlib
import Drafting.Graph.ScopeLayout
import Drafting.Proofs.Arrays
import Drafting.Proofs.Graph.Ranks
import Drafting.Proofs.Sorting

/-!
Scopes laid out part by part.

* `ScopeLayout.byNumber_append`: edges with larger numbers come after the others.
* `ScopeLayout.ofParts`: a scope made of parts that are laid out.
* `ScopeLayout.ofScope_eq_ok`: every scope is laid out, and is made of its parts so.
* `ScopeLayout.map_edge_edges`, `ScopeLayout.map_edge_eq`: every edge of a scope is drawn in it, and
  in the order of numbers.
-/

namespace Drafting.Graph.ScopeLayout

variable {α : Type} [Scalar α]

section ByNumber

omit [Scalar α]

lemma byNumber_perm (edges : List (RoutedEdge α)) : (byNumber edges).Perm edges :=
  List.mergeSort_perm _ _

@[simp] lemma mem_byNumber {edges : List (RoutedEdge α)} {r : RoutedEdge α} :
    r ∈ byNumber edges ↔ r ∈ edges := List.mem_mergeSort

lemma pairwise_byNumber (edges : List (RoutedEdge α)) :
    (byNumber edges).Pairwise fun e f => e.edge ≤ f.edge :=
  pairwise_mergeSort_key RoutedEdge.edge edges

/-- Edges with larger numbers come after the others. -/
lemma byNumber_append {edges further : List (RoutedEdge α)}
    (h : ∀ e ∈ edges, ∀ f ∈ further, e.edge < f.edge) :
    byNumber (edges ++ further) = byNumber edges ++ byNumber further :=
  mergeSort_append_of_le RoutedEdge.edge fun e he f hf => (h e he f hf).le

end ByNumber

/-- How far a part is moved when it is placed. -/
def Progress.offset (p : Progress α) (l : ComponentLayout α) : Point α :=
  ⟨p.cursor - l.bounds.minX, -l.bounds.minY⟩

/-- Places parts one after the other. -/
def Progress.addAll (config : GraphConfig α) (p : Progress α)
    (parts : List (Component × ComponentLayout α)) :
    Progress α :=
  parts.foldl (fun p part => p.add config part.1 part.2) p

lemma addAll_cons (config : GraphConfig α) (p : Progress α) (part : Component × ComponentLayout α)
    (parts : List (Component × ComponentLayout α)) :
    p.addAll config (part :: parts) = (p.add config part.1 part.2).addAll config parts := rfl

/-- The members of a scope before any part is placed. -/
def Progress.start (sizes : Array (Size α)) : Progress α :=
  { cursor := 0
    height := 0
    members := sizes.map fun size => ⟨Bounds.ofCorner Point.origin size, 0, 0⟩
    edges := [] }

/-- A scope made of parts that are laid out. -/
def ofParts (config : GraphConfig α) (sizes : Array (Size α))
    (parts : List (Component × ComponentLayout α)) :
    ScopeLayout α :=
  let p := (Progress.start sizes).addAll config parts
  ⟨⟨if parts.isEmpty then 0 else p.cursor - config.componentGap, p.height⟩, p.members,
    byNumber p.edges⟩

lemma mem_edges_ofParts {config : GraphConfig α} {sizes : Array (Size α)}
    {parts : List (Component × ComponentLayout α)} {r : RoutedEdge α} :
    r ∈ (ofParts config sizes parts).edges ↔
      r ∈ ((Progress.start sizes).addAll config parts).edges := mem_byNumber

/-- The parts of a scope with their layouts. -/
structure PartsOf (config : GraphConfig α) (s : Scope) (sizes : Array (Size α))
    (shapes : Array (EdgeShape α)) (parts : List (Component × ComponentLayout α)) : Prop where
  components : parts.map Prod.fst = Component.ofScope s
  layouts : ∀ part ∈ parts, ∃ named after, part.1.layout config sizes shapes named =
    .ok (part.2, after)

variable {config : GraphConfig α} {s : Scope} {sizes : Array (Size α)}
    {shapes : Array (EdgeShape α)}

/-- Parts that are laid out one by one are placed one by one. -/
lemma placeAll_eq_ok {cs : List Component}
    (hcs : ∀ c ∈ cs, ∀ named, ∃ l after, c.layout config sizes shapes named = .ok (l, after))
    (p : Progress α) (named : Nat) :
    ∃ (parts : List (Component × ComponentLayout α)) (after : Nat), parts.map Prod.fst = cs ∧
      (∀ part ∈ parts, ∃ named after, part.1.layout config sizes shapes named =
        .ok (part.2, after)) ∧
      placeAll config sizes shapes cs p named = .ok (p.addAll config parts, after) := by
  induction cs generalizing p named with
  | nil => exact ⟨[], named, rfl, by simp, rfl⟩
  | cons c cs ih =>
      obtain ⟨l, next, hl⟩ := hcs c (by simp) named
      obtain ⟨parts, after, hparts, hlayouts, hplace⟩ :=
        ih (fun d hd => hcs d (by simp [hd])) (p.add config c l) next
      refine ⟨(c, l) :: parts, after, by simp [hparts], ?_, ?_⟩
      · intro part hpart
        rcases List.mem_cons.mp hpart with rfl | hpart
        · exact ⟨named, next, hl⟩
        · exact hlayouts part hpart
      · rw [placeAll, hl]
        exact hplace

/-- **Every scope is laid out.** -/
lemma ofScope_eq_ok (config : GraphConfig α) (sizes : Array (Size α)) (shapes : Array (EdgeShape α))
    (hs : s.WellFormed) (named : Nat) :
    ∃ (parts : List (Component × ComponentLayout α)) (after : Nat),
      PartsOf config s sizes shapes parts ∧
      ofScope config s sizes shapes named = .ok (ofParts config sizes parts, after) := by
  have hall : ∀ c ∈ Component.ofScope s, ∀ named, ∃ l after, c.layout config sizes shapes named =
      .ok (l, after) := by
    intro c hc named
    obtain ⟨ranks, hok, -⟩ := Component.layout_eq_ok config sizes shapes hs hc named
    exact ⟨_, _, hok⟩
  obtain ⟨parts, after, hparts, hlayouts, hplace⟩ :=
    placeAll_eq_ok hall (Progress.start sizes) named
  refine ⟨parts, after, ⟨hparts, hlayouts⟩, ?_⟩
  have hempty : (Component.ofScope s).isEmpty = parts.isEmpty := by
    rw [← hparts]
    cases parts <;> rfl
  rw [Progress.start] at hplace
  simp only [ofScope, hplace, hempty]
  rfl

/-- A scope that is laid out is made of its parts. -/
lemma exists_parts (hs : s.WellFormed) {named after : Nat} {l : ScopeLayout α}
    (h : ofScope config s sizes shapes named = .ok (l, after)) :
    ∃ parts, PartsOf config s sizes shapes parts ∧ l = ofParts config sizes parts := by
  obtain ⟨parts, _, hparts, hok⟩ := ofScope_eq_ok config sizes shapes hs named
  exact ⟨parts, hparts, (Prod.mk.inj (Except.ok.inj (h.symm.trans hok))).1⟩

namespace PartsOf

variable {parts : List (Component × ComponentLayout α)} (h : PartsOf config s sizes shapes parts)

include h

lemma mem_ofScope {part : Component × ComponentLayout α} (hpart : part ∈ parts) :
    part.1 ∈ Component.ofScope s := by
  rw [← h.components]
  exact List.mem_map_of_mem hpart

lemma exists_part {c : Component} (hc : c ∈ Component.ofScope s) : ∃ part ∈ parts, part.1 = c := by
  rw [← h.components] at hc
  exact List.mem_map.mp hc

/-- No member is in two parts. -/
lemma pairwise_disjoint : parts.Pairwise fun a b => a.1.members.Disjoint b.1.members := by
  have hpairwise := Component.pairwise_disjoint s
  rwa [← h.components, List.pairwise_map] at hpairwise

/-- The members of the parts are among those that are placed, each once. -/
lemma members_start (hsize : sizes.size = s.members.length) {part : Component × ComponentLayout α}
    (hpart : part ∈ parts) :
    part.1.members.Nodup ∧ ∀ v ∈ part.1.members, v < (Progress.start sizes).members.size := by
  refine ⟨Component.nodup_of_mem_ofScope (h.mem_ofScope hpart), fun v hv => ?_⟩
  rw [Progress.start, Array.size_map, hsize]
  exact Component.lt_of_mem (h.mem_ofScope hpart) hv

end PartsOf

/-! ### Members -/

section Members

variable {c : Component} {l : ComponentLayout α} {p : Progress α}

lemma members_add (config : GraphConfig α) (p : Progress α) (c : Component)
    (l : ComponentLayout α) :
    (p.add config c l).members =
      ((c.members.zip l.members).map fun e => (e.1, e.2.translate (p.offset l))).foldl
        (fun members e => members.setIfInBounds e.1 e.2) p.members := by
  rw [List.foldl_map]
  rfl

lemma size_members_add (config : GraphConfig α) (p : Progress α) (c : Component)
    (l : ComponentLayout α) :
    (p.add config c l).members.size = p.members.size := by
  rw [members_add, size_foldl_set]

/-- The members of other parts stay where they are. -/
lemma getD_members_add_of_notMem {v : Nat} (hv : v ∉ c.members) (d : PlacedMember α) :
    (p.add config c l).members.getD v d = p.members.getD v d := by
  rw [members_add, getD_foldl_set_of_notMem]
  exact fun h => hv ((map_fst_map_zip_sublist (PlacedMember.translate · (p.offset l)) _ _).subset h)

/-- The members of the part are moved with it. -/
lemma getD_members_add (hnodup : c.members.Nodup) {v : Nat} {m : PlacedMember α}
    (hm : (v, m) ∈ c.members.zip l.members) (hv : v < p.members.size) (d : PlacedMember α) :
    (p.add config c l).members.getD v d = m.translate (p.offset l) := by
  have hkeys : (((c.members.zip l.members).map fun e => (e.1, e.2.translate (p.offset l))).map
      Prod.fst).Nodup :=
    (map_fst_map_zip_sublist (PlacedMember.translate · (p.offset l)) _ _).nodup hnodup
  have hmem : (v, m.translate (p.offset l)) ∈
      (c.members.zip l.members).map fun e => (e.1, e.2.translate (p.offset l)) :=
    List.mem_map.mpr ⟨_, hm, rfl⟩
  rw [members_add, getD_foldl_set hkeys hmem hv]

end Members

/-! ### Edges -/

section Edges

variable {named after : Nat} {l : ScopeLayout α}

lemma edges_addAll (p : Progress α) (parts : List (Component × ComponentLayout α))
    {β : Type} {f : RoutedEdge α → β} (hf : ∀ w v, f (w.translate v) = f w) :
    (p.addAll config parts).edges.map f =
      p.edges.map f ++ parts.flatMap fun part => part.2.edges.map f := by
  induction parts generalizing p with
  | nil => simp [Progress.addAll]
  | cons part parts ih =>
      rw [addAll_cons, ih, List.flatMap_cons, ← List.append_assoc]
      simp [Progress.add, hf, Function.comp_def]

/-- Every edge of a scope is drawn in it, once, and no other one. -/
lemma map_edge_edges (hs : s.WellFormed)
    (h : ofScope config s sizes shapes named = .ok (l, after)) :
    (l.edges.map (·.edge)).Perm (s.edges.map (·.edge)) := by
  obtain ⟨parts, hparts, rfl⟩ := exists_parts hs h
  have hedges : ((Progress.start sizes).addAll config parts).edges.map (·.edge) =
      parts.flatMap fun part => part.2.edges.map (·.edge) :=
    edges_addAll (Progress.start sizes) parts fun _ _ => rfl
  have hscope := (Component.flatMap_edges_perm hs).map (·.edge)
  rw [List.map_flatMap, ← hparts.components, List.flatMap_map] at hscope
  refine ((byNumber_perm _).map _).trans (.trans ?_ hscope)
  rw [hedges]
  refine List.Perm.flatMap_left _ fun part hpart => ?_
  obtain ⟨_, _, hlayout⟩ := hparts.layouts part hpart
  exact Component.map_edge_edges hs (hparts.mem_ofScope hpart) hlayout

lemma exists_routed (hs : s.WellFormed) (h : ofScope config s sizes shapes named = .ok (l, after))
    {e : ScopeEdge} (he : e ∈ s.edges) : ∃ r ∈ l.edges, r.edge = e.edge :=
  List.mem_map.mp ((map_edge_edges hs h).mem_iff.mpr (List.mem_map_of_mem he))

lemma exists_edge_of_mem (hs : s.WellFormed)
    (h : ofScope config s sizes shapes named = .ok (l, after)) {w : RoutedEdge α}
    (hw : w ∈ l.edges) : ∃ e ∈ s.edges, e.edge = w.edge :=
  List.mem_map.mp ((map_edge_edges hs h).mem_iff.mp (List.mem_map_of_mem hw))

/-- No edge is drawn twice in a scope. -/
lemma nodup_edges (hs : s.WellFormed) (hnodup : (s.edges.map (·.edge)).Nodup)
    (h : ofScope config s sizes shapes named = .ok (l, after)) : (l.edges.map (·.edge)).Nodup :=
  (map_edge_edges hs h).nodup_iff.mpr hnodup

/-- **The edges of a scope are drawn in its order**, if that is the order of their numbers. -/
lemma map_edge_eq (hs : s.WellFormed) (hsorted : s.edges.Pairwise fun e f => e.edge ≤ f.edge)
    (h : ofScope config s sizes shapes named = .ok (l, after)) :
    l.edges.map (·.edge) = s.edges.map (·.edge) := by
  have hperm := map_edge_edges hs h
  obtain ⟨parts, -, rfl⟩ := exists_parts hs h
  exact hperm.eq_of_pairwise (fun _ _ _ _ => Nat.le_antisymm)
    (List.pairwise_map.mpr (pairwise_byNumber _)) (List.pairwise_map.mpr hsorted)

end Edges

end Drafting.Graph.ScopeLayout
