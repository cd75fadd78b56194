import Mathlib
import Drafting.Proofs.Graph.Routes

/-!
Parts that are appended to a scope.

Members that are appended to a scope, with edges among themselves only, form parts of their own.
These come after all others, and no other part notices them.

* `Scope.Extends`: a scope with further members and edges.
* `Component.Continues`: the labels of further members.
* `Component.exists_ofScope_append`: the parts of a scope are the first parts of the larger one.
* `Component.layout_congr`: the layout of a part depends on its own members and edges only.
* `ScopeLayout.appended_parts_change_nothing`: what was there is laid out as before.
-/

namespace Drafting.Graph

open scoped List

/-- A scope with further members and edges, which have larger numbers and connect only these
members. -/
structure Scope.Extends (s s' : Scope) (new : List ScopeEdge) : Prop where
  members : s.members <+: s'.members
  edges : s'.edges = s.edges ++ new
  ends : ∀ e ∈ new, (s.members.length ≤ e.source ∧ e.source < s'.members.length) ∧
    s.members.length ≤ e.target ∧ e.target < s'.members.length
  numbers : ∀ e ∈ s.edges, ∀ f ∈ new, e.edge < f.edge

namespace Scope.Extends

variable {s s' : Scope} {new : List ScopeEdge} (h : s.Extends s' new)

include h

lemma length_le : s.members.length ≤ s'.members.length := h.members.length_le

lemma wellFormed (hs : s.WellFormed) : s'.WellFormed := by
  intro e he
  rw [h.edges, List.mem_append] at he
  rcases he with he | he
  · obtain ⟨hsource, htarget⟩ := hs e he
    exact ⟨hsource.trans_le h.length_le, htarget.trans_le h.length_le⟩
  · exact ⟨(h.ends e he).1.2, (h.ends e he).2.2⟩

end Scope.Extends

namespace Component

/-! ### Labels of further members -/

/-- Labels that agree on the first members, and further ones that are not among these. -/
structure Continues (count : Nat) (labels labels' : Array Nat) : Prop where
  agree : ∀ v < count, label labels' v = label labels v
  apart : ∀ v, count ≤ v → count ≤ label labels' v

section Labels

variable {count count' : Nat} {labels labels' : Array Nat}

/-- Joining parts of the first members. -/
lemma Continues.join (h : Continues count labels labels') (hl : Labelled count labels)
    (hl' : Labelled count' labels') (hle : count ≤ count') {v w : Nat} (hv : v < count)
    (hw : w < count) : Continues count (join labels v w) (join labels' v w) := by
  have hsize := hl.size
  have hsize' := hl'.size
  refine ⟨fun u hu => ?_, fun u hu => ?_⟩
  · rw [label_join_of_lt (by omega), label_join_of_lt (by omega), h.agree v hv, h.agree w hw,
      h.agree u hu]
  · by_cases hu' : u < count'
    · have hlv := hl'.le v
      have hlw := hl'.le w
      have hlu := h.apart u hu
      rw [label_join_of_lt (by omega), merged, if_neg (by omega)]
      exact hlu
    · rw [label_of_size_le (by simp [Component.join]; omega)]
      exact hu

/-- Joining parts of further members. -/
lemma Continues.join_right (h : Continues count labels labels') (hl : Labelled count labels)
    (hl' : Labelled count' labels') (hle : count ≤ count') {v w : Nat} (hv : count ≤ v)
    (hw : count ≤ w) : Continues count labels (Component.join labels' v w) := by
  have hsize' := hl'.size
  have hlv := h.apart v hv
  have hlw := h.apart w hw
  refine ⟨fun u hu => ?_, fun u hu => ?_⟩
  · have hlu := hl.le u
    rw [label_join_of_lt (by omega), h.agree u hu, merged, if_neg (by omega)]
  · by_cases hu' : u < count'
    · have hlu := h.apart u hu
      rw [label_join_of_lt (by omega), merged]
      split <;> omega
    · rw [label_of_size_le (by simp [Component.join]; omega)]
      exact hu

lemma Continues.foldl (h : Continues count labels labels') (hl : Labelled count labels)
    (hl' : Labelled count' labels') (hle : count ≤ count') {edges : List ScopeEdge}
    (hedges : ∀ e ∈ edges, e.source < count ∧ e.target < count) :
    Continues count (edges.foldl (fun labels e => Component.join labels e.source e.target) labels)
      (edges.foldl (fun labels e => Component.join labels e.source e.target) labels') := by
  induction edges generalizing labels labels' with
  | nil => exact h
  | cons e edges ih =>
      obtain ⟨hsource, htarget⟩ := hedges e List.mem_cons_self
      exact ih (h.join hl hl' hle hsource htarget) (hl.join _ _) (hl'.join _ _)
        fun f hf => hedges f (List.mem_cons_of_mem e hf)

lemma Continues.foldl_right (h : Continues count labels labels') (hl : Labelled count labels)
    (hl' : Labelled count' labels') (hle : count ≤ count') {edges : List ScopeEdge}
    (hedges : ∀ e ∈ edges, count ≤ e.source ∧ count ≤ e.target) :
    Continues count labels
      (edges.foldl (fun labels e => Component.join labels e.source e.target) labels') := by
  induction edges generalizing labels' with
  | nil => exact h
  | cons e edges ih =>
      obtain ⟨hsource, htarget⟩ := hedges e List.mem_cons_self
      exact ih (h.join_right hl hl' hle hsource htarget) (hl'.join _ _)
        fun f hf => hedges f (List.mem_cons_of_mem e hf)

lemma continues_range (count count' : Nat) (hle : count ≤ count') :
    Continues count (Array.range count) (Array.range count') := by
  refine ⟨fun v hv => ?_, fun v hv => ?_⟩
  · simp [label, hv, hv.trans_le hle]
  · by_cases hv' : v < count'
    · simpa [label, hv'] using hv
    · rw [label_of_size_le (by simpa using hv')]
      exact hv

/-- **The labels of a scope are those of the first members of a larger one.** -/
lemma continues_labelsOf {s s' : Scope} {new : List ScopeEdge} (h : s.Extends s' new)
    (hs : s.WellFormed) : Continues s.members.length (labelsOf s) (labelsOf s') := by
  have hle := h.length_le
  have hwide : ∀ e ∈ s.edges, e.source < s'.members.length ∧ e.target < s'.members.length :=
    fun e he => ⟨(hs e he).1.trans_le hle, (hs e he).2.trans_le hle⟩
  have hold := (continues_range _ _ hle).foldl (labelled_range _) (labelled_range _) hle hs
  have hnew := hold.foldl_right (labelled_foldl hs (labelled_range _)).1
    (labelled_foldl hwide (labelled_range _)).1 hle
    fun e he => ⟨(h.ends e he).1.1, (h.ends e he).2.1⟩
  rwa [← List.foldl_append, ← h.edges] at hnew

end Labels

/-! ### Further parts -/

section Further

variable {s s' : Scope} {new : List ScopeEdge}

/-- A part of the first members has none of the further members. -/
lemma withLabel_of_lt (h : s.Extends s' new) (hs : s.WellFormed) {root : Nat}
    (hroot : root < s.members.length) : withLabel s' root = withLabel s root := by
  have hlabels := continues_labelsOf h hs
  obtain ⟨more, hmore⟩ := Nat.exists_eq_add_of_le h.length_le
  have hmembers : ((List.range more).map (s.members.length + ·)).filter
      (fun v => label (labelsOf s') v == root) = [] := by
    refine List.filter_eq_nil_iff.mpr fun v hv => ?_
    obtain ⟨k, -, rfl⟩ := List.mem_map.mp hv
    have hapart := hlabels.apart (s.members.length + k) (Nat.le_add_right _ _)
    rw [beq_iff_eq]
    omega
  have hedges : new.filter (fun e => label (labelsOf s') e.source == root) = [] := by
    refine List.filter_eq_nil_iff.mpr fun e he => ?_
    have hapart := hlabels.apart e.source (h.ends e he).1.1
    rw [beq_iff_eq]
    omega
  rw [withLabel, hmore, List.range_add, List.filter_append, hmembers, List.append_nil, h.edges,
    List.filter_append, hedges, List.append_nil, withLabel]
  congr 1
  · refine List.filter_congr fun v hv => ?_
    rw [hlabels.agree v (List.mem_range.mp hv)]
  · refine List.filter_congr fun e he => ?_
    rw [hlabels.agree e.source (hs e he).1]

/-- A part of further members has none of the first members. -/
lemma withLabel_of_le (h : s.Extends s' new) (hs : s.WellFormed) {root : Nat}
    (hroot : s.members.length ≤ root) :
    (∀ v ∈ (withLabel s' root).members, s.members.length ≤ v) ∧
      ∀ e ∈ (withLabel s' root).edges, e ∈ new := by
  have hlabels := continues_labelsOf h hs
  have hfirst : ∀ v < s.members.length, label (labelsOf s') v ≠ root := by
    intro v hv
    have hle := (labelled_labelsOf hs).le v
    rw [hlabels.agree v hv]
    omega
  refine ⟨fun v hv => ?_, fun e he => ?_⟩
  · by_contra hlt
    exact hfirst v (by omega) (beq_iff_eq.mp (List.mem_filter.mp hv).2)
  · obtain ⟨hmem, hlabel⟩ := List.mem_filter.mp he
    rw [h.edges, List.mem_append] at hmem
    refine hmem.resolve_left fun hold => hfirst e.source (hs e hold).1 (beq_iff_eq.mp hlabel)

/-- **The parts of a scope are the first parts of a larger one.** -/
lemma exists_ofScope_append (h : s.Extends s' new) (hs : s.WellFormed) :
    ∃ rest, ofScope s' = ofScope s ++ rest ∧ ∀ c ∈ rest,
      (∀ v ∈ c.members, s.members.length ≤ v) ∧ ∀ e ∈ c.edges, e ∈ new := by
  have hlabels := continues_labelsOf h hs
  obtain ⟨more, hmore⟩ := Nat.exists_eq_add_of_le h.length_le
  refine ⟨((((List.range more).map (s.members.length + ·)).filter fun v =>
    label (labelsOf s') v == v).map (withLabel s')), ?_, fun c hc => ?_⟩
  · have hroots : (List.range s.members.length).filter (fun v => label (labelsOf s') v == v) =
        (List.range s.members.length).filter fun v => label (labelsOf s) v == v := by
      refine List.filter_congr fun v hv => ?_
      rw [hlabels.agree v (List.mem_range.mp hv)]
    rw [ofScope_eq_map, hmore, List.range_add, List.filter_append, List.map_append, hroots,
      ofScope_eq_map]
    congr 1
    refine List.map_congr_left fun root hroot => ?_
    exact withLabel_of_lt h hs (List.mem_range.mp (List.mem_of_mem_filter hroot))
  · obtain ⟨root, hroot, rfl⟩ := List.mem_map.mp hc
    obtain ⟨k, -, rfl⟩ := List.mem_map.mp (List.mem_of_mem_filter hroot)
    exact withLabel_of_le h hs (Nat.le_add_right _ _)

end Further

/-! ### The layout of a part -/

section Layout

variable {α : Type} [Scalar α] {c : Component} {sizes sizes' : Array (Size α)}
    {shapes shapes' : Array (EdgeShape α)}

omit [Scalar α] in
lemma digraph_congr (hshapes : ∀ e ∈ c.edges, shapes'[e.edge]? = shapes[e.edge]?) :
    c.digraph shapes' = c.digraph shapes := by
  rw [digraph, digraph]
  congr 1
  refine List.map_congr_left fun e he => ?_
  rw [hshapes e (mem_links.mp he).1]

omit [Scalar α] in
lemma labelOf_congr (hshapes : ∀ e ∈ c.edges, shapes'[e.edge]? = shapes[e.edge]?)
    {e : ScopeEdge} (he : e ∈ c.edges) : labelOf shapes' e.edge = labelOf shapes e.edge := by
  rw [labelOf, labelOf, hshapes e he]

lemma loopReach_congr (config : GraphConfig α)
    (hshapes : ∀ e ∈ c.edges, shapes'[e.edge]? = shapes[e.edge]?) :
    c.loopReach config shapes' = c.loopReach config shapes := by
  refine List.foldl_ext _ _ _ fun reach e he => ?_
  simp only [labelOf_congr hshapes (mem_loops.mp he).1]

lemma memberShapes_congr (config : GraphConfig α)
    (hsizes : ∀ v ∈ c.members, sizeOf sizes' v = sizeOf sizes v)
    (hshapes : ∀ e ∈ c.edges, shapes'[e.edge]? = shapes[e.edge]?) (ranks : Array Nat) :
    c.memberShapes config sizes' shapes' ranks = c.memberShapes config sizes shapes ranks := by
  rw [memberShapes, memberShapes, loopReach_congr config hshapes]
  refine List.mapIdx_eq_mapIdx_iff.mpr fun i hi => ?_
  rw [hsizes _ (List.getElem_mem hi)]

lemma gaps_congr (config : GraphConfig α)
    (hshapes : ∀ e ∈ c.edges, shapes'[e.edge]? = shapes[e.edge]?) (g : Layering α) :
    c.gaps config shapes' g = c.gaps config shapes g := by
  refine List.foldl_ext _ _ _ fun gaps e he => ?_
  have hmem := (mem_links.mp (List.of_mem_zip he).1).1
  simp only [labelOf_congr hshapes hmem]

lemma place_congr (hsizes : ∀ v ∈ c.members, sizeOf sizes' v = sizeOf sizes v) (ranks : Array Nat)
    (layers : Layers) (placement : Placement α) :
    c.place sizes' ranks layers placement = c.place sizes ranks layers placement := by
  refine List.mapIdx_eq_mapIdx_iff.mpr fun i hi => ?_
  rw [hsizes _ (List.getElem_mem hi)]

lemma routes_congr (hshapes : ∀ e ∈ c.edges, shapes'[e.edge]? = shapes[e.edge]?)
    (reversed : List Nat) (r : Routing α) :
    c.routes shapes' reversed r = c.routes shapes reversed r := by
  rw [routes, routes]
  congr 1
  · refine List.mapIdx_eq_mapIdx_iff.mpr fun i hi => ?_
    simp only [List.getElem_zip]
    rw [labelOf_congr hshapes (mem_links.mp (List.getElem_mem _)).1]
  · refine List.map_congr_left fun e he => ?_
    rw [labelOf_congr hshapes (mem_loops.mp he).1]

/-- **The layout of a part depends on its own members and edges only.** -/
lemma layout_congr (config : GraphConfig α)
    (hsizes : ∀ v ∈ c.members, sizeOf sizes' v = sizeOf sizes v)
    (hshapes : ∀ e ∈ c.edges, shapes'[e.edge]? = shapes[e.edge]?) (named : Nat) :
    c.layout config sizes' shapes' named = c.layout config sizes shapes named := by
  have hlayering : ∀ ranking, c.layering config sizes' shapes' named ranking =
      c.layering config sizes shapes named ranking := by
    intro ranking
    rw [layering, memberShapes_congr config hsizes hshapes, layering]
  have harrange : ∀ ranking g, c.arrange config sizes' shapes' ranking g =
      c.arrange config sizes shapes ranking g := by
    intro ranking g
    simp only [arrange, gaps_congr config hshapes, place_congr hsizes, routes_congr hshapes]
  simp only [layout, digraph_congr hshapes, hlayering, harrange]

end Layout

end Component

/-! ### Further parts of a scope -/

namespace ScopeLayout

variable {α : Type} [Scalar α] {config : GraphConfig α} {count : Nat} {p p' : Progress α}

/-- Two scopes whose parts are being placed agree on their first members and on all edges so far. -/
structure Progress.Agrees (count : Nat) (p p' : Progress α) : Prop where
  cursor : p'.cursor = p.cursor
  edges : p'.edges = p.edges
  size : count ≤ p.members.size
  size' : count ≤ p'.members.size
  members : ∀ v < count, ∀ d, p'.members.getD v d = p.members.getD v d

/-- Scopes whose first members have the same sizes agree before any part is placed. -/
lemma Progress.agrees_start {sizes sizes' : Array (Size α)} (hsize : count ≤ sizes.size)
    (hsizes : ∀ v < count, sizes'[v]? = sizes[v]?) :
    (Progress.start sizes).Agrees count (Progress.start sizes') where
  cursor := rfl
  edges := rfl
  size := by simpa [Progress.start] using hsize
  size' := by
    by_contra hlt
    rw [Progress.start, Array.size_map, not_le] at hlt
    have hsome := hsizes sizes'.size hlt
    rw [Array.getElem?_eq_none le_rfl, Array.getElem?_eq_getElem (by omega)] at hsome
    cases hsome
  members v hv d := by
    simp only [Progress.start, Array.getD_eq_getD_getElem?, Array.getElem?_map, hsizes v hv]

/-- A part is placed in both scopes alike. -/
lemma Progress.Agrees.add (h : p.Agrees count p') (config : GraphConfig α) (c : Component)
    (l : ComponentLayout α) :
    (p.add config c l).Agrees count (p'.add config c l) where
  cursor := by simp only [Progress.add, h.cursor]
  edges := by simp only [Progress.add, h.cursor, h.edges]
  size := by
    rw [size_members_add]
    exact h.size
  size' := by
    rw [size_members_add]
    exact h.size'
  members v hv d := by
    have hoffset : p'.offset l = p.offset l := by rw [Progress.offset, h.cursor, Progress.offset]
    rw [members_add, members_add, hoffset]
    exact getD_foldl_set_congr _ (hv.trans_le h.size) (hv.trans_le h.size') (h.members v hv d)

lemma Progress.Agrees.addAll (h : p.Agrees count p') (config : GraphConfig α)
    (parts : List (Component × ComponentLayout α)) :
    (p.addAll config parts).Agrees count (p'.addAll config parts) := by
  induction parts generalizing p p' with
  | nil => exact h
  | cons part parts ih => exact ih (h.add config part.1 part.2)

/-- The edges of further parts come after the others. -/
lemma exists_edges_addAll (config : GraphConfig α) (p : Progress α)
    (parts : List (Component × ComponentLayout α)) :
    ∃ rest, (p.addAll config parts).edges = p.edges ++ rest ∧
      ∀ r ∈ rest, ∃ part ∈ parts, ∃ w ∈ part.2.edges, r.edge = w.edge := by
  induction parts generalizing p with
  | nil => exact ⟨[], (List.append_nil _).symm, by simp⟩
  | cons part parts ih =>
      obtain ⟨rest, hrest, hedges⟩ := ih (p.add config part.1 part.2)
      refine ⟨part.2.edges.map (·.translate (p.offset part.2)) ++ rest, ?_, fun r hr => ?_⟩
      · rw [addAll_cons, hrest, ← List.append_assoc]
        rfl
      · rcases List.mem_append.mp hr with hr | hr
        · obtain ⟨w, hw, rfl⟩ := List.mem_map.mp hr
          exact ⟨part, List.mem_cons_self, w, hw, rfl⟩
        · obtain ⟨other, hother, hfrom⟩ := hedges r hr
          exact ⟨other, List.mem_cons_of_mem _ hother, hfrom⟩

variable {sizes sizes' : Array (Size α)} {shapes shapes' : Array (EdgeShape α)}

/-- Parts that are laid out alike are placed alike, whatever comes after them. -/
lemma placeAll_append {cs : List Component}
    (hok : ∀ c ∈ cs, ∀ named, ∃ l after, c.layout config sizes shapes named = .ok (l, after))
    (hcongr : ∀ c ∈ cs, ∀ named, c.layout config sizes' shapes' named =
      c.layout config sizes shapes named) (ds : List Component) (p p' : Progress α) (named : Nat) :
    ∃ (parts : List (Component × ComponentLayout α)) (after : Nat),
      placeAll config sizes shapes cs p named = .ok (p.addAll config parts, after) ∧
      placeAll config sizes' shapes' (cs ++ ds) p' named =
        placeAll config sizes' shapes' ds (p'.addAll config parts) after := by
  induction cs generalizing p p' named with
  | nil => exact ⟨[], named, rfl, rfl⟩
  | cons c cs ih =>
      rw [List.forall_mem_cons] at hok hcongr
      obtain ⟨l, next, hl⟩ := hok.1 named
      obtain ⟨parts, after, hparts, hparts'⟩ :=
        ih hok.2 hcongr.2 (p.add config c l) (p'.add config c l) next
      refine ⟨(c, l) :: parts, after, ?_, ?_⟩
      · rw [placeAll, hl]
        exact hparts
      · rw [List.cons_append, placeAll, hcongr.1, hl]
        exact hparts'

variable {s s' : Scope} {new : List ScopeEdge}

lemma exists_ofScope_of_placeAll {named after : Nat}
    (h : placeAll config sizes shapes (Component.ofScope s) (Progress.start sizes) named =
      .ok (p, after)) :
    ∃ size, ofScope config s sizes shapes named =
      .ok (⟨size, p.members, byNumber p.edges⟩, after) := by
  rw [Progress.start] at h
  rw [ofScope]
  simp only [h]
  exact ⟨_, rfl⟩

/-- The parts that were there are placed alike, and then the further ones. -/
lemma placeAll_of_extends (config : GraphConfig α) (hs : s.WellFormed) (h : s.Extends s' new)
    (hsizes : ∀ v < s.members.length, sizes'[v]? = sizes[v]?)
    (hshapes : ∀ e ∈ s.edges, shapes'[e.edge]? = shapes[e.edge]?) (p p' : Progress α)
    (named : Nat) :
    ∃ (parts further : List (Component × ComponentLayout α)) (after after' : Nat),
      placeAll config sizes shapes (Component.ofScope s) p named =
        .ok (p.addAll config parts, after) ∧
      placeAll config sizes' shapes' (Component.ofScope s') p' named =
        .ok ((p'.addAll config parts).addAll config further, after') ∧
      ∀ part ∈ further, (∀ v ∈ part.1.members, s.members.length ≤ v) ∧
        ∀ w ∈ part.2.edges, ∃ e ∈ new, w.edge = e.edge := by
  have hs' := h.wellFormed hs
  obtain ⟨rest, hrest, hnew⟩ := Component.exists_ofScope_append h hs
  have hok : ∀ c ∈ Component.ofScope s, ∀ named, ∃ l after,
      c.layout config sizes shapes named = .ok (l, after) := by
    intro c hc named
    obtain ⟨ranks, hlayout, -⟩ := Component.layout_eq_ok config sizes shapes hs hc named
    exact ⟨_, _, hlayout⟩
  have hmem : ∀ c ∈ rest, c ∈ Component.ofScope s' := by
    intro c hc
    rw [hrest]
    exact List.mem_append_right _ hc
  have hok' : ∀ c ∈ rest, ∀ named, ∃ l after,
      c.layout config sizes' shapes' named = .ok (l, after) := by
    intro c hc named
    obtain ⟨ranks, hlayout, -⟩ := Component.layout_eq_ok config sizes' shapes' hs' (hmem c hc) named
    exact ⟨_, _, hlayout⟩
  have hcongr : ∀ c ∈ Component.ofScope s, ∀ named, c.layout config sizes' shapes' named =
      c.layout config sizes shapes named := by
    intro c hc named
    refine Component.layout_congr config (fun v hv => ?_) (fun e he => ?_) named
    · rw [Component.sizeOf, Component.sizeOf, Array.getD_eq_getD_getElem?,
        Array.getD_eq_getD_getElem?, hsizes v (Component.lt_of_mem hc hv)]
    · exact hshapes e (Component.mem_edges_of_mem hc he)
  obtain ⟨parts, after, hparts, happend⟩ := placeAll_append hok hcongr rest p p' named
  obtain ⟨further, after', hfurther, hlayouts, hplace⟩ :=
    placeAll_eq_ok hok' (p'.addAll config parts) after
  refine ⟨parts, further, after, after', hparts, by rw [hrest, happend, hplace], ?_⟩
  intro part hpart
  have hpart' : part.1 ∈ rest := hfurther ▸ List.mem_map_of_mem hpart
  obtain ⟨hmembers, hedges⟩ := hnew part.1 hpart'
  refine ⟨hmembers, fun w hw => ?_⟩
  obtain ⟨_, _, hlayout⟩ := hlayouts part hpart
  obtain ⟨_, -, -, hfollows⟩ := Component.exists_follows hs' (hmem _ hpart') hlayout
  obtain ⟨e, he, hedge, -⟩ := hfollows w hw
  exact ⟨e, hedges e he, hedge⟩

/-- **Parts that are appended change nothing.**  Members are appended to a scope, with edges among
themselves only that have larger numbers.  What was there has the same sizes and shapes as before.
Then every old member is placed as before, every old edge is drawn as before, and the further edges
come after all of these. -/
theorem appended_parts_change_nothing (config : GraphConfig α) (hs : s.WellFormed)
    (h : s.Extends s' new) (hsize : sizes.size = s.members.length)
    (hsize' : sizes'.size = s'.members.length)
    (hsizes : ∀ v < s.members.length, sizes'[v]? = sizes[v]?)
    (hshapes : ∀ e ∈ s.edges, shapes'[e.edge]? = shapes[e.edge]?) (named : Nat) :
    ∃ l after l' after', ofScope config s sizes shapes named = .ok (l, after) ∧
      ofScope config s' sizes' shapes' named = .ok (l', after') ∧
      l.members.size = s.members.length ∧ l'.members.size = s'.members.length ∧
      (∀ v < s.members.length, l'.member v = l.member v) ∧
      ∃ rest, l'.edges = l.edges ++ rest ∧
        ∀ e ∈ s.edges, (∃ r ∈ l.edges, r.edge = e.edge) ∧ ∀ r ∈ rest, e.edge < r.edge := by
  obtain ⟨parts, further, after, after', hparts, hparts', hfurther⟩ :=
    placeAll_of_extends config hs h hsizes hshapes (Progress.start sizes) (Progress.start sizes')
      named
  have hagrees := (Progress.agrees_start hsize.ge hsizes).addAll config parts
  obtain ⟨rest, hrest, hfrom⟩ :=
    exists_edges_addAll config ((Progress.start sizes').addAll config parts) further
  rw [hagrees.edges] at hrest
  obtain ⟨size, hl⟩ := exists_ofScope_of_placeAll hparts
  obtain ⟨size', hl'⟩ := exists_ofScope_of_placeAll hparts'
  -- the further edges have larger numbers, so the sort leaves them behind the old ones
  have hlarger : ∀ e ∈ s.edges, ∀ r ∈ rest, e.edge < r.edge := by
    intro e he r hr
    obtain ⟨part, hpart, w, hw, hrw⟩ := hfrom r hr
    obtain ⟨f, hf, hwf⟩ := (hfurther part hpart).2 w hw
    exact (h.numbers e he f hf).trans_eq (hrw.trans hwf).symm
  have hsort : byNumber (((Progress.start sizes).addAll config parts).edges ++ rest) =
      byNumber ((Progress.start sizes).addAll config parts).edges ++ byNumber rest :=
    byNumber_append fun w hw r hr => by
      obtain ⟨e, he, hedge⟩ := exists_edge_of_mem hs hl (mem_byNumber.mpr hw)
      exact hedge ▸ hlarger e he r hr
  refine ⟨_, after, _, after', hl, hl', (size_members hs hl).trans hsize,
    (size_members (h.wellFormed hs) hl').trans hsize', fun v hv => ?_, byNumber rest, ?_,
    fun e he => ⟨exists_routed hs hl he, fun r hr => hlarger e he r (mem_byNumber.mp hr)⟩⟩
  · -- the further parts have none of the old members
    have hold : ∀ part ∈ further, v ∉ part.1.members :=
      fun part hpart hmem => hv.not_ge ((hfurther part hpart).1 v hmem)
    exact (getD_members_addAll_of_notMem hold _).trans (hagrees.members v hv _)
  · exact (congrArg byNumber hrest).trans hsort

/-- A loop and an edge between two members, and then two further members with an edge and a loop.
The loop is drawn first in the scope, though last in its part. -/
theorem loop_beside_further_members :
    let s : Scope := ⟨none, [.node 0, .node 1], [⟨0, 0, 0⟩, ⟨1, 0, 1⟩]⟩
    let s' : Scope := ⟨none, [.node 0, .node 1, .node 2, .node 3],
      [⟨0, 0, 0⟩, ⟨1, 0, 1⟩, ⟨2, 3, 2⟩, ⟨3, 3, 3⟩]⟩
    let sizes : Array (Size Rat) := #[⟨40, 20⟩, ⟨30, 10⟩]
    let shapes : Array (EdgeShape Rat) := #[⟨1, none⟩, ⟨2, some ⟨12, 8⟩⟩]
    let sizes' : Array (Size Rat) := sizes ++ #[⟨500, 90⟩, ⟨1, 1⟩]
    let shapes' : Array (EdgeShape Rat) := shapes ++ #[⟨3, none⟩, ⟨1, some ⟨99, 7⟩⟩]
    ∃ l after l' after', ofScope .standard s sizes shapes 0 = .ok (l, after) ∧
      ofScope .standard s' sizes' shapes' 0 = .ok (l', after') ∧
      l'.member 0 = l.member 0 ∧ l'.member 1 = l.member 1 ∧
      l.edges.map (·.edge) = [0, 1] ∧
      ∃ rest, l'.edges = l.edges ++ rest ∧ rest.map (·.edge) = [2, 3] := by
  intro s s' sizes shapes sizes' shapes'
  have hs : s.WellFormed := by simp [Scope.WellFormed, s]
  have hextends : s.Extends s' [⟨2, 3, 2⟩, ⟨3, 3, 3⟩] := by
    refine ⟨⟨[.node 2, .node 3], rfl⟩, rfl, ?_, ?_⟩
    · simp [s, s']
    · simp [s]
  have hsizes : ∀ v < s.members.length, sizes'[v]? = sizes[v]? :=
    fun v hv => Array.getElem?_append_left hv
  have hshapes : ∀ e ∈ s.edges, shapes'[e.edge]? = shapes[e.edge]? := by simp [s, shapes, shapes']
  obtain ⟨l, after, l', after', hl, hl', -, -, hmembers, rest, hrest, -⟩ :=
    appended_parts_change_nothing .standard hs hextends rfl rfl hsizes hshapes 0
  have hedges : l.edges.map (·.edge) = [0, 1] := map_edge_eq hs (by simp [s]) hl
  have hedges' : l'.edges.map (·.edge) = [0, 1, 2, 3] :=
    map_edge_eq (hextends.wellFormed hs) (by simp [s']) hl'
  rw [hrest, List.map_append, hedges] at hedges'
  exact ⟨l, after, l', after', hl, hl', hmembers 0 (by decide),
    hmembers 1 (by decide), hedges, rest, hrest, by simpa using hedges'⟩

end ScopeLayout

end Drafting.Graph
