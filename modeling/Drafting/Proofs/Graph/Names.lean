import Mathlib
import Drafting.Proofs.Graph.Elements
import Drafting.Proofs.Graph.ProperLayering

/-!
The names of routing points in a whole layout.

Every connected part of every scope has a layered graph of its own, and they share one supply of
names: each takes its names from the first that is free, and tells the next one how many are taken.

* `Component.record`, `ScopeLayout.record`, `Model.record`: the layouts of a part, of a scope and of
  all scopes of a graph, with the layered graphs that are made on the way; `Model.map_fst_record`:
  the result is the same as without.
* `Layering.Numbered`: routing points are named one after the other.
* `Component.numbered_record`: what one part adds; `ScopeLayout.numbered_recordAll`,
  `Interiors.numbered_recordAll`: what a whole run adds.
* `Layering.edges_are_cut_properly_and_named_apart`: layered graphs are proper, and no two routing
  points of a layout have the same name.
-/

namespace Drafting

lemma Ident.anonymous_injective : Function.Injective anonymous := by
  intro n k h
  exact Nat.repr_injective ((String.append_right_inj "__").mp h)

namespace Graph

variable {α : Type}

/-! ### Recording layered graphs -/

/-- A result with the layered graphs that were made on the way to it. -/
abbrev Recorded (α β : Type) := Except (Inconsistency α) (β × List (Layering α))

section Recorded

variable {β γ : Type} {x : Recorded α β} {f : β → Recorded α γ}

/-- Goes on from a result, and keeps the layered graphs made so far. -/
def Recorded.andThen (x : Recorded α β) (f : β → Recorded α γ) : Recorded α γ :=
  match x with
  | .error e => .error e
  | .ok (b, gs) => (f b).map fun (c, hs) => (c, gs ++ hs)

lemma Recorded.map_fst_andThen :
    (x.andThen f).map Prod.fst = (x.map Prod.fst).bind fun b => (f b).map Prod.fst := by
  cases x with
  | error e => rfl
  | ok r =>
      change ((f r.1).map _).map _ = (f r.1).map _
      cases f r.1 <;> rfl

lemma Recorded.of_andThen_eq_ok {c : γ} {gs : List (Layering α)} (h : x.andThen f = .ok (c, gs)) :
    ∃ b gs₁ gs₂, x = .ok (b, gs₁) ∧ f b = .ok (c, gs₂) ∧ gs = gs₁ ++ gs₂ := by
  cases x with
  | error e => cases h
  | ok r =>
      obtain ⟨b, gs₁⟩ := r
      cases hf : f b with
      | error e => simp [andThen, hf, Except.map] at h
      | ok r =>
          obtain ⟨c', gs₂⟩ := r
          rw [andThen, hf] at h
          obtain ⟨rfl, rfl⟩ := Prod.mk.inj (Except.ok.inj h)
          exact ⟨b, gs₁, gs₂, rfl, hf, rfl⟩

end Recorded

variable [Scalar α]

/-- The layout of a part, with its layered graph. -/
def Component.record (config : GraphConfig α) (sizes : Array (Size α))
    (shapes : Array (EdgeShape α))
    (c : Component) (named : Nat) : Recorded α (ComponentLayout α × Nat) :=
  (Ranking.ofDigraph (c.digraph shapes)).map fun ranking =>
    let g := c.layering config sizes shapes named ranking
    ((c.arrange config sizes shapes ranking g, named + (g.nodes.size - c.members.length)), [g])

namespace ScopeLayout

/-- Lays out parts and places them one after the other, with their layered graphs. -/
def recordAll (config : GraphConfig α) (sizes : Array (Size α)) (shapes : Array (EdgeShape α)) :
    List Component → Progress α → Nat → Recorded α (Progress α × Nat)
  | [], p, named => .ok ((p, named), [])
  | c :: rest, p, named =>
    (c.record config sizes shapes named).andThen fun (l, named) =>
      recordAll config sizes shapes rest (p.add config c l) named

/-- The layout of a scope, with the layered graphs of its parts. -/
def record (config : GraphConfig α) (s : Scope) (sizes : Array (Size α))
    (shapes : Array (EdgeShape α)) (named : Nat) : Recorded α (ScopeLayout α × Nat) :=
  let components := Component.ofScope s
  (recordAll config sizes shapes components (Progress.start sizes) named).andThen fun (p, named) =>
    let width := if components.isEmpty then 0 else p.cursor - config.componentGap
    .ok ((⟨⟨width, p.height⟩, p.members, byNumber p.edges⟩, named), [])

end ScopeLayout

/-- Lays out scopes, each with the frames of those before it, and with the layered graphs of all. -/
def Interiors.recordAll (config : GraphConfig α) (shapes : Shapes α) :
    List Scope → Interiors α → Recorded α (Interiors α)
  | [], i => .ok (i, [])
  | s :: rest, i =>
    (ScopeLayout.record config s (i.sizes shapes s) shapes.edges i.named).andThen fun (l, named) =>
      recordAll config shapes rest (i.enter config shapes s.container l named)

/-- The scopes of a graph laid out by themselves, with the layered graphs of all. -/
def Model.record (s : Setting α) (m : Model α) : Recorded α (Interiors α) :=
  Interiors.recordAll s.config.graph (m.shapes s) (Containment.ofModel m).orderedScopes
    (Interiors.empty (Containment.ofModel m).clusters.length)

/-! ### Recording changes nothing -/

lemma Component.map_fst_record (config : GraphConfig α) (sizes : Array (Size α))
    (shapes : Array (EdgeShape α)) (c : Component) (named : Nat) :
    (c.record config sizes shapes named).map Prod.fst = c.layout config sizes shapes named := by
  rw [record, layout]
  cases Ranking.ofDigraph (α := α) (c.digraph shapes) <;> rfl

lemma ScopeLayout.map_fst_recordAll (config : GraphConfig α) (sizes : Array (Size α))
    (shapes : Array (EdgeShape α)) (cs : List Component) (p : Progress α) (named : Nat) :
    (recordAll config sizes shapes cs p named).map Prod.fst =
      placeAll config sizes shapes cs p named := by
  induction cs generalizing p named with
  | nil => rfl
  | cons c cs ih =>
      rw [recordAll, Recorded.map_fst_andThen, Component.map_fst_record, placeAll]
      cases c.layout config sizes shapes named with
      | error e => rfl
      | ok r => exact ih _ _

lemma ScopeLayout.map_fst_record (config : GraphConfig α) (s : Scope) (sizes : Array (Size α))
    (shapes : Array (EdgeShape α)) (named : Nat) :
    (record config s sizes shapes named).map Prod.fst = ofScope config s sizes shapes named := by
  rw [record, Recorded.map_fst_andThen, map_fst_recordAll, ofScope, Progress.start]
  cases placeAll config sizes shapes (Component.ofScope s) _ named <;> rfl

lemma Interiors.map_fst_recordAll (config : GraphConfig α) (shapes : Shapes α) (scopes : List Scope)
    (i : Interiors α) :
    (recordAll config shapes scopes i).map Prod.fst = layAll config shapes scopes i := by
  induction scopes generalizing i with
  | nil => rfl
  | cons s scopes ih =>
      rw [recordAll, Recorded.map_fst_andThen, ScopeLayout.map_fst_record, layAll, sizes]
      cases ScopeLayout.ofScope config s _ shapes.edges i.named with
      | error e => rfl
      | ok r => exact ih _

/-- Recording leads to the scopes as they are laid out. -/
lemma Model.map_fst_record (s : Setting α) (m : Model α) :
    (m.record s).map Prod.fst = m.interiors s :=
  Interiors.map_fst_recordAll _ _ _ _

/-! ### Names -/

namespace Layering

omit [Scalar α] in
/-- The names of the routing points. -/
def names (g : Layering α) : List Ident := g.nodes.toList.filterMap (·.id)

/-- Layered graphs of oriented edges, with routing points that are named one after the other:
`named` have names before, and `after` have names then. -/
structure Numbered (width : α) (gs : List (Layering α)) (named after : Nat) : Prop where
  /-- No name is given up. -/
  le : named ≤ after
  /-- The names are the next ones in order. -/
  names : gs.flatMap names = (List.range' named (after - named)).map Ident.anonymous
  /-- Each graph comes from cutting edges between members along which ranks do not fall. -/
  cut : ∀ g ∈ gs, ∃ free shapes arcs, Oriented shapes arcs ∧ g = ofEdges width free shapes arcs

variable {width : α} {gs hs : List (Layering α)} {named next after : Nat}

lemma numbered_nil (width : α) (named : Nat) : Numbered width [] named named :=
  ⟨le_rfl, by simp, by simp⟩

/-- Numbers go on where others end. -/
lemma Numbered.append (hg : Numbered width gs named next) (hh : Numbered width hs next after) :
    Numbered width (gs ++ hs) named after where
  le := hg.le.trans hh.le
  names := by
    obtain ⟨k, rfl⟩ := Nat.exists_eq_add_of_le hg.le
    obtain ⟨l, rfl⟩ := Nat.exists_eq_add_of_le hh.le
    rw [List.flatMap_append, hg.names, hh.names, ← List.map_append, Nat.add_sub_cancel_left,
      Nat.add_sub_cancel_left, List.range'_append_1, Nat.add_assoc, Nat.add_sub_cancel_left]
  cut g h := (List.mem_append.mp h).elim (hg.cut g) (hh.cut g)

/-- No name is used twice. -/
lemma Numbered.nodup (h : Numbered width gs named after) : (gs.flatMap Layering.names).Nodup := by
  rw [h.names]
  exact List.Nodup.map Ident.anonymous_injective List.nodup_range'

lemma filterMap_id_routingPoints (width : α) (named : Nat) (cut : Cut) :
    (routingPoints width named cut).filterMap (·.id) =
      (List.range' named cut.ranks.length).map Ident.anonymous := by
  rw [routingPoints]
  induction cut.ranks generalizing named with
  | nil => rfl
  | cons rank ranks ih =>
      rw [List.mapIdx_cons, List.length_cons, List.range'_succ, List.map_cons, ← ih (named + 1)]
      simp [Nat.add_assoc, Nat.add_comm 1]

lemma filterMap_id_allRoutingPoints (width : α) (named : Nat) (cuts : List Cut) :
    (allRoutingPoints width named cuts).filterMap (·.id) =
      (List.range' named (allRoutingPoints width named cuts).length).map Ident.anonymous := by
  induction cuts generalizing named with
  | nil => rfl
  | cons cut cuts ih =>
      rw [allRoutingPoints, List.filterMap_append, ih, filterMap_id_routingPoints,
        List.length_append, ← List.map_append, ← List.range'_append_1]
      simp [routingPoints]

/-- The routing points are named from the first name that is free. -/
lemma names_ofEdges (width : α) (named : Nat) (members : List (MemberShape α))
    (edges : List (Nat × Nat)) :
    (ofEdges width named members edges).names = (List.range' named
      ((ofEdges width named members edges).nodes.size - members.length)).map Ident.anonymous := by
  have hown : (members.mapIdx fun i shape =>
      (⟨.member i, shape.rank, shape.extent, shape.height, none⟩ : LayerNode α)).filterMap (·.id) =
        [] := by
    rw [List.filterMap_eq_nil_iff]
    intro n hn
    obtain ⟨i, hi, rfl⟩ := List.mem_mapIdx.mp hn
    rfl
  simp only [names, ofEdges, List.filterMap_append, hown, List.nil_append,
    filterMap_id_allRoutingPoints, List.size_toArray, List.length_append, List.length_mapIdx,
    Nat.add_sub_cancel_left]

end Layering

/-! ### The run -/

section Run

variable {config : GraphConfig α} {s : Scope} {named after : Nat} {gs : List (Layering α)}

section Parts

variable {sizes : Array (Size α)} {shapes : Array (EdgeShape α)}

/-- The layered graph of a part takes the next names. -/
lemma Component.numbered_record {c : Component} {l : ComponentLayout α} (hs : s.WellFormed)
    (hc : c ∈ ofScope s) (h : c.record config sizes shapes named = .ok ((l, after), gs)) :
    Layering.Numbered config.virtualNodeWidth gs named after := by
  have hlayout := c.map_fst_record config sizes shapes named
  rw [h] at hlayout
  obtain ⟨ranking, hranked, -, -⟩ := exists_ranked hs hc hlayout.symm
  rw [record, hranked.ok] at h
  obtain ⟨hpair, rfl⟩ := Prod.mk.inj (Except.ok.inj h)
  obtain ⟨-, rfl⟩ := Prod.mk.inj hpair
  have hlength : (c.memberShapes config sizes shapes ranking.ranks).length = c.members.length := by
    simp [memberShapes]
  refine ⟨Nat.le_add_right _ _, ?_, fun g hg => ?_⟩
  · rw [List.flatMap_singleton, Nat.add_sub_cancel_left, ← hlength]
    exact Layering.names_ofEdges _ _ _ _
  · obtain rfl := List.mem_singleton.mp hg
    exact ⟨named, _, _, oriented_of_ranked hs hc hranked, rfl⟩

/-- The layered graphs of the parts of a scope take the next names. -/
lemma ScopeLayout.numbered_recordAll (hs : s.WellFormed) {cs : List Component}
    (hcs : ∀ c ∈ cs, c ∈ Component.ofScope s) {p q : Progress α}
    (h : recordAll config sizes shapes cs p named = .ok ((q, after), gs)) :
    Layering.Numbered config.virtualNodeWidth gs named after := by
  induction cs generalizing p named gs with
  | nil =>
      obtain ⟨hpair, rfl⟩ := Prod.mk.inj (Except.ok.inj h)
      obtain ⟨-, rfl⟩ := Prod.mk.inj hpair
      exact Layering.numbered_nil _ _
  | cons c cs ih =>
      rw [List.forall_mem_cons] at hcs
      obtain ⟨_, gs₁, gs₂, hpart, hrest, rfl⟩ := Recorded.of_andThen_eq_ok h
      exact (Component.numbered_record hs hcs.1 hpart).append (ih hcs.2 hrest)

lemma ScopeLayout.numbered_record (hs : s.WellFormed) {l : ScopeLayout α}
    (h : record config s sizes shapes named = .ok ((l, after), gs)) :
    Layering.Numbered config.virtualNodeWidth gs named after := by
  obtain ⟨_, gs₁, gs₂, hall, hwhole, rfl⟩ := Recorded.of_andThen_eq_ok h
  obtain ⟨hpair, rfl⟩ := Prod.mk.inj (Except.ok.inj hwhole)
  obtain ⟨-, rfl⟩ := Prod.mk.inj hpair
  rw [List.append_nil]
  exact numbered_recordAll hs (fun _ hc => hc) hall

end Parts

/-- The layered graphs of all scopes take the next names. -/
lemma Interiors.numbered_recordAll {shapes : Shapes α} {scopes : List Scope}
    (hscopes : ∀ s ∈ scopes, s.WellFormed) {i j : Interiors α}
    (h : recordAll config shapes scopes i = .ok (j, gs)) :
    Layering.Numbered config.virtualNodeWidth gs i.named j.named := by
  induction scopes generalizing i gs with
  | nil =>
      obtain ⟨rfl, rfl⟩ := Prod.mk.inj (Except.ok.inj h)
      exact Layering.numbered_nil _ _
  | cons s scopes ih =>
      rw [List.forall_mem_cons] at hscopes
      obtain ⟨_, gs₁, gs₂, hscope, hrest, rfl⟩ := Recorded.of_andThen_eq_ok h
      exact (ScopeLayout.numbered_record hscopes.1 hscope).append (ih hscopes.2 hrest)

end Run

/-- **The routing points of a graph are named one after the other**, through all layered graphs. -/
lemma Model.exists_record (s : Setting α) (m : Model α) :
    ∃ i gs, m.interiors s = .ok i ∧ m.record s = .ok (i, gs) ∧
      Layering.Numbered s.config.graph.virtualNodeWidth gs 0 i.named := by
  obtain ⟨i, hi, -⟩ := Interiors.ofScopes_eq_ok s.config.graph (m.shapes s)
    (Containment.sound_ofModel m)
  have hinteriors : m.interiors s = .ok i := hi
  have hfst := m.map_fst_record s
  rw [hinteriors] at hfst
  cases hrecord : m.record s with
  | error e =>
      rw [hrecord] at hfst
      cases hfst
  | ok r =>
      obtain ⟨j, gs⟩ := r
      rw [hrecord] at hfst
      obtain rfl : j = i := Except.ok.inj hfst
      refine ⟨j, gs, hinteriors, rfl, Interiors.numbered_recordAll (fun x hx => ?_) hrecord⟩
      rw [Containment.orderedScopes_eq] at hx
      obtain ⟨container, -, rfl⟩ := List.mem_map.mp hx
      exact Containment.wellFormed_scopeOf _ container

namespace Layering

/-- **Cutting edges gives a proper layered graph, and no two routing points of a layout share a
name.**  The first part is about any members and any edges between them along which ranks do not
fall.  The second is about all layered graphs that are made when a graph is laid out, one for each
connected part of each scope. -/
theorem edges_are_cut_properly_and_named_apart {members : List (MemberShape α)}
    {edges : List (Nat × Nat)} (hedges : Oriented members edges) (width : α) (named : Nat)
    (s : Setting α) (m : Model α) :
    (ofEdges width named members edges).IsProper members edges ∧
    ∃ i gs, m.interiors s = .ok i ∧ m.record s = .ok (i, gs) ∧
      (∀ g ∈ gs, ∃ free shapes arcs, Oriented shapes arcs ∧
        g = ofEdges s.config.graph.virtualNodeWidth free shapes arcs) ∧
      (gs.flatMap names).Nodup := by
  obtain ⟨i, gs, hi, hrecord, hnumbered⟩ := m.exists_record s
  exact ⟨(cuts_ofEdges hedges).isProper hedges, i, gs, hi, hrecord, hnumbered.cut, hnumbered.nodup⟩

/-- Two long edges between the same members, beside one within a rank and one to the next rank; and
a graph with a long edge in a cluster and two outside, which make up four parts. -/
theorem parallel_edges_are_cut_and_parts_named_apart :
    let members : List (MemberShape Rat) := [0, 0, 1, 3].map fun rank => ⟨rank, ⟨5, 5⟩, 4⟩
    let edges := [(0, 1), (0, 2), (0, 3), (0, 3)]
    let g := ofEdges 2 7 members edges
    let s : Setting Rat := ⟨.standard, fun _ _ => ⟨10, 5⟩⟩
    let m : Model Rat :=
      { nodes := [{ id := "a" }, { id := "b" }, { id := "c" }, { id := "d" },
          { id := "x", parent := some "k" }, { id := "y", parent := some "k" }]
        edges := [{ source := "a", target := "b", length := 3 },
          { source := "x", target := "y", length := 2 },
          { source := "d", target := "c", length := 3 }]
        clusters := [{ id := "k" }] }
    Oriented members edges ∧ g.IsProper members edges ∧
      g.chains = [[0, 1], [0, 2], [0, 4, 5, 3], [0, 6, 7, 3]] ∧
      g.segments = [(0, 2), (0, 4), (4, 5), (5, 3), (0, 6), (6, 7), (7, 3)] ∧
      ∃ i gs, m.interiors s = .ok i ∧ m.record s = .ok (i, gs) ∧
        gs.map names = [["__0"], ["__1", "__2"], ["__3", "__4"], []] ∧
          (gs.flatMap names).Nodup := by
  intro members edges g s m
  have hedges : Oriented members edges := by simp [Oriented, members, edges]
  obtain ⟨hproper, i, gs, hi, hrecord, -, hnodup⟩ :=
    edges_are_cut_properly_and_named_apart hedges 2 7 s m
  have hnames : (m.record s).toOption.map (fun r => r.2.map names) =
      some [["__0"], ["__1", "__2"], ["__3", "__4"], []] := by cbv
  rw [hrecord] at hnames
  exact ⟨hedges, hproper, by cbv, by cbv, i, gs, hi, hrecord, Option.some.inj hnames, hnodup⟩

end Layering

end Graph

end Drafting
