import Mathlib
import Drafting.Proofs.Config
import Drafting.Proofs.Graph.Turned

/-!
Drawings from left to right and from top to bottom.

A graph drawn from left to right and the turned graph drawn from top to bottom are the same layout:
one is drawn with the axes of the layout exchanged, the other as it is.

* `Model.Bare.exists_placed_eq`: the elements of both graphs get the same places.
* `Layout.Mirrors`, `Drawing.Mirrors`: the one drawing is the other with its axes exchanged.
* `Layout.Mirrors.contentBounds`, `Layout.Mirrors.translate`: exchanged axes
  on the way to the sheet.
* `Diagram.left_to_right_mirrors_top_to_bottom`: the drawings of both graphs mirror each other.
-/

namespace Drafting

open Binary32 (IsNumber)

section Finite

variable {α : Type} [Scalar α]

/-- No coordinate of a box has overflowed. -/
def Bounds.IsFinite (b : Bounds α) : Prop :=
  (Scalar.isFinite b.minX = true ∧ Scalar.isFinite b.minY = true) ∧
    Scalar.isFinite b.maxX = true ∧ Scalar.isFinite b.maxY = true

instance (b : Bounds α) : Decidable b.IsFinite := by unfold Bounds.IsFinite; infer_instance

/-- No box of a node or cluster has overflowed. -/
structure Graph.Layout.IsFinite (l : Graph.Layout α) : Prop where
  nodes : ∀ g ∈ l.nodes, g.bounds.IsFinite
  clusters : ∀ g ∈ l.clusters, g.bounds.IsFinite

instance (l : Graph.Layout α) : Decidable l.IsFinite :=
  decidable_of_iff
    ((∀ g ∈ l.nodes, g.bounds.IsFinite) ∧ ∀ g ∈ l.clusters, g.bounds.IsFinite)
    ⟨fun h => ⟨h.1, h.2⟩, fun h => ⟨h.nodes, h.clusters⟩⟩

lemma Graph.Layout.IsFinite.box {l : Graph.Layout α} (h : l.IsFinite) {x : Graph.Member}
    {b : Bounds α} (hx : l.boxOf? x = some b) : b.IsFinite := by
  cases x with
  | node n =>
      obtain ⟨g, hg, rfl⟩ := Option.map_eq_some_iff.mp hx
      exact h.nodes g (List.mem_of_getElem? hg)
  | cluster k =>
      obtain ⟨g, hg, rfl⟩ := Option.map_eq_some_iff.mp hx
      exact h.clusters g (List.mem_of_getElem? hg)

/-- No box of a drawing has overflowed. -/
def Drawing.IsFinite (d : Drawing α) : Prop := ∀ l, d.graph? = some l → l.IsFinite

end Finite

namespace Graph

/-! ### Places -/

namespace Model

variable {s : Setting Float32} {m : Model Float32} {i : Interiors Float32}

/-- **The elements of both graphs get the same places** when their sides are numbers. -/
lemma Bare.exists_placed_eq (h : m.Bare) (hvalid : s.config.validate = .ok ())
    (hi : m.interiors (s.directed .leftToRight) = .ok i)
    (hnumeric : ∀ x place, (Containment.ofModel m).Declares x → (m.placed i).Holds x place →
      IsNumber place.bounds.minX ∧ IsNumber place.bounds.maxX) :
    ∃ i', m.turned.interiors (s.directed .topToBottom) = .ok i' ∧
      m.turned.placed i' = m.placed i := by
  have hc := Containment.sound_ofModel m
  have hi' : Interiors.ofScopes (s.config.graph.directed .leftToRight)
      (m.shapes (s.directed .leftToRight)) (Containment.ofModel m).clusters.length
      (Containment.ofModel m).orderedScopes = .ok i := hi
  obtain ⟨i₀, hi₀, hsettled⟩ := Interiors.ofScopes_eq_ok (s.config.graph.directed .leftToRight)
    (m.shapes (s.directed .leftToRight)) hc
  obtain rfl : i = i₀ := Except.ok.inj (hi'.symm.trans hi₀)
  have hsize : ∀ x, (Containment.ofModel m).IsContainer x →
      (i.scope x).members.size = ((Containment.ofModel m).scopeOf x).members.length := by
    intro x hx
    obtain ⟨named, after, hok⟩ := (hsettled x hx).scope
    exact (ScopeLayout.size_members (Containment.wellFormed_scopeOf _ x) hok).trans
      (by simp [Interiors.sizes])
  have hsides := Placed.numeric_of_housed (fun x hx => Placed.housed_ofInteriors hc i hx) hsize
    hnumeric
  have hgaps := Config.graph_gaps_nonneg hvalid
  have hrooms : ∀ k, some k ∈ (Containment.ofModel m).order → (i.scope (some k)).size.IsRoom :=
    fun k hk => Interiors.isRoom_scope hgaps.1 hgaps.2 (h.heads _) (h.nodes_nonneg s)
      (h.labelOf _) hc hsettled hsides (hc.mem_order.mp hk k rfl)
  have hsized := Interiors.sized_empty (α := Float32) hc
  have hempty : (Interiors.empty (Containment.ofModel m).clusters.length :
      Interiors Float32).Twin (Interiors.empty (Containment.ofModel m).clusters.length) :=
    ⟨rfl, rfl, fun _ => Frame.Twin.refl _⟩
  rw [Interiors.ofScopes, Containment.orderedScopes_eq] at hi'
  obtain ⟨i', hlaid, htwin⟩ := hempty.layAll hsized hsized hc.nodup_order
    (fun x hx => hc.mem_order.mp hx) (h.heads _) hi' hrooms
  refine ⟨i', ?_, ?_⟩
  · rw [interiors, Interiors.ofScopes, h.shapes_turned, Containment.ofModel_turned,
      Containment.orderedScopes_turned, Containment.orderedScopes_eq]
    exact hlaid
  · rw [placed_turned, placed, placed, Placed.ofInteriors_twin htwin]

end Model

/-! ### Drawn elements -/

section Mirrors

variable {α : Type}

/-- A node drawn with its axes exchanged; its text is not turned. -/
structure NodeGeometry.Mirrors (g g' : NodeGeometry α) : Prop where
  id : g'.id = g.id
  bounds : g'.bounds = g.bounds.swap
  lines : g'.label.lines = g.label.lines
  rank : g'.rank = g.rank
  order : g'.order = g.order
  cluster : g'.cluster = g.cluster

/-- An edge drawn with its axes exchanged. -/
structure EdgeGeometry.Mirrors (g g' : EdgeGeometry α) : Prop where
  index : g'.index = g.index
  ends : g'.source = g.source ∧ g'.target = g.target
  style : g'.style = g.style
  kind : g'.kind = g.kind
  points : g'.points = g.points.map Point.swap
  reversed : g'.reversed = g.reversed
  label : g'.label = g.label.map TextBox.swap

/-- A cluster drawn with its axes exchanged. -/
structure ClusterGeometry.Mirrors (g g' : ClusterGeometry α) : Prop where
  id : g'.id = g.id
  bounds : g'.bounds = g.bounds.swap
  label : g'.label = g.label.map TextBox.swap
  parent : g'.parent = g.parent
  depth : g'.depth = g.depth

/-- The same elements, drawn with exchanged axes. -/
structure Layout.Mirrors (l l' : Layout α) : Prop where
  nodes : List.Forall₂ NodeGeometry.Mirrors l.nodes l'.nodes
  edges : List.Forall₂ EdgeGeometry.Mirrors l.edges l'.edges
  clusters : List.Forall₂ ClusterGeometry.Mirrors l.clusters l'.clusters

end Mirrors

namespace Layout

variable {α : Type} [Scalar α]

lemma mirrors_nodesOf (c : Containment α) (labels : List (MeasuredText α)) (p : Placed α) :
    List.Forall₂ NodeGeometry.Mirrors (nodesOf .leftToRight c labels p)
      (nodesOf .topToBottom c.turned labels p) := by
  refine List.forall₂_iff_get.mpr ⟨by simp [nodesOf, Containment.turned], fun j _ _ => ?_⟩
  simp only [nodesOf, Containment.turned, List.get_eq_getElem, List.getElem_mapIdx,
    List.getElem_zip, List.getElem_map]
  exact ⟨rfl, rfl, rfl, rfl, rfl, rfl⟩

/-- Clusters mirror each other when they have no texts, which are not turned with their frames. -/
lemma mirrors_clustersOf (config : GraphConfig α) (c : Containment α)
    {labels : List (Option (MeasuredText α))} (hlabels : ∀ label ∈ labels, label = none)
    (p : Placed α) :
    List.Forall₂ ClusterGeometry.Mirrors (clustersOf (config.directed .leftToRight) c labels p)
      (clustersOf (config.directed .topToBottom) c.turned labels p) := by
  refine List.forall₂_iff_get.mpr ⟨by simp [clustersOf, Containment.turned], fun j hj _ => ?_⟩
  have hlt : j < labels.length := by
    simp only [clustersOf, List.length_mapIdx, List.length_zip] at hj
    omega
  have hnone := hlabels _ (List.getElem_mem hlt)
  simp only [clustersOf, Containment.turned, List.get_eq_getElem, List.getElem_mapIdx,
    List.getElem_zip, hnone]
  exact ⟨rfl, rfl, rfl, rfl, rfl⟩

/-- The line of an edge is found in the axes of the layout. -/
lemma Line.ofEnds_directed (config : GraphConfig α) (d : Direction) (p : Placed α) (index : Nat)
    (ends : Ends) :
    Line.ofEnds (config.directed d) p index ends = Line.ofEnds config p index ends := rfl

omit [Scalar α] in
lemma mirrors_edge (index : Nat) (e : Edge) (label : Option (MeasuredText α)) (line : Line α) :
    (edge .leftToRight index e label line).Mirrors (edge .topToBottom index e label line) where
  index := rfl
  ends := ⟨rfl, rfl⟩
  style := rfl
  kind := rfl
  points := by
    simp only [edge, List.map_map]
    rfl
  reversed := rfl
  label := by
    simp only [edge]
    split <;> rfl

lemma mirrors_edgesFrom {config : GraphConfig α} {p : Placed α} {index : Nat}
    {edges : List (Edge × Option (MeasuredText α) × Ends)} {drawn drawn' : List (EdgeGeometry α)}
    (h : edgesFrom (config.directed .leftToRight) p index edges = .ok drawn)
    (h' : edgesFrom (config.directed .topToBottom) p index edges = .ok drawn') :
    List.Forall₂ EdgeGeometry.Mirrors drawn drawn' := by
  induction edges generalizing index drawn drawn' with
  | nil =>
      obtain rfl := Except.ok.inj h
      obtain rfl := Except.ok.inj h'
      exact List.Forall₂.nil
  | cons first edges ih =>
      obtain ⟨e, label, ends⟩ := first
      rw [edgesFrom, Line.ofEnds_directed] at h h'
      cases hline : Line.ofEnds config p index ends with
      | error failure =>
          rw [hline] at h
          cases h
      | ok line =>
          rw [hline] at h h'
          cases hrest : edgesFrom (config.directed .leftToRight) p (index + 1) edges with
          | error failure =>
              rw [hrest] at h
              cases h
          | ok rest =>
              cases hrest' : edgesFrom (config.directed .topToBottom) p (index + 1) edges with
              | error failure =>
                  rw [hrest'] at h'
                  cases h'
              | ok rest' =>
                  rw [hrest] at h
                  rw [hrest'] at h'
                  obtain rfl := Except.ok.inj h
                  obtain rfl := Except.ok.inj h'
                  exact List.Forall₂.cons (mirrors_edge index e label line) (ih hrest hrest')

/-! ### On the sheet -/

variable {l l' : Layout α}

/-- The boxes that make up the content are the same with exchanged axes. -/
lemma Mirrors.boxes (h : l.Mirrors l') :
    List.Forall₂ (fun b b' => b' = b.swap) l.boxes l'.boxes := by
  have hlabel : ∀ {t t' : Option (TextBox α)}, t' = t.map TextBox.swap →
      Option.Rel (fun b b' : Bounds α => b' = b.swap) (t.map (·.bounds)) (t'.map (·.bounds)) := by
    rintro t t' rfl
    cases t with
    | none => exact Option.Rel.none
    | some text => exact Option.Rel.some rfl
  have hpoints : List.Forall₂ (fun p p' => p' = p.swap) (l.edges.flatMap (·.points))
      (l'.edges.flatMap (·.points)) := by
    refine List.rel_flatMap h.edges fun g g' hg => ?_
    rw [hg.points, List.forall₂_map_right_iff, List.forall₂_same]
    exact fun _ _ => rfl
  refine List.rel_append (List.rel_append (List.rel_append (List.rel_append ?_ ?_) ?_) ?_) ?_
  · exact List.rel_map (fun _ _ hg => hg.bounds) h.nodes
  · exact List.rel_map (fun _ _ hg => hg.bounds) h.clusters
  · exact List.rel_filterMap (fun _ _ hg => hlabel hg.label) h.clusters
  · exact List.rel_filterMap (fun _ _ hg => hlabel hg.label) h.edges
  · refine List.rel_map ?_ hpoints
    rintro p p' rfl
    rfl

/-- **The content has the same bounds with exchanged axes.** -/
lemma Mirrors.contentBounds (h : l.Mirrors l') : l'.contentBounds = l.contentBounds.swap := by
  have hboxes := h.boxes
  rw [Layout.contentBounds, Layout.contentBounds]
  generalize l.boxes = boxes at hboxes
  generalize l'.boxes = boxes' at hboxes
  cases hboxes with
  | nil => rfl
  | cons hfirst hrest =>
      refine List.rel_foldl (P := fun b b' : Bounds α => b' = b.swap) ?_ hfirst hrest
      rintro b b' rfl c c' rfl
      rfl

/-- Drawings that are moved along mirror each other as before. -/
lemma Mirrors.translate (h : l.Mirrors l') (v : Point α) :
    (l.translate v).Mirrors (l'.translate v.swap) where
  nodes := by
    refine List.rel_map (fun g g' hg => ?_) h.nodes
    exact ⟨hg.id, congrArg (·.translate v.swap) hg.bounds, hg.lines, hg.rank, hg.order, hg.cluster⟩
  edges := by
    refine List.rel_map (fun g g' hg => ?_) h.edges
    refine ⟨hg.index, hg.ends, hg.style, hg.kind, ?_, hg.reversed, ?_⟩
    · simp only [EdgeGeometry.translate, hg.points, List.map_map]
      rfl
    · simp only [EdgeGeometry.translate, hg.label, Option.map_map]
      rfl
  clusters := by
    refine List.rel_map (fun g g' hg => ?_) h.clusters
    refine ⟨hg.id, congrArg (·.translate v.swap) hg.bounds, ?_, hg.parent, hg.depth⟩
    simp only [ClusterGeometry.translate, hg.label, Option.map_map]
    rfl

/-- Coordinates that have not overflowed on the sheet are those of numbers. -/
lemma isNumber_of_isFinite {l : Layout Float32} {v : Point Float32}
    (h : (l.translate v).IsFinite) {x : Member} {b : Bounds Float32} (hx : l.boxOf? x = some b) :
    IsNumber b.minY ∧ IsNumber b.maxY := by
  have hmoved : (l.translate v).boxOf? x = some (b.translate v) := by
    rw [boxOf?_translate, hx, Option.map_some]
  obtain ⟨⟨-, hmin⟩, -, hmax⟩ := h.box hmoved
  exact ⟨(Binary32.finite_iff.mp hmin).1.of_add.1, (Binary32.finite_iff.mp hmax).1.of_add.1⟩

/-- **The layouts of both graphs mirror each other.** -/
lemma mirrors_ofContainment {s : Setting Float32} {m : Model Float32} {l l' : Layout Float32}
    (hbare : m.Bare) (hvalid : s.config.validate = .ok ())
    (hl : ofContainment (s.directed .leftToRight) m (Containment.ofModel m) = .ok l)
    (hl' : ofContainment (s.directed .topToBottom) m.turned (Containment.ofModel m.turned) = .ok l')
    {v : Point Float32} (hfinite : (l.translate v).IsFinite) : l.Mirrors l' := by
  have hc := Containment.sound_ofModel m
  obtain ⟨i, hi, -⟩ := Interiors.ofScopes_eq_ok (s.config.graph.directed .leftToRight)
    (m.shapes (s.directed .leftToRight)) hc
  have hshows := shows_of_ofContainment hi hl
  -- the horizontal axis of the layout is the vertical one of the drawing
  have hnumeric : ∀ x place, (Containment.ofModel m).Declares x → (m.placed i).Holds x place →
      IsNumber place.bounds.minX ∧ IsNumber place.bounds.maxX := by
    intro x place hx hplace
    have hbox : l.boxOf? x = some place.bounds.swap := hshows.boxOf?_of_holds hc hx hplace
    have hsides := isNumber_of_isFinite hfinite hbox
    rwa [Bounds.swap] at hsides
  obtain ⟨i', hi', hplaced⟩ := hbare.exists_placed_eq hvalid hi hnumeric
  have hshows' := shows_of_ofContainment hi' hl'
  have hedges := edges_of_ofContainment hi hl
  have hedges' := edges_of_ofContainment hi' hl'
  rw [Model.placed, Model.placed] at hplaced
  rw [hplaced, Model.measures_turned s m .topToBottom .leftToRight] at hedges'
  rw [hplaced] at hshows'
  have hnodes := hshows'.nodes
  have hclusters := hshows'.clusters
  rw [Model.measures_turned s m .topToBottom .leftToRight] at hnodes hclusters
  rw [Containment.ofModel_turned] at hnodes hclusters hedges'
  constructor
  case nodes =>
    rw [hshows.nodes, hnodes]
    exact mirrors_nodesOf _ _ _
  case edges => exact mirrors_edgesFrom hedges hedges'
  case clusters =>
    rw [hshows.clusters, hclusters]
    refine mirrors_clustersOf _ _ (fun label hlabel => ?_) _
    obtain ⟨k, hk, rfl⟩ := List.mem_map.mp hlabel
    rw [hbare.clusters k (Declared.mem_of_mem_firsts hk)]
    rfl

end Layout

/-! ### An edge out of a cluster -/

variable {α : Type} [Scalar α]

namespace Component

variable {config : GraphConfig α} {sizes : Array (Size α)} {shapes : Array (EdgeShape α)}
    {named : Nat}

/-- The members of a part in ranks and orders that are known, with the ways of their edges. -/
def inLayers (config : GraphConfig α) (sizes : Array (Size α)) (shapes : Array (EdgeShape α))
    (c : Component) (ranking : Ranking) (g : Layering α) (layers : Layers) : ComponentLayout α :=
  let gaps := c.gaps config shapes g
  let placement := Placement.ofLayers g layers config.nodeSpacing config.relaxationPasses gaps
  let members := c.place sizes ranking.ranks layers placement
  let edges := c.routes shapes ranking.reversed
    ⟨config, g, layers, placement, members.toArray, gaps⟩
  ⟨boundsOf members edges, members, edges⟩

/-- The layout of a part whose ranks and orders are known. -/
lemma layout_eq_inLayers {c : Component} {ranking : Ranking} {layers : Layers}
    (hranking : Ranking.ofDigraph (α := α) (c.digraph shapes) = .ok ranking)
    (hlayers : Layers.minimize (c.layering config sizes shapes named ranking) config.orderingPasses
      config.orderingHeuristic = layers) :
    c.layout config sizes shapes named =
      let g := c.layering config sizes shapes named ranking
      .ok (c.inLayers config sizes shapes ranking g layers,
        named + (g.nodes.size - c.members.length)) := by
  subst hlayers
  rw [layout, hranking]
  rfl

variable (hpasses : config.orderingPasses = 8) (hheuristic : config.orderingHeuristic = .median)
include hpasses hheuristic

/-- A member without edges is alone in its rank. -/
lemma layout_alone :
    let c : Component := ⟨[0], []⟩
    let ranking : Ranking := ⟨[], ⟨1, []⟩, #[0]⟩
    c.layout config sizes #[⟨1, none⟩] named =
      .ok (c.inLayers config sizes #[⟨1, none⟩] ranking
        (c.layering config sizes #[⟨1, none⟩] named ranking) [[0]], named) := by
  intro c ranking
  refine layout_eq_inLayers (by cbv) ?_
  obtain ⟨extent, height, hg⟩ : ∃ extent height,
      c.layering config sizes #[⟨1, none⟩] named ranking =
      ⟨#[⟨.member 0, 0, extent, height, none⟩], [], [], 1⟩ := ⟨_, _, rfl⟩
  rw [hpasses, hheuristic, hg]
  cbv

/-- The members at the ends of an edge are alone in their ranks. -/
lemma layout_pair :
    let c : Component := ⟨[0, 1], [⟨0, 0, 1⟩]⟩
    let ranking : Ranking := ⟨[], ⟨2, [⟨0, 1, 1⟩]⟩, #[0, 1]⟩
    c.layout config sizes #[⟨1, none⟩] named =
      .ok (c.inLayers config sizes #[⟨1, none⟩] ranking
        (c.layering config sizes #[⟨1, none⟩] named ranking) [[0], [1]], named) := by
  intro c ranking
  refine layout_eq_inLayers (by cbv) ?_
  obtain ⟨extent, height, extent', height', hg⟩ : ∃ extent height extent' height',
      c.layering config sizes #[⟨1, none⟩] named ranking =
        ⟨#[⟨.member 0, 0, extent, height, none⟩, ⟨.member 1, 1, extent', height', none⟩], [(0, 1)],
          [[0, 1]], 2⟩ := ⟨_, _, _, _, rfl⟩
  rw [hpasses, hheuristic, hg]
  cbv

end Component

namespace Model

omit [Scalar α] in
/-- A cluster with a node in it, and an edge from this node to another one. -/
def pair (a b : Size α) : Model α :=
  { nodes := [{ id := "a", parent := some "p", size := some a }, { id := "b", size := some b }]
    edges := [{ source := "a", target := "b" }]
    clusters := [{ id := "p" }] }

omit [Scalar α] in
lemma orderedScopes_pair (a b : Size α) : (Containment.ofModel (pair a b)).orderedScopes =
    [⟨some 0, [.node 0], []⟩, ⟨none, [.cluster 0, .node 1], [⟨0, 0, 1⟩]⟩] := by cbv

lemma bare_pair {a b : Size α} (ha : IsUsable a) (hb : IsUsable b) : (pair a b).Bare where
  sizes := by
    intro n hn
    rcases List.mem_pair.mp hn with rfl | rfl
    · exact ⟨a, rfl, ha⟩
    · exact ⟨b, rfl, hb⟩
  clusters := by
    intro k hk
    rw [List.mem_singleton.mp hk]
  edges := by
    intro e he
    rw [List.mem_singleton.mp he]

end Model

end Graph

/-! ### Drawings -/

/-- The drawing of the same graph with exchanged axes. -/
structure Drawing.Mirrors {α : Type} (d d' : Drawing α) : Prop where
  picture : ∃ l l', d.graph? = some l ∧ d'.graph? = some l' ∧ l.Mirrors l'
  bounds : d'.bounds = d.bounds.swap
  diagnostics : d'.diagnostics = d.diagnostics

namespace Diagram

open Drafting.Graph

/-- A graph without title and caption is moved along to its sheet. -/
lemma mirrors_ofLayout {α : Type} [Scalar α] {s : Setting α} {m : Graph.Model α}
    {l l' : Graph.Layout α} (hbare : m.Bare) (h : l.Mirrors l') :
    (ofLayout (s.directed .leftToRight) none none m l).Mirrors
      (ofLayout (s.directed .topToBottom) none none m.turned l') := by
  have hcontent := h.contentBounds
  constructor
  case picture =>
    refine ⟨_, _, rfl, rfl, ?_⟩
    rw [hcontent]
    exact h.translate _
  case bounds =>
    rw [ofLayout, ofLayout, hcontent]
    rfl
  case diagnostics => exact hbare.diagnostics_turned

/-- The drawing of an edge out of a cluster does not overflow. -/
lemma isFinite_pair :
    let s : Setting Float32 :=
      (⟨.standard, fun _ _ => ⟨10, 5⟩⟩ : Setting Float32).directed .leftToRight
    let m : Graph.Model Float32 := .pair ⟨30, 10⟩ ⟨20, 40⟩
    ∀ l, Layout.ofContainment s m (Containment.ofModel m) = .ok l →
      (ofLayout s none none m l).IsFinite := by
  intro s m l hl
  have hinner : Component.ofScope ⟨some 0, [.node 0], []⟩ = [⟨[0], []⟩] := by cbv
  have houter : Component.ofScope ⟨none, [.cluster 0, .node 1], [⟨0, 0, 1⟩]⟩ =
      [⟨[0, 1], [⟨0, 0, 1⟩]⟩] := by cbv
  have hscopes : (Containment.ofModel m).orderedScopes = _ := Model.orderedScopes_pair _ _
  have hshapes : (m.shapes s).edges = #[⟨1, none⟩] := rfl
  have hpasses : s.config.graph.orderingPasses = 8 := rfl
  have hheuristic : s.config.graph.orderingHeuristic = .median := rfl
  have hfinite : (Layout.ofContainment s m (Containment.ofModel m)).toOption.all (fun l =>
      decide (l.translate (Sheet.around s s.config.graph.diagramPadding none none
        l.contentBounds).offset).IsFinite) = true := by
    -- ranks and orders are put in by name: the kernel does not find them by itself, since the
    -- recursion is well-founded there
    rw [Model.shapes] at hshapes
    rw [Layout.ofContainment]
    simp only [hscopes, hshapes, hinner, houter, Interiors.ofScopes, Interiors.layAll,
      ScopeLayout.ofScope, ScopeLayout.placeAll, Component.layout_alone hpasses hheuristic,
      Component.layout_pair hpasses hheuristic]
    decide +kernel
  rw [hl] at hfinite
  rintro _ ⟨⟩
  exact of_decide_eq_true hfinite

/-- **Left to right mirrors top to bottom.**  Take a graph without title and caption whose nodes all
have sizes that can be used and whose clusters and edges have no texts.  Drawn from left to right it
fails exactly as the turned graph does when drawn from top to bottom, and where nothing overflows
both drawings are the same with exchanged axes: the same ranks, orders, kinds of edges and faults,
and the boxes, lines and sheets exactly so. -/
theorem left_to_right_mirrors_top_to_bottom (s : Setting Float32) (m : Graph.Model Float32)
    (hbare : m.Bare) :
    (∀ failure, layout (s.directed .leftToRight) ⟨none, none, .graph m⟩ = .error failure ↔
      layout (s.directed .topToBottom) ⟨none, none, .graph m.turned⟩ = .error failure) ∧
    ∀ drawing, layout (s.directed .leftToRight) ⟨none, none, .graph m⟩ = .ok drawing →
      drawing.IsFinite →
      ∃ drawing', layout (s.directed .topToBottom) ⟨none, none, .graph m.turned⟩ = .ok drawing' ∧
        drawing.Mirrors drawing' := by
  cases hvalid : s.config.validate with
  | error e =>
      have hfails : ∀ d graph, layout (s.directed d) ⟨none, none, .graph graph⟩ =
          .error (.config e) := by
        intro d graph
        rw [layout, s.validate_directed d, hvalid]
      simp [hfails]
  | ok =>
      obtain ⟨l, hl⟩ := Layout.ofContainment_eq_ok (s.directed .leftToRight) m
        (Containment.sound_ofModel m)
      obtain ⟨l', hl'⟩ := Layout.ofContainment_eq_ok (s.directed .topToBottom) m.turned
        (Containment.sound_ofModel m.turned)
      have hdepth : (Containment.ofModel m.turned).depth = (Containment.ofModel m).depth := by
        rw [Containment.ofModel_turned]
        rfl
      have hlimits : (s.directed .topToBottom).config.limits =
          (s.directed .leftToRight).config.limits :=
        rfl
      rw [layout_graph_eq ((s.validate_directed .leftToRight).trans hvalid) none none hl,
        layout_graph_eq ((s.validate_directed .topToBottom).trans hvalid) none none hl', hdepth,
        m.elementCount_turned, hlimits]
      split_ifs with hsize hnesting
      · simp
      · simp
      · refine ⟨by simp, ?_⟩
        rintro drawing hdrawing hfinite
        obtain rfl := Except.ok.inj hdrawing
        exact ⟨_, rfl, mirrors_ofLayout hbare
          (Layout.mirrors_ofContainment hbare hvalid hl hl' (hfinite _ rfl))⟩

/-- An edge out of a cluster. -/
theorem edge_out_of_a_cluster_mirrored :
    let s : Setting Float32 := ⟨.standard, fun _ _ => ⟨10, 5⟩⟩
    let m : Graph.Model Float32 := .pair ⟨30, 10⟩ ⟨20, 40⟩
    m.Bare ∧ ∃ drawing drawing',
      layout (s.directed .leftToRight) ⟨none, none, .graph m⟩ = .ok drawing ∧ drawing.IsFinite ∧
      layout (s.directed .topToBottom) ⟨none, none, .graph m.turned⟩ = .ok drawing' ∧
      drawing.Mirrors drawing' := by
  intro s m
  have hbare : m.Bare := Graph.Model.bare_pair (by decide +kernel) (by decide +kernel)
  have hvalid : (s.directed .leftToRight).config.validate = .ok () := by decide +kernel
  obtain ⟨l, hl⟩ := Layout.ofContainment_eq_ok (s.directed .leftToRight) m
    (Containment.sound_ofModel m)
  have hlayout := layout_graph_eq hvalid none none hl
  rw [if_neg (by decide +kernel), if_neg (by decide +kernel)] at hlayout
  have hfinite := isFinite_pair l hl
  obtain ⟨drawing', hdrawing', hmirrors⟩ :=
    (left_to_right_mirrors_top_to_bottom s m hbare).2 _ hlayout hfinite
  exact ⟨hbare, _, drawing', hlayout, hfinite, hdrawing', hmirrors⟩

end Diagram

end Drafting
