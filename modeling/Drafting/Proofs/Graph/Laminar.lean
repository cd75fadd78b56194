import Mathlib
import Drafting.Proofs.Declared
import Drafting.Proofs.Graph.NestedBoxes
import Drafting.Proofs.Graph.Outcome

/-!
The boxes of a drawing.

* `Layout.boxOf?`, `Layout.LiesIn`: the box of an element of a drawing, and the cluster it lies in
  by name.
* `Measures.nonneg_nodes`: no node is smaller than nothing.
* `Layout.Shows`: a drawing shows the elements of a graph in their places, and
  `Layout.Shows.laminar` carries what is known of the places over to the drawing.
* `Diagram.graph_boxes_are_laminar`: two boxes of a drawing overlap only when one is the frame of a
  cluster around the other, and then it contains it.
-/

namespace Drafting.Graph

namespace Layout

variable {α : Type}

/-- The box of an element of a drawing. -/
def boxOf? (l : Layout α) : Member → Option (Bounds α)
  | .node n => l.nodes[n]?.map (·.bounds)
  | .cluster k => l.clusters[k]?.map (·.bounds)

/-- The name of the cluster that an element of a drawing lies in. -/
def containerName? (l : Layout α) : Member → Option Ident
  | .node n => l.nodes[n]?.bind (·.cluster)
  | .cluster k => l.clusters[k]?.bind (·.parent)

/-- An element of a drawing lies directly in a cluster. -/
def LiesIn (l : Layout α) (m n : Member) : Prop :=
  ∃ k frame, n = .cluster k ∧ l.clusters[k]? = some frame ∧ l.containerName? m = some frame.id

/-! ### Moving a drawing -/

section Translate

variable [Scalar α] (l : Layout α) (v : Point α)

lemma boxOf?_translate (m : Member) :
    (l.translate v).boxOf? m = (l.boxOf? m).map (·.translate v) := by
  cases m with
  | node n =>
      simp only [boxOf?, translate, List.getElem?_map, Option.map_map]
      rfl
  | cluster k =>
      simp only [boxOf?, translate, List.getElem?_map, Option.map_map]
      rfl

lemma containerName?_translate (m : Member) :
    (l.translate v).containerName? m = l.containerName? m := by
  cases m with
  | node n =>
      simp only [containerName?, translate, List.getElem?_map]
      cases l.nodes[n]? <;> rfl
  | cluster k =>
      simp only [containerName?, translate, List.getElem?_map]
      cases l.clusters[k]? <;> rfl

lemma liesIn_translate : (l.translate v).LiesIn = l.LiesIn := by
  funext m n
  simp only [LiesIn, containerName?_translate]
  refine propext ⟨?_, ?_⟩
  · rintro ⟨k, frame, rfl, hframe, hname⟩
    simp only [translate, List.getElem?_map, Option.map_eq_some_iff] at hframe
    obtain ⟨frame, hframe, rfl⟩ := hframe
    exact ⟨k, frame, rfl, hframe, hname⟩
  · rintro ⟨k, frame, rfl, hframe, hname⟩
    refine ⟨k, frame.translate v, rfl, ?_, hname⟩
    simp [translate, hframe]

end Translate

end Layout

/-! ### Sizes -/

namespace Measures

lemma nodeSize_nonneg {config : GraphConfig Rat} (hconfig : config.Sensible) (n : Node Rat)
    {label : MeasuredText Rat} (h : 0 ≤ label.size.width ∧ 0 ≤ label.size.height) :
    0 ≤ (nodeSize config n label).width ∧ 0 ≤ (nodeSize config n label).height := by
  have hpadding := hconfig.nodePadding
  have husual : 0 ≤ (label.size.pad (Insets.uniform config.nodePadding)).width ∧
      0 ≤ (label.size.pad (Insets.uniform config.nodePadding)).height := by
    simp only [Size.pad, Insets.uniform]
    exact ⟨by linarith [h.1], by linarith [h.2]⟩
  rw [nodeSize]
  split
  · split
    · next husable => exact ⟨husable.1.2, husable.2.2⟩
    · exact husual
  · exact husual

lemma orient_nonneg (d : Direction) {size : Size Rat} (h : 0 ≤ size.width ∧ 0 ≤ size.height) :
    0 ≤ (size.orient d).width ∧ 0 ≤ (size.orient d).height := by
  cases d with
  | topToBottom => exact h
  | leftToRight => exact ⟨h.2, h.1⟩

/-- No node is smaller than nothing. -/
lemma nonneg_nodes {s : Setting Rat} (hconfig : s.config.graph.Sensible)
    (htexts : s.MeasuresLengths) (c : Containment Rat) (m : Model Rat) :
    Component.NonnegSizes ((ofModel s c m).shapes s.config.graph c m).nodes := by
  intro size hsize
  simp only [shapes, List.mem_toArray, List.mem_map] at hsize
  obtain ⟨⟨n, label⟩, hmem, rfl⟩ := hsize
  have hlabel := (List.of_mem_zip hmem).2
  simp only [ofModel, List.mem_map] at hlabel
  obtain ⟨n', -, rfl⟩ := hlabel
  exact orient_nonneg _ (nodeSize_nonneg hconfig n (htexts.measured _ _ _))

end Measures

/-! ### What a drawing shows -/

namespace Layout

section Shows

variable {α : Type} [Scalar α]

/-- A drawing shows the elements of a graph in their places. -/
structure Shows (s : Setting α) (m : Model α) (c : Containment α) (p : Placed α) (l : Layout α) :
    Prop where
  nodes : l.nodes = nodesOf s.config.graph.direction c (Measures.ofModel s c m).nodes p
  clusters : l.clusters = clustersOf s.config.graph c (Measures.ofModel s c m).clusters p

/-- The drawing of a graph shows its elements where their scopes are moved. -/
lemma shows_of_ofContainment {s : Setting α} {m : Model α} {c : Containment α} {i : Interiors α}
    {l : Layout α}
    (hi : Interiors.ofScopes s.config.graph ((Measures.ofModel s c m).shapes s.config.graph c m)
      c.clusters.length c.orderedScopes = .ok i) (h : ofContainment s m c = .ok l) :
    Shows s m c (Placed.ofInteriors c c.orderedScopes i) l := by
  simp only [ofContainment, hi, bind, Except.bind] at h
  split at h
  · simp at h
  · obtain rfl := Except.ok.inj h
    exact ⟨rfl, rfl⟩

variable {s : Setting α} {m : Model α} {c : Containment α} {p : Placed α} {l : Layout α}

lemma Shows.getElem?_nodes (h : Shows s m c p l) {n : Nat} (hn : n < c.nodes.length) :
    ∃ g : NodeGeometry α, l.nodes[n]? = some g ∧
      g.bounds = (p.node n).bounds.orient s.config.graph.direction ∧
      g.cluster = ((c.nodeCluster.getD n none).bind (c.clusters[·]?)).map (·.id) := by
  rw [h.nodes, nodesOf, List.getElem?_mapIdx]
  simp only [Measures.ofModel]
  rw [List.getElem?_eq_getElem (by simpa using hn)]
  exact ⟨_, rfl, rfl, rfl⟩

lemma Shows.getElem?_clusters (h : Shows s m c p l) {k : Nat} {cluster : Cluster}
    (hk : c.clusters[k]? = some cluster) :
    ∃ g : ClusterGeometry α, l.clusters[k]? = some g ∧ g.id = cluster.id ∧
      g.bounds = (p.cluster k).orient s.config.graph.direction ∧
      g.parent = ((c.clusterParent.getD k none).bind (c.clusters[·]?)).map (·.id) ∧
      g.label =
        (cluster.label.map fun text => s.measured text s.config.styles.node none).map fun text =>
          text.placeAt (g.bounds.minPoint.add
            ⟨s.config.graph.clusterPadding, s.config.graph.clusterPadding⟩) := by
  obtain ⟨hlt, rfl⟩ := List.getElem?_eq_some_iff.mp hk
  rw [h.clusters, clustersOf, List.getElem?_mapIdx]
  simp only [Measures.ofModel]
  rw [List.getElem?_eq_getElem (by simpa using hlt), List.getElem_zip, List.getElem_map]
  exact ⟨_, rfl, rfl, rfl, rfl, rfl⟩

/-- The depth of a frame is the number of clusters around it, itself included. -/
lemma Shows.depth_eq (h : Shows s m c p l) {k : Nat} {g : ClusterGeometry α}
    (hg : l.clusters[k]? = some g) : g.depth = Clusters.depth c.clusterParent k := by
  rw [h.clusters, clustersOf, List.getElem?_mapIdx] at hg
  obtain ⟨_, -, rfl⟩ := Option.map_eq_some_iff.mp hg
  rfl

lemma Shows.length_nodes (h : Shows s m c p l) : l.nodes.length = c.nodes.length := by
  rw [h.nodes, nodesOf]
  simp [Measures.ofModel]

lemma Shows.length_clusters (h : Shows s m c p l) : l.clusters.length = c.clusters.length := by
  rw [h.clusters, clustersOf]
  simp [Measures.ofModel]

/-- The name of the cluster that an element lies in. -/
lemma Shows.containerName?_eq (h : Shows s m c p l) (hc : c.Sound) (x : Member) :
    l.containerName? x = ((c.containerOf x).bind (c.clusters[·]?)).map (·.id) := by
  cases x with
  | node n =>
      by_cases hn : n < c.nodes.length
      · obtain ⟨g, hg, -, hcluster⟩ := h.getElem?_nodes hn
        rw [containerName?, hg]
        exact hcluster
      · have hnone : l.nodes[n]? = none := List.getElem?_eq_none (by rw [h.length_nodes]; omega)
        have hcontainer : c.containerOf (.node n) = none := by
          rw [Containment.containerOf, Array.getD_eq_getD_getElem?, Array.getElem?_eq_none]
          · rfl
          · rw [hc.size_nodeCluster]
            omega
        rw [containerName?, hnone, hcontainer]
        rfl
  | cluster k =>
      by_cases hk : k < c.clusters.length
      · obtain ⟨g, hg, -, -, hparent, -⟩ := h.getElem?_clusters (List.getElem?_eq_getElem hk)
        rw [containerName?, hg]
        exact hparent
      · have hnone : l.clusters[k]? = none :=
          List.getElem?_eq_none (by rw [h.length_clusters]; omega)
        have hcontainer : c.containerOf (.cluster k) = none := by
          rw [Containment.containerOf, Array.getD_eq_getD_getElem?, Array.getElem?_eq_none]
          · rfl
          · rw [hc.size_clusterParent]
            omega
        rw [containerName?, hnone, hcontainer]
        rfl

/-- Elements lie in the clusters whose names the drawing gives, since no two clusters have the same
name. -/
lemma Shows.liesIn_iff (h : Shows s m c p l) (hc : c.Sound)
    (hnames : (c.clusters.map (·.id)).Nodup) (x y : Member) :
    l.LiesIn x y ↔ c.LiesIn x y := by
  have hname : ∀ {k : Nat} {g : ClusterGeometry α}, l.clusters[k]? = some g →
      (c.clusters.map (·.id))[k]? = some g.id := by
    intro k g hg
    have hk : k < c.clusters.length := h.length_clusters ▸ (List.getElem?_eq_some_iff.mp hg).1
    obtain ⟨g', hg', hid, -⟩ := h.getElem?_clusters (List.getElem?_eq_getElem hk)
    obtain rfl := Option.some.inj (hg.symm.trans hg')
    rw [List.getElem?_map, List.getElem?_eq_getElem hk, hid]
    rfl
  constructor
  · rintro ⟨k, g, rfl, hg, hx⟩
    rw [h.containerName?_eq hc] at hx
    obtain ⟨cluster, hcluster, hid⟩ := Option.map_eq_some_iff.mp hx
    obtain ⟨j, hj, hcluster⟩ := Option.bind_eq_some_iff.mp hcluster
    have hname' : (c.clusters.map (·.id))[j]? = some g.id := by
      rw [List.getElem?_map, hcluster, ← hid]
      rfl
    have hjk : j = k := by
      have hlt := (List.getElem?_eq_some_iff.mp hname').1
      exact (List.getElem?_inj hlt hnames).mp (hname'.trans (hname hg).symm)
    exact ⟨k, rfl, hjk ▸ hj⟩
  · rintro ⟨k, rfl, hx⟩
    have hk : k < c.clusters.length := hc.size_clusterParent ▸ hc.isContainer_containerOf x k hx
    obtain ⟨g, hg, hid, -⟩ := h.getElem?_clusters (List.getElem?_eq_getElem hk)
    refine ⟨k, g, rfl, hg, ?_⟩
    rw [h.containerName?_eq hc, hx, Option.bind_some, List.getElem?_eq_getElem hk, hid]
    rfl

/-- What lies in which cluster can be read off the drawing. -/
lemma Shows.liesIn_eq (h : Shows s m c p l) (hc : c.Sound)
    (hnames : (c.clusters.map (·.id)).Nodup) : l.LiesIn = c.LiesIn := by
  funext x y
  exact propext (h.liesIn_iff hc hnames x y)

end Shows

variable {s : Setting Rat} {m : Model Rat} {c : Containment Rat} {p : Placed Rat} {l : Layout Rat}

/-- The box of an element is that of its place, in the axes of the drawing. -/
lemma Shows.boxOf?_eq (h : Shows s m c p l) (hc : c.Sound) {x : Member} {b : Bounds Rat}
    (hx : l.boxOf? x = some b) :
    c.Declares x ∧ b = (p.box x).orient s.config.graph.direction := by
  cases x with
  | node n =>
      obtain ⟨g, hg, rfl⟩ := Option.map_eq_some_iff.mp hx
      have hn : n < c.nodes.length := h.length_nodes ▸ (List.getElem?_eq_some_iff.mp hg).1
      obtain ⟨g', hg', hbounds, -⟩ := h.getElem?_nodes hn
      obtain rfl := Option.some.inj (hg.symm.trans hg')
      exact ⟨lt_of_lt_of_eq hn hc.size_nodeCluster.symm, hbounds⟩
  | cluster k =>
      obtain ⟨g, hg, rfl⟩ := Option.map_eq_some_iff.mp hx
      have hk : k < c.clusters.length := h.length_clusters ▸ (List.getElem?_eq_some_iff.mp hg).1
      obtain ⟨g', hg', -, hbounds, -⟩ := h.getElem?_clusters (List.getElem?_eq_getElem hk)
      obtain rfl := Option.some.inj (hg.symm.trans hg')
      exact ⟨lt_of_lt_of_eq hk hc.size_clusterParent.symm, hbounds⟩

/-- The text of a cluster is its head, in the axes of the drawing. -/
lemma Shows.label_eq (h : Shows s m c p l) {k : Nat} {g : ClusterGeometry Rat}
    (hg : l.clusters[k]? = some g) {text : TextBox Rat} (htext : g.label = some text) :
    text.bounds =
      (Placed.headBox s.config.graph ((Measures.ofModel s c m).shapes s.config.graph c m) p
        k).orient s.config.graph.direction := by
  have hk : k < c.clusters.length := h.length_clusters ▸ (List.getElem?_eq_some_iff.mp hg).1
  obtain ⟨g', hg', -, hbounds, -, hlabel⟩ := h.getElem?_clusters (List.getElem?_eq_getElem hk)
  obtain rfl := Option.some.inj (hg.symm.trans hg')
  rw [hlabel, Option.map_map, Option.map_eq_some_iff] at htext
  obtain ⟨label, hcluster, rfl⟩ := htext
  have hhead : ((Measures.ofModel s c m).shapes s.config.graph c m).heads.getD k Size.zero =
      (s.measured label s.config.styles.node none).size := by
    simp only [Measures.shapes, Measures.ofModel, Array.getD_eq_getD_getElem?,
      List.getElem?_toArray, List.getElem?_map, List.getElem?_eq_getElem hk, hcluster,
      Option.map_some, Option.getD_some]
  rw [Placed.headBox, hhead]
  simp only [Function.comp_apply, MeasuredText.placeAt, hbounds]
  cases s.config.graph.direction with
  | topToBottom =>
      simp only [Bounds.orient, Frame.headBox, Size.orient, Bounds.ofCorner, Bounds.translate,
        Bounds.minPoint, Point.add, Bounds.mk.injEq]
      refine ⟨?_, ?_, ?_, ?_⟩ <;> ring
  | leftToRight =>
      simp only [Bounds.orient, Bounds.swap, Frame.headBox, Size.orient, Size.swap, Bounds.ofCorner,
        Bounds.translate, Bounds.minPoint, Point.add, Bounds.mk.injEq]
      refine ⟨?_, ?_, ?_, ?_⟩ <;> ring

/-- What is known of the boxes of a drawing. -/
structure Laminar (l : Layout Rat) : Prop where
  /-- The frame of a cluster contains everything that lies in the cluster. -/
  contains : ∀ x y a b, l.boxOf? x = some a → l.boxOf? y = some b → Relation.TransGen l.LiesIn y x →
    a.contains b = true
  /-- Two elements overlap only when one of them lies in the other. -/
  overlaps : ∀ x y a b, l.boxOf? x = some a → l.boxOf? y = some b → x ≠ y →
    a.overlaps b = false ∨ Relation.TransGen l.LiesIn x y ∨ Relation.TransGen l.LiesIn y x
  /-- The text of a cluster lies in its frame. -/
  label_inside : ∀ (k : Nat) (g : ClusterGeometry Rat) (text : TextBox Rat),
    l.clusters[k]? = some g → g.label = some text → g.bounds.contains text.bounds = true
  /-- The text of a cluster overlaps nothing that lies in the cluster. -/
  label_clear : ∀ (k : Nat) (g : ClusterGeometry Rat) (text : TextBox Rat),
    l.clusters[k]? = some g → g.label = some text → ∀ x b, l.boxOf? x = some b →
      Relation.TransGen l.LiesIn x (.cluster k) → text.bounds.overlaps b = false

/-- What is known of the boxes of a drawing does not change when the drawing is moved. -/
lemma Laminar.translate (h : l.Laminar) (v : Point Rat) : (l.translate v).Laminar := by
  have hbox : ∀ {x : Member} {b : Bounds Rat}, (l.translate v).boxOf? x = some b →
      ∃ b', l.boxOf? x = some b' ∧ b'.translate v = b := by
    intro x b hb
    rw [boxOf?_translate] at hb
    exact Option.map_eq_some_iff.mp hb
  have hcluster : ∀ {k : Nat} {g : ClusterGeometry Rat} {text : TextBox Rat},
      (l.translate v).clusters[k]? = some g → g.label = some text →
      ∃ g' text', l.clusters[k]? = some g' ∧ g'.label = some text' ∧
        g'.bounds.translate v = g.bounds ∧ text'.bounds.translate v = text.bounds := by
    intro k g text hg htext
    simp only [Layout.translate, List.getElem?_map, Option.map_eq_some_iff] at hg
    obtain ⟨g', hg', rfl⟩ := hg
    obtain ⟨text', htext', rfl⟩ := Option.map_eq_some_iff.mp htext
    exact ⟨g', text', hg', htext', rfl, rfl⟩
  refine ⟨?_, ?_, ?_, ?_⟩
  · intro x y a b hx hy hin
    obtain ⟨a', ha', rfl⟩ := hbox hx
    obtain ⟨b', hb', rfl⟩ := hbox hy
    rw [liesIn_translate] at hin
    rw [Bounds.contains_eq_true_iff, Bounds.encloses_translate, ← Bounds.contains_eq_true_iff]
    exact h.contains x y a' b' ha' hb' hin
  · intro x y a b hx hy hne
    obtain ⟨a', ha', rfl⟩ := hbox hx
    obtain ⟨b', hb', rfl⟩ := hbox hy
    rw [Bounds.overlaps_eq_false_iff, Bounds.apart_translate, ← Bounds.overlaps_eq_false_iff,
      liesIn_translate]
    exact h.overlaps x y a' b' ha' hb' hne
  · intro k g text hg htext
    obtain ⟨g', text', hg', htext', hbounds, hlabel⟩ := hcluster hg htext
    rw [← hbounds, ← hlabel, Bounds.contains_eq_true_iff, Bounds.encloses_translate,
      ← Bounds.contains_eq_true_iff]
    exact h.label_inside k g' text' hg' htext'
  · intro k g text hg htext x b hx hin
    obtain ⟨g', text', hg', htext', -, hlabel⟩ := hcluster hg htext
    obtain ⟨b', hb', rfl⟩ := hbox hx
    rw [liesIn_translate] at hin
    rw [← hlabel, Bounds.overlaps_eq_false_iff, Bounds.apart_translate,
      ← Bounds.overlaps_eq_false_iff]
    exact h.label_clear k g' text' hg' htext' x b' hb' hin

/-- The drawing of a graph whose elements are laid out and moved into their frames. -/
lemma Shows.laminar (h : Shows s m c p l) {i : Interiors Rat}
    (hnames : (c.clusters.map (·.id)).Nodup)
    (ha : Placed.Arranged s.config.graph
      ((Measures.ofModel s c m).shapes s.config.graph c m) c i p) : l.Laminar := by
  have hlies := h.liesIn_eq ha.sound hnames
  have hcluster : ∀ {k : Nat} {g : ClusterGeometry Rat}, l.clusters[k]? = some g →
      c.Declares (.cluster k) ∧ g.bounds = (p.cluster k).orient s.config.graph.direction := by
    intro k g hg
    have hbox : l.boxOf? (.cluster k) = some g.bounds := by rw [boxOf?, hg, Option.map_some]
    exact h.boxOf?_eq ha.sound hbox
  refine ⟨?_, ?_, ?_, ?_⟩
  · intro x y a b hx hy hin
    obtain ⟨-, rfl⟩ := h.boxOf?_eq ha.sound hx
    obtain ⟨hdeclared, rfl⟩ := h.boxOf?_eq ha.sound hy
    rw [hlies] at hin
    rw [Bounds.contains_eq_true_iff, Bounds.encloses_orient]
    exact ha.encloses_box hdeclared hin
  · intro x y a b hx hy hne
    obtain ⟨hdeclared, rfl⟩ := h.boxOf?_eq ha.sound hx
    obtain ⟨hdeclared', rfl⟩ := h.boxOf?_eq ha.sound hy
    rw [hlies, Bounds.overlaps_eq_false_iff, Bounds.apart_orient]
    by_cases hxy : Relation.TransGen c.LiesIn x y
    · exact Or.inr (Or.inl hxy)
    · by_cases hyx : Relation.TransGen c.LiesIn y x
      · exact Or.inr (Or.inr hyx)
      · exact Or.inl (ha.clear_box hdeclared hdeclared' ⟨hne, hxy, hyx⟩).apart
  · intro k g text hg htext
    obtain ⟨hdeclared, hbounds⟩ := hcluster hg
    rw [h.label_eq hg htext, hbounds, Bounds.contains_eq_true_iff, Bounds.encloses_orient]
    exact ha.encloses_head hdeclared
  · intro k g text hg htext x b hx hin
    obtain ⟨hdeclared, rfl⟩ := h.boxOf?_eq ha.sound hx
    rw [hlies] at hin
    rw [h.label_eq hg htext, Bounds.overlaps_eq_false_iff, Bounds.apart_orient]
    exact ha.apart_head hdeclared hin

end Layout

end Drafting.Graph

namespace Drafting.Diagram

open Drafting.Graph

/-- **Boxes are laminar.**  Two boxes of the drawing of a graph overlap only when one is the frame
of a cluster that the other element lies in, directly or not, and then the frame contains the other
box.  The text of a cluster lies in its frame and overlaps nothing that lies in the cluster. -/
theorem graph_boxes_are_laminar (s : Setting Rat) (hmeasure : s.MeasuresLengths)
    (title caption : Option String) (m : Graph.Model Rat) (drawing : Drawing Rat)
    (h : layout s ⟨title, caption, .graph m⟩ = .ok drawing) :
    ∃ l, drawing.graph? = some l ∧ l.Laminar := by
  obtain ⟨hvalid, l, hl, rfl⟩ := of_layout_graph h
  have hsensible := Config.sensible_graph hvalid
  have hsound := Containment.sound_ofModel m
  set c := Containment.ofModel m with hc
  set shapes := (Measures.ofModel s c m).shapes s.config.graph c m with hshapes
  obtain ⟨i, hi, hsettled⟩ := Interiors.ofScopes_eq_ok s.config.graph shapes hsound
  have harranged : Placed.Arranged s.config.graph shapes c i
      (Placed.ofInteriors c c.orderedScopes i) :=
    ⟨hsensible, Measures.nonneg_nodes hsensible hmeasure c m, hsound, hsettled,
      fun _ hx => Placed.housed_ofInteriors hsound i hx⟩
  have hnames : (c.clusters.map (·.id)).Nodup := Declared.nodup_firsts Cluster.id m.clusters
  have hlaminar := (Layout.shows_of_ofContainment hi hl).laminar hnames harranged
  exact ⟨_, rfl, hlaminar.translate _⟩

/-- A node in a cluster with a text, and a node outside. -/
theorem boxes_of_node_in_cluster :
    let s : Setting Rat := ⟨.standard, fun _ _ => ⟨10, 5⟩⟩
    let m : Graph.Model Rat :=
      { nodes := [{ id := "a", parent := some "p" }, { id := "b" }]
        edges := [{ source := "a", target := "b" }]
        clusters := [{ id := "p", label := some "head" }] }
    ∃ drawing l, layout s ⟨none, none, .graph m⟩ = .ok drawing ∧ drawing.graph? = some l ∧
      l.Laminar ∧
      l.boxOf? (.node 0) = some ⟨35, 55, 65, 80⟩ ∧
        l.boxOf? (.cluster 0) = some ⟨20, 20, 80, 95⟩ := by
  intro s m
  have hsize : (0 : Rat) ≤ 10 ∧ (0 : Rat) ≤ 5 := by decide
  have hmeasure : s.MeasuresLengths := fun _ _ => hsize
  obtain ⟨l₀, hl₀⟩ := Layout.ofContainment_eq_ok s m (Containment.sound_ofModel m)
  have hvalid : s.config.validate = .ok () := by cbv
  have hok := layout_graph_eq hvalid none none hl₀
  rw [if_neg (by cbv), if_neg (by cbv)] at hok
  obtain ⟨l, hl, hlaminar⟩ := graph_boxes_are_laminar s hmeasure none none m _ hok
  refine ⟨_, l, hok, hl, hlaminar, ?_, ?_⟩
  · have hbox : (((layout s ⟨none, none, .graph m⟩).toOption.bind (·.graph?)).bind fun l =>
        l.boxOf? (.node 0)) = some ⟨35, 55, 65, 80⟩ := by cbv
    rw [hok] at hbox
    simpa [hl, Except.toOption] using hbox
  · have hbox : (((layout s ⟨none, none, .graph m⟩).toOption.bind (·.graph?)).bind fun l =>
        l.boxOf? (.cluster 0)) = some ⟨20, 20, 80, 95⟩ := by cbv
    rw [hok] at hbox
    simpa [hl, Except.toOption] using hbox

end Drafting.Diagram
