import Mathlib
import Drafting.Draw.Drawing
import Drafting.Proofs.Draw.Layers
import Drafting.Proofs.Graph.Laminar
import Drafting.Proofs.Sequence.Outcome

/-!
The commands of a drawing.

* `Graph.Layout.Inside`, `Graph.Layout.DeepensInward`: frames lie in each other as their depths say.
* `Drawing.PaintsGraph`, `Drawing.paintsGraph`: the commands of a graph, each element once, from the
  outermost frame up to the texts.
* `Drawing.PaintsActivations`, `Drawing.paintsActivations`: the bars of a sequence diagram, each
  once, and those that lie on others after them.
* `Diagram.commands_show_everything_in_order`: so it is with every diagram that is laid out.
-/

namespace Drafting.Graph.Layout

variable {α : Type}

/-! ### Frames in frames -/

/-- A cluster of a drawing lies directly in another one. -/
def Inside (l : Layout α) (inner outer : ClusterGeometry α) : Prop :=
  inner ∈ l.clusters ∧ outer ∈ l.clusters ∧ inner.parent = some outer.id

/-- Each step inward is one step deeper. -/
def DeepensInward (l : Layout α) : Prop :=
  ∀ inner outer, l.Inside inner outer → inner.depth = outer.depth + 1

lemma DeepensInward.depth_lt {l : Layout α} (h : l.DeepensInward) {inner outer : ClusterGeometry α}
    (hnested : Relation.TransGen l.Inside inner outer) : outer.depth < inner.depth := by
  induction hnested with
  | single hin =>
      rw [h _ _ hin]
      exact Nat.lt_succ_self _
  | tail _ hin ih =>
      rw [h _ _ hin] at ih
      exact Nat.lt_of_succ_lt ih

variable [Scalar α]

lemma DeepensInward.translate {l : Layout α} (h : l.DeepensInward) (v : Point α) :
    (l.translate v).DeepensInward := by
  rintro inner outer ⟨hinner, houter, hparent⟩
  obtain ⟨inner', hinner', rfl⟩ := List.mem_map.mp hinner
  obtain ⟨outer', houter', rfl⟩ := List.mem_map.mp houter
  exact h inner' outer' ⟨hinner', houter', hparent⟩

/-- The depths of a drawing are those of the clusters that it shows. -/
lemma Shows.deepensInward {s : Setting α} {m : Model α} {c : Containment α} {p : Placed α}
    {l : Layout α} (h : Shows s m c p l) (hc : c.Sound)
    (hnames : (c.clusters.map (·.id)).Nodup) : l.DeepensInward := by
  rintro inner outer ⟨hinner, houter, hparent⟩
  obtain ⟨i, hi⟩ := List.mem_iff_getElem?.mp hinner
  obtain ⟨j, hj⟩ := List.mem_iff_getElem?.mp houter
  have hlies : l.LiesIn (.cluster i) (.cluster j) :=
    ⟨j, outer, rfl, hj, by rw [containerName?, hi, Option.bind_some, hparent]⟩
  obtain ⟨k, hk, hcontainer⟩ := (h.liesIn_iff hc hnames _ _).mp hlies
  obtain rfl := Member.cluster.inj hk
  rw [h.depth_eq hi, h.depth_eq hj]
  exact Clusters.depth_eq_succ hc.acyclic hc.parents hcontainer

end Drafting.Graph.Layout

namespace Drafting.Drawing

open Drafting.Draw

variable {α : Type} [Scalar α]

/-! ### Graphs -/

/-- A frame for each of some clusters, a box for each node, a line for each edge with two
points, and then the texts of clusters, nodes and edges, the title and the caption, but for
those that are empty. -/
def stacked (config : Config α) (d : Drawing α) (l : Graph.Layout α)
    (clusters : List (Graph.ClusterGeometry α)) : List (Command α) :=
  clusters.map (fun c => .rectangle c.bounds .cluster) ++
    l.nodes.map (fun n => .rectangle n.bounds .node) ++
    (l.edges.filter fun e => 2 ≤ e.points.length).map (fun e =>
      .polyline e.points .edge (edgeLine e.style).arrow (edgeLine e.style).dashed) ++
    (written .label config.styles.node (clusters.flatMap (·.label.toList)) ++
      written .label config.styles.node (l.nodes.map (·.label)) ++
      written .label config.styles.edge (l.edges.flatMap (·.label.toList)) ++
      written .title config.styles.title d.title.toList ++
      written .caption config.styles.title d.caption.toList)

/-- The commands of a drawing of a graph show its elements in order, each once, and the frame of a
cluster comes before the frames of all clusters that lie in it, directly or not. -/
def PaintsGraph (config : Config α) (d : Drawing α) (l : Graph.Layout α) : Prop :=
  ∃ clusters : List (Graph.ClusterGeometry α), clusters.Perm l.clusters ∧
    (∀ (i j : Nat) (outer inner : Graph.ClusterGeometry α), clusters[i]? = some outer →
      clusters[j]? = some inner → Relation.TransGen l.Inside inner outer → i < j) ∧
    d.commands config = d.stacked config l clusters

/-- What each layer holds of a graph. -/
lemma onLayer_graph (config : Config α) (l : Graph.Layout α) (layer : Layer) :
    let clusters := l.clusters.mergeSort fun a b => decide (a.depth ≤ b.depth)
    (Draw.graph config l).onLayer layer =
      match layer with
      | .background => clusters.map fun c => .rectangle c.bounds .cluster
      | .content => l.nodes.map fun n => .rectangle n.bounds .node
      | .arrow => (l.edges.filter fun e => 2 ≤ e.points.length).map fun e =>
          .polyline e.points .edge (edgeLine e.style).arrow (edgeLine e.style).dashed
      | .text =>
          written .label config.styles.node (clusters.flatMap (·.label.toList)) ++
            written .label config.styles.node (l.nodes.map (·.label)) ++
            written .label config.styles.edge (l.edges.flatMap (·.label.toList))
      | _ => [] := by
  cases layer <;>
    simp [Draw.graph, Draw.cluster, Draw.node, Draw.edge, List.map_eq_flatMap, flatMap_written,
      flatMap_ite_singleton, flatMap_nil_fun]

/-- The commands of a drawing of a graph, layer by layer. -/
lemma commands_graph (config : Config α) {d : Drawing α} {l : Graph.Layout α}
    (hl : d.picture = .graph l) :
    d.commands config =
      d.stacked config l (l.clusters.mergeSort fun a b => decide (a.depth ≤ b.depth)) := by
  rw [commands, Layered.commands_eq]
  simp [Layer.all, layered, pictureLayers, hl, onLayer_graph, stacked]

/-- Frames that are sorted by depth come before the frames of clusters in them. -/
lemma paintsGraph (config : Config α) {d : Drawing α} {l : Graph.Layout α}
    (hl : d.picture = .graph l) (hdepth : l.DeepensInward) : d.PaintsGraph config l := by
  refine ⟨_, List.mergeSort_perm _ _, ?_, commands_graph config hl⟩
  intro i j outer inner hi hj hnested
  exact lt_of_getElem?_of_lt (fun c : Graph.ClusterGeometry α => c.depth)
    (pairwise_mergeSort_key _ _) hi hj (hdepth.depth_lt hnested)

/-! ### Sequence diagrams -/

/-- The commands of a drawing of a sequence diagram show each activation once, as a bar, and a bar
on others of its participant comes after them. -/
def PaintsActivations (config : Config α) (d : Drawing α) (l : Sequence.Layout α) : Prop :=
  ∃ bars : List (Sequence.ActivationGeometry α), bars.Perm l.activations ∧
    ((d.commands config).filter fun c => c.role = .activation) =
      bars.map (fun a => .rectangle a.bounds .activation) ∧
    ∀ (i j : Nat) (lower upper : Sequence.ActivationGeometry α), bars[i]? = some lower →
      bars[j]? = some upper → lower.participant = upper.participant → lower.depth < upper.depth →
      i < j

omit [Scalar α] in
lemma picture_of_sequence? {d : Drawing α} {l : Sequence.Layout α} (h : d.sequence? = some l) :
    d.picture = .sequence l := by
  rw [sequence?] at h
  split at h
  next hl => rw [hl, Option.some.inj h]
  next => cases h

lemma depicting_lifeline (line : Sequence.LifelineSegment α) :
    (Draw.lifeline line).depicting .activation = [] := by
  rw [Draw.lifeline]
  split <;> simp

lemma depicting_event (styles : Styles) (e : Sequence.EventGeometry α) :
    (Draw.event styles e).depicting .activation = [] := by
  rw [Draw.event]
  split <;> simp [Draw.divider]

/-- Nothing but bars depicts activations. -/
lemma depicting_activation (config : Config α) {d : Drawing α} {l : Sequence.Layout α}
    (hl : d.picture = .sequence l) :
    (d.layered config).depicting .activation =
      (l.activations.mergeSort fun a b => decide (a.depth ≤ b.depth)).flatMap fun a =>
        box .activation .activation a.bounds := by
  simp [layered, pictureLayers, hl, Draw.sequence, Draw.participant, Draw.footer, Draw.block,
    Draw.blockPart, depicting_lifeline, depicting_event, flatMap_nil_fun]

lemma paintsActivations (config : Config α) {d : Drawing α} {l : Sequence.Layout α}
    (hl : d.picture = .sequence l) : d.PaintsActivations config l := by
  refine ⟨l.activations.mergeSort fun a b => decide (a.depth ≤ b.depth), List.mergeSort_perm _ _,
    ?_, ?_⟩
  · have hlayer : ∀ item ∈ (l.activations.mergeSort fun a b => decide (a.depth ≤ b.depth)).flatMap
        fun a => box .activation .activation a.bounds, item.1 = .activation := by
      intro item hitem
      obtain ⟨a, -, ha⟩ := List.mem_flatMap.mp hitem
      rw [List.mem_singleton.mp ha]
    rw [commands, Layered.filter_commands, depicting_activation config hl,
      Layered.commands_of_layer hlayer, List.map_flatMap, List.map_eq_flatMap]
    rfl
  · intro i j lower upper hi hj _ hlt
    exact lt_of_getElem?_of_lt (fun a : Sequence.ActivationGeometry α => a.depth)
      (pairwise_mergeSort_key _ _) hi hj hlt

end Drafting.Drawing

namespace Drafting.Diagram

open Drafting.Graph

variable {α : Type} [Scalar α]

/-- **The commands of a drawing show everything once and in order.**  Of a graph these are the
frames of all clusters, outer ones before inner ones, the boxes of all nodes, the lines of all
edges and last all texts.  Of a sequence diagram there is one bar for each activation, and
deeper ones come later. -/
theorem commands_show_everything_in_order (s : Setting α) (config : Config α) (d : Diagram α)
    (drawing : Drawing α) (h : layout s d = .ok drawing) :
    match d.body with
    | .graph _ => ∃ l, drawing.graph? = some l ∧ drawing.PaintsGraph config l
    | .sequence _ => ∃ l, drawing.sequence? = some l ∧ drawing.PaintsActivations config l := by
  obtain ⟨title, caption, body⟩ := d
  cases body with
  | graph m =>
      obtain ⟨-, l, hl, rfl⟩ := of_layout_graph h
      have hsound := Containment.sound_ofModel m
      obtain ⟨i, hi, -⟩ := Interiors.ofScopes_eq_ok s.config.graph
        ((Measures.ofModel s (Containment.ofModel m) m).shapes s.config.graph _ m) hsound
      have hnames : ((Containment.ofModel m).clusters.map (·.id)).Nodup :=
        Declared.nodup_firsts Cluster.id m.clusters
      have hshows := Layout.shows_of_ofContainment hi hl
      exact ⟨_, rfl, Drawing.paintsGraph config rfl
        ((hshows.deepensInward hsound hnames).translate _)⟩
  | sequence m =>
      obtain ⟨-, l, -, hl, -⟩ := of_layout_sequence h
      exact ⟨_, hl, Drawing.paintsActivations config (Drawing.picture_of_sequence? hl)⟩

/-- A cluster that is declared before the one around it, and activations of which one begins after
two others have been nested in the first. -/
theorem commands_of_nested_frames_and_bars :
    let s : Setting Rat := ⟨.standard, fun _ _ => ⟨10, 5⟩⟩
    let graph : Diagram Rat := ⟨some "t", none, .graph
      { nodes := [{ id := "a", parent := some "q" }, { id := "b" }]
        edges := [{ source := "a", target := "b" }]
        clusters := [{ id := "q", parent := some "p" }, { id := "p", label := some "head" }] }⟩
    let sequence : Diagram Rat := ⟨none, none, .sequence
      { participants := [{ id := "A" }]
        events := [.activate "A", .activate "A", .deactivate "A", .activate "A", .deactivate "A",
          .deactivate "A", .activate "A"] }⟩
    (∃ drawing l, layout s graph = .ok drawing ∧ drawing.graph? = some l ∧
      drawing.PaintsGraph s.config l ∧
      (drawing.commands s.config).map (·.role) =
        [.cluster, .cluster, .node, .node, .edge, .label, .label, .label, .title]) ∧
    ∃ drawing l, layout s sequence = .ok drawing ∧ drawing.sequence? = some l ∧
      drawing.PaintsActivations s.config l ∧ l.activations.map (·.depth) = [0, 1, 1, 0] := by
  intro s graph sequence
  constructor
  · have hroles : (layout s graph).toOption.map (fun d => (d.commands s.config).map (·.role)) =
        some [.cluster, .cluster, .node, .node, .edge, .label, .label, .label, .title] := by cbv
    cases hok : layout s graph with
    | error failure =>
        rw [hok] at hroles
        cases hroles
    | ok drawing =>
        rw [hok] at hroles
        obtain ⟨l, hl, hpaints⟩ := commands_show_everything_in_order s s.config graph drawing hok
        exact ⟨drawing, l, rfl, hl, hpaints, Option.some.inj hroles⟩
  · have hdepths : ((layout s sequence).toOption.bind (·.sequence?)).map
        (fun l => l.activations.map (·.depth)) = some [0, 1, 1, 0] := by cbv
    cases hok : layout s sequence with
    | error failure =>
        rw [hok] at hdepths
        cases hdepths
    | ok drawing =>
        rw [hok] at hdepths
        obtain ⟨l, hl, hpaints⟩ := commands_show_everything_in_order s s.config sequence drawing hok
        simp only [Except.toOption, Option.bind_some, hl, Option.map_some,
          Option.some.injEq] at hdepths
        exact ⟨drawing, l, rfl, hl, hpaints, hdepths⟩

end Drafting.Diagram
