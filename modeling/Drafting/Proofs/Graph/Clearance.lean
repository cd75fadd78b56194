import Mathlib
import Drafting.Proofs.Graph.Lifting

/-!
Edges between ranks keep clear of boxes.

An edge runs in the innermost scope around its ends.  There it avoids the members, and with them all
that lies in them.  It does not leave the room of its scope, so it avoids what is clear of the frame
around it as well.  What is left are the frames around the scope itself.

* `Placed.Arranged.avoids_box`: an edge of a scope avoids all elements but the clusters around the
  scope.
* `Layout.Contains`: a node lies in a cluster, as the drawing tells by names.
* `EdgeGeometry.KeepsClear`, `Layout.KeepsClear`: the edges of a drawing between ranks keep clear of
  all boxes but the frames around both of their ends.
* `Diagram.normal_edges_keep_clear`: so they do in every drawing of a graph.
-/

namespace Drafting.Graph

open Relation

/-- Walking outward from an element, one reaches a member of the whole diagram. -/
lemma Containment.Sound.exists_outermost {α : Type} {c : Containment α} (h : c.Sound) (m : Member) :
    ∃ n, ReflTransGen c.LiesIn m n ∧ c.containerOf n = none := by
  generalize hlevel : c.surrounding m = level
  induction level generalizing m with
  | zero =>
      cases hm : c.containerOf m with
      | none => exact ⟨m, .refl, hm⟩
      | some k =>
          have hsucc := h.surrounding_of_liesIn ⟨k, rfl, hm⟩
          omega
  | succ level ih =>
      cases hm : c.containerOf m with
      | none =>
          rw [Containment.surrounding, hm] at hlevel
          cases hlevel
      | some k =>
          have hlies : c.LiesIn m (.cluster k) := ⟨k, rfl, hm⟩
          have hsucc := h.surrounding_of_liesIn hlies
          obtain ⟨n, hn, hnone⟩ := ih (.cluster k) (by omega)
          exact ⟨n, hn.head hlies, hnone⟩

/-! ### Edges in their places -/

namespace Placed

section

variable {config : GraphConfig Rat} {shapes : Shapes Rat} {c : Containment Rat} {i : Interiors Rat}
    {p : Placed Rat} {x : Option Nat} {w : RoutedEdge Rat}

/-- An edge of a scope avoids what lies in the scope. -/
lemma Arranged.avoids_inside (h : Arranged config shapes c i p) (hw : w ∈ (i.scope x).edges)
    (hkind : w.kind = .normal) {m n : Member} (hm : c.Declares m) (hmn : ReflTransGen c.LiesIn m n)
    (hn : c.containerOf n = x) : (w.translate (p.origin i x)).Avoids (p.box m) := by
  subst hn
  have hinside : (p.box n).Encloses (p.box m) ∧ c.Declares n := by
    rcases reflTransGen_iff_eq_or_transGen.mp hmn with rfl | hmn
    · exact ⟨Bounds.Encloses.refl _, hm⟩
    · exact ⟨h.encloses_box hm hmn, h.declares_of_transGen hmn⟩
  obtain ⟨j, hj, hbox⟩ := h.box_eq hinside.2
  refine RoutedEdge.Avoids.mono ?_ hinside.1
  rw [hbox]
  exact ((h.fitted (h.sound.isContainer_containerOf n)).avoids w hw hkind j
    (List.getElem?_eq_some_iff.mp hj).1).translate _

/-- **An edge of a scope avoids all elements but the clusters around the scope.** -/
lemma Arranged.avoids_box (h : Arranged config shapes c i p) (hx : c.IsContainer x)
    (hw : w ∈ (i.scope x).edges) (hkind : w.kind = .normal) {m : Member} (hm : c.Declares m)
    (hout : ∀ k, x = some k → ¬ ReflTransGen c.LiesIn (.cluster k) m) :
    (w.translate (p.origin i x)).Avoids (p.box m) := by
  cases x with
  | none =>
      obtain ⟨n, hmn, hn⟩ := h.sound.exists_outermost m
      exact h.avoids_inside hw hkind hm hmn hn
  | some k =>
      have hk : c.Declares (.cluster k) := hx k rfl
      by_cases hinside : TransGen c.LiesIn m (.cluster k)
      · obtain ⟨n, hmn, j, hj, hn⟩ := TransGen.tail'_iff.mp hinside
        obtain rfl := Member.cluster.inj hj
        exact h.avoids_inside hw hkind hm hmn hn
      · have hunrelated : c.Unrelated (.cluster k) m :=
          ⟨fun heq => hout k rfl (heq ▸ .refl), fun hreach => hout k rfl hreach.to_reflTransGen,
            hinside⟩
        have hclear := h.clear_box hk hm hunrelated
        have hwithin := ((h.fitted hx).edges w hw).translate (p.origin i (some k))
        exact (hwithin.mono (h.encloses_scope hk)).avoids hclear

end

/-- An edge with both ends comes from the innermost scope around them. -/
lemma exists_scope_of_edge? {α : Type} [Scalar α] {config : GraphConfig α} {shapes : Shapes α}
    {c : Containment α} {i : Interiors α} (hc : c.Sound)
    (hsettled : ∀ x, c.IsContainer x → i.Settled config shapes c x) {n s t : Nat}
    (hn : c.ends[n]? = some ⟨some s, some t⟩) {way : RoutedEdge α}
    (hway : (ofInteriors c c.orderedScopes i).edge? n = some way) :
    c.IsContainer (c.common s t) ∧ ∃ w ∈ (i.scope (c.common s t)).edges,
      way = w.translate ((ofInteriors c c.orderedScopes i).origin i (c.common s t)) := by
  obtain ⟨x, hx, w, hw, hnumber, rfl⟩ := traced_ofInteriors hc i n way hway
  have hcontainer : c.IsContainer x := hc.mem_order.mp (List.mem_reverse.mp hx)
  obtain ⟨_, _, hscope⟩ := (hsettled x hcontainer).scope
  obtain ⟨_, _, _, _, _, _, _, e, he, hedge, -⟩ :=
    ScopeLayout.exists_follows (c.wellFormed_scopeOf x) (by simp [Interiors.sizes]) hscope hw
  obtain ⟨s', t', hends, rfl, -⟩ := Containment.of_mem_edges he
  rw [← hedge, hnumber, hn] at hends
  obtain ⟨rfl, rfl⟩ : s = s' ∧ t = t' := by simpa using hends
  exact ⟨hcontainer, w, hw, rfl⟩

/-- **An edge between ranks avoids all elements but the clusters around both of its ends.** -/
lemma Arranged.avoids_of_edge? {config : GraphConfig Rat} {shapes : Shapes Rat}
    {c : Containment Rat} {i : Interiors Rat}
    (h : Arranged config shapes c i (ofInteriors c c.orderedScopes i)) {n s t : Nat}
    (hn : c.ends[n]? = some ⟨some s, some t⟩) {way : RoutedEdge Rat}
    (hway : (ofInteriors c c.orderedScopes i).edge? n = some way) (hkind : way.kind = .normal)
    {m : Member} (hm : c.Declares m)
    (hout : ¬ (TransGen c.LiesIn (.node s) m ∧ TransGen c.LiesIn (.node t) m)) :
    way.Avoids ((ofInteriors c c.orderedScopes i).box m) := by
  obtain ⟨hcontainer, w, hw, rfl⟩ := exists_scope_of_edge? h.sound h.settled hn hway
  refine h.avoids_box hcontainer hw hkind hm fun k hk hreach => hout ?_
  -- a cluster around the scope of the edge is around both ends
  rcases c.common_cases s t with hnone | ⟨j, hj, hs, ht⟩
  · cases hk.symm.trans hnone
  · obtain rfl := Option.some.inj (hk.symm.trans hj)
    exact ⟨(h.sound.mem_chain.mp hs).trans_left hreach, (h.sound.mem_chain.mp ht).trans_left hreach⟩

end Placed

/-! ### Edges of a drawing -/

/-- No point of an edge but its ends lies in a box or on a side of it, and the text of the edge
does not overlap the box. -/
structure EdgeGeometry.KeepsClear (g : EdgeGeometry Rat) (b : Bounds Rat) : Prop where
  points : ∀ p ∈ g.points.tail.dropLast, b.containsPoint p = false
  label : ∀ text, g.label = some text → text.bounds.overlaps b = false

lemma EdgeGeometry.KeepsClear.translate {g : EdgeGeometry Rat} {b : Bounds Rat} (h : g.KeepsClear b)
    (v : Point Rat) : (g.translate v).KeepsClear (b.translate v) := by
  refine ⟨fun p hp => ?_, fun text htext => ?_⟩
  · simp only [EdgeGeometry.translate, ← List.map_tail, ← List.map_dropLast, List.mem_map] at hp
    obtain ⟨q, hq, rfl⟩ := hp
    rw [← Bounds.clear_around_zero_iff, Bounds.around_add, Bounds.clear_translate,
      Bounds.clear_around_zero_iff]
    exact h.points q hq
  · obtain ⟨own, hown, rfl⟩ := Option.map_eq_some_iff.mp htext
    have hown := h.label own hown
    rw [Bounds.overlaps_eq_false_iff] at hown ⊢
    exact (Bounds.apart_translate v).mpr hown

/-- An edge that is drawn by a way keeps clear of what the way avoids. -/
lemma RoutedEdge.Avoids.keepsClear {way : RoutedEdge Rat} {b : Bounds Rat} (h : way.Avoids b)
    (hkind : way.kind ≠ .selfLoop) (d : Direction) (index : Nat) (e : Edge)
    (label : Option (MeasuredText Rat)) (source target : Bounds Rat) :
    (Layout.edge d index e label ⟨way.kind, edgePoints way source target, way.reversed,
      way.label⟩).KeepsClear (b.orient d) := by
  obtain ⟨first, last, hpoints⟩ := Model.exists_edgePoints hkind source target
  refine ⟨fun p hp => ?_, fun text htext => ?_⟩
  · simp only [Layout.edge, hpoints, List.map_cons, List.tail_cons, List.map_append, List.map_nil,
      List.dropLast_concat, List.mem_map] at hp
    obtain ⟨q, hq, rfl⟩ := hp
    rw [← Bounds.clear_around_zero_iff, Bounds.around_zero_orient, Bounds.clear_orient]
    exact h.points q hq
  · simp only [Layout.edge] at htext
    split at htext
    · next box hbox =>
        obtain rfl := Option.some.inj htext
        rw [Bounds.overlaps_eq_false_iff, Bounds.apart_orient]
        exact h.label box hbox
    · cases htext

namespace Layout

/-- A node lies in a cluster, directly or not, as the drawing tells by names. -/
def Contains {α : Type} (l : Layout α) (x : Member) (id : Ident) : Prop :=
  ∃ n node, l.nodes[n]? = some node ∧ node.id = id ∧ TransGen l.LiesIn (.node n) x

/-- Edges between ranks keep clear of all boxes but the frames around both of their ends. -/
def KeepsClear (l : Layout Rat) : Prop :=
  ∀ (n : Nat) (g : EdgeGeometry Rat), l.edges[n]? = some g → g.kind = .normal →
    ∀ x b, l.boxOf? x = some b → ¬ (l.Contains x g.source ∧ l.Contains x g.target) → g.KeepsClear b

lemma Contains.translate {α : Type} [Scalar α] {l : Layout α} {x : Member} {id : Ident}
    (h : l.Contains x id) (v : Point α) : (l.translate v).Contains x id := by
  obtain ⟨n, node, hnode, hid, hlies⟩ := h
  refine ⟨n, node.translate v, by simp [Layout.translate, hnode], hid, ?_⟩
  rwa [liesIn_translate]

/-- Moving a drawing, its edges keep clear of the same boxes. -/
lemma KeepsClear.translate {l : Layout Rat} (h : l.KeepsClear) (v : Point Rat) :
    (l.translate v).KeepsClear := by
  intro n g hg hkind x b hb hout
  simp only [Layout.translate, List.getElem?_map, Option.map_eq_some_iff] at hg
  obtain ⟨g, hg, rfl⟩ := hg
  rw [boxOf?_translate] at hb
  obtain ⟨own, hown, rfl⟩ := Option.map_eq_some_iff.mp hb
  exact (h n g hg hkind x own hown fun hboth =>
    hout ⟨hboth.1.translate v, hboth.2.translate v⟩).translate v

/-- A node that lies in a cluster is drawn in it. -/
lemma Shows.contains {α : Type} [Scalar α] {s : Setting α} {m : Model α} {p : Placed α}
    {l : Layout α} (h : Shows s m (Containment.ofModel m) p l) {id : Ident} {n : Nat}
    (hid : Declared.indexOf? Node.id m.distinctNodes id = some n) {x : Member}
    (hlies : TransGen (Containment.ofModel m).LiesIn (.node n) x) : l.Contains x id := by
  rw [Declared.indexOf?, List.findIdx?_eq_some_iff_getElem] at hid
  obtain ⟨hn, hname, -⟩ := hid
  have hlength : n < l.nodes.length := h.length_nodes.symm ▸ hn
  refine ⟨n, l.nodes[n], List.getElem?_eq_getElem hlength, ?_, ?_⟩
  · have hids : (l.nodes.map (·.id))[n]? = (m.distinctNodes.map (·.id))[n]? := by
      rw [h.ids_nodes]
      rfl
    rw [List.getElem?_map, List.getElem?_map, List.getElem?_eq_getElem hlength,
      List.getElem?_eq_getElem hn] at hids
    exact (Option.some.inj hids).trans (beq_iff_eq.mp hname)
  · rwa [h.liesIn_eq (Containment.sound_ofModel m) (Declared.nodup_firsts Cluster.id m.clusters)]

end Layout

namespace Model

variable {s : Setting Rat} {m : Model Rat} {i : Interiors Rat} {l : Layout Rat}

/-- **An edge between ranks keeps clear of all boxes but the frames around both of its ends.** -/
lemma keepsClear (hi : m.interiors s = .ok i)
    (hl : Layout.ofContainment s m (Containment.ofModel m) = .ok l)
    (ha : Placed.Arranged s.config.graph (m.shapes s) (Containment.ofModel m) i (m.placed i)) :
    l.KeepsClear := by
  intro index g hg hkind x b hb hout
  have hshows := Layout.shows_of_ofContainment hi hl
  have hindex : index < m.edges.length :=
    length_edges hi hl ▸ (List.getElem?_eq_some_iff.mp hg).1
  have he := List.getElem?_eq_getElem hindex
  set e := m.edges[index]
  obtain ⟨line, hline, hedge⟩ := exists_line hi hl he
  obtain rfl := Option.some.inj (hg.symm.trans hedge)
  by_cases hboth : m.HasNode e.source ∧ m.HasNode e.target
  · obtain ⟨n, hsource⟩ := Option.isSome_iff_exists.mp (hasNode_iff.mp hboth.1)
    obtain ⟨k, htarget⟩ := Option.isSome_iff_exists.mp (hasNode_iff.mp hboth.2)
    have hends := Containment.getElem?_ends he
    rw [hsource, htarget] at hline hends
    obtain ⟨way, hway, rfl⟩ := Line.of_ofEnds hline
    have hkind : way.kind = .normal := hkind
    obtain ⟨hdeclared, rfl⟩ := hshows.boxOf?_eq ha.sound hb
    refine (ha.avoids_of_edge? hends hway hkind hdeclared fun hreach => hout ?_).keepsClear
      (by rw [hkind]; decide) _ _ _ _ _ _
    exact ⟨hshows.contains hsource hreach.1, hshows.contains htarget hreach.2⟩
  · rw [Line.ofEnds_of_missing (by rwa [← hasNode_iff, ← hasNode_iff])] at hline
    obtain rfl := Except.ok.inj hline
    cases hkind

end Model

end Drafting.Graph

namespace Drafting.Diagram

open Drafting.Graph

/-- **Edges between ranks keep clear of boxes.**  In the drawing of a graph no point of such an edge
but its ends lies in the box of a node or a cluster or on a side of it, and its text overlaps no
such box, except for the frames of clusters that contain both of its ends. -/
theorem normal_edges_keep_clear (s : Setting Rat) (hmeasure : s.MeasuresLengths)
    (title caption : Option String) (m : Graph.Model Rat) (drawing : Drawing Rat)
    (h : layout s ⟨title, caption, .graph m⟩ = .ok drawing) :
    ∃ l, drawing.graph? = some l ∧ l.KeepsClear := by
  obtain ⟨hvalid, l, hl, rfl⟩ := of_layout_graph h
  have hsensible := Config.sensible_graph hvalid
  have hsound := Containment.sound_ofModel m
  obtain ⟨i, hi, hsettled⟩ := Interiors.ofScopes_eq_ok s.config.graph (m.shapes s) hsound
  have harranged : Placed.Arranged s.config.graph (m.shapes s) (Containment.ofModel m) i
      (m.placed i) :=
    ⟨hsensible, Measures.nonneg_nodes hsensible hmeasure _ m, hsound, hsettled,
      fun _ hx => Placed.housed_ofInteriors hsound i hx⟩
  exact ⟨_, rfl, (Graph.Model.keepsClear hi hl harranged).translate _⟩

/-- In a cluster, an edge with a text leads past a node.  It keeps clear of the node, but its
routing point lies in the frame around it all. -/
theorem shortcut_keeps_clear :
    let s : Setting Rat := ⟨.standard, fun _ _ => ⟨10, 5⟩⟩
    let m : Graph.Model Rat :=
      { nodes := [{ id := "a", parent := some "p" }, { id := "b", parent := some "p" },
          { id := "c", parent := some "p" }]
        edges := [{ source := "a", target := "b" }, { source := "b", target := "c" },
          { source := "a", target := "c", label := some "skip" }]
        clusters := [{ id := "p" }] }
    ∃ drawing l g box frame, layout s ⟨none, none, .graph m⟩ = .ok drawing ∧
      drawing.graph? = some l ∧ l.edges[2]? = some g ∧ g.kind = .normal ∧
      g.points.tail.dropLast = [⟨100, 245 / 2⟩] ∧ g.label.isSome ∧
      l.boxOf? (.node 1) = some box ∧ g.KeepsClear box ∧
      l.boxOf? (.cluster 0) = some frame ∧ frame.containsPoint ⟨100, 245 / 2⟩ = true := by
  intro s m
  have hsize : (0 : Rat) ≤ 10 ∧ (0 : Rat) ≤ 5 := by decide
  have hmeasure : s.MeasuresLengths := fun _ _ => hsize
  have hread : ((layout s ⟨none, none, .graph m⟩).toOption.bind (·.graph?)).map
      (fun l => (l.edges[2]?.map fun g => (g.kind, g.points.tail.dropLast, g.label.isSome),
        l.boxOf? (.node 1), l.boxOf? (.cluster 0))) =
      some (some (.normal, [⟨100, 245 / 2⟩], true), some ⟨35, 110, 65, 135⟩,
        some ⟨20, 20, 130, 225⟩) := by cbv
  obtain ⟨drawing, l, hok, hl, hvalues⟩ := exists_drawing_of_read hread
  obtain ⟨hedge, hbox, hframe⟩ : _ ∧ l.boxOf? (.node 1) = _ ∧ l.boxOf? (.cluster 0) = _ := by
    simpa only [Prod.mk.injEq] using hvalues
  obtain ⟨g, hg, hgeometry⟩ := Option.map_eq_some_iff.mp hedge
  obtain ⟨hkind, hpoints, hlabel⟩ := by simpa only [Prod.mk.injEq] using hgeometry
  obtain ⟨l', hl', hclear⟩ := normal_edges_keep_clear s hmeasure none none m drawing hok
  obtain rfl : l = l' := Option.some.inj (hl.symm.trans hl')
  refine ⟨drawing, l, g, _, _, hok, hl, hg, hkind, hpoints, hlabel, hbox, ?_,
    hframe, by decide +kernel⟩
  -- nothing lies in a node
  refine hclear 2 g hg hkind _ _ hbox fun hboth => ?_
  obtain ⟨n, node, -, -, hlies⟩ := hboth.1
  obtain ⟨_, -, _, _, hcluster, -⟩ := Relation.TransGen.tail'_iff.mp hlies
  cases hcluster

end Drafting.Diagram
