import Mathlib
import Drafting.Proofs.Graph.Elements
import Drafting.Proofs.Graph.Rooms

/-!
Positions within ranks.

The members of a rank are counted from left to right, nodes and clusters alike, but each connected
part of a scope is counted by itself.

* `CountsOff`: things are counted from zero on, each once.
* `Component.mem_iff_linked`: the parts of a scope are its connected components.
* `Component.countsOff_orders`: orders count the members of a rank of a part.
* `Containment.Linked`: elements of a scope that edges connect there.
* `Interiors.placeIn`: the place of an element in its scope.
* `Diagram.orders_count_linked_members`: orders count the linked members of a rank, so rank and
  order tell apart nodes that are linked.
-/

namespace Drafting.Graph

/-! ### Counting off -/

/-- The numbers of the things with a property are zero, one and so on, each given once. -/
def CountsOff {β : Type} (number : β → Nat) (p : β → Prop) : Prop :=
  ∃ row : List β, (∀ x, x ∈ row ↔ p x) ∧ row.map number = List.range row.length

namespace CountsOff

variable {β γ : Type} {number : β → Nat} {p : β → Prop}

/-- No number is given twice. -/
lemma eq_of_number_eq (h : CountsOff number p) {x y : β} (hx : p x) (hy : p y)
    (hxy : number x = number y) : x = y := by
  obtain ⟨row, hrow, hnumbers⟩ := h
  have hnodup : (row.map number).Nodup := hnumbers ▸ List.nodup_range
  exact List.inj_on_of_nodup_map hnodup ((hrow x).mpr hx) ((hrow y).mpr hy) hxy

/-- Things that stand for each other are counted alike. -/
lemma map (h : CountsOff number p) {f : β → γ} {number' : γ → Nat} {q : γ → Prop}
    (hq : ∀ y, q y ↔ ∃ x, p x ∧ f x = y) (hnumber : ∀ x, p x → number' (f x) = number x) :
    CountsOff number' q := by
  obtain ⟨row, hrow, hnumbers⟩ := h
  refine ⟨row.map f, fun y => ?_, ?_⟩
  · simp only [List.mem_map, hrow, hq]
  · rw [List.map_map, List.length_map, ← hnumbers]
    exact List.map_congr_left fun x hx => hnumber x ((hrow x).mp hx)

end CountsOff

/-! ### Connected parts -/

/-- The order of a member of a part. -/
def ComponentLayout.order {α : Type} (l : ComponentLayout α) (i : Nat) : Nat :=
  (l.members[i]?.map (·.order)).getD 0

/-- Two members of a scope are connected by edges. -/
def Scope.Linked (s : Scope) : Nat → Nat → Prop :=
  Relation.EqvGen fun v w => ∃ e ∈ s.edges, e.source = v ∧ e.target = w

namespace Component

variable {s : Scope} {c : Component}

lemma linked_label_join {labels : Array Nat} (h : ∀ v, s.Linked (label labels v) v) {e : ScopeEdge}
    (he : e ∈ s.edges) (v : Nat) : s.Linked (label (join labels e.source e.target) v) v := by
  by_cases hv : v < labels.size
  · have hends : s.Linked (label labels e.source) (label labels e.target) :=
      (h e.source).trans _ _ _ ((Relation.EqvGen.rel _ _ ⟨e, he, rfl, rfl⟩).trans _ _ _
        ((h e.target).symm _ _))
    rw [label_join_of_lt hv, merged]
    split
    · next hmax =>
        refine Relation.EqvGen.trans _ (label labels v) _ ?_ (h v)
        rw [hmax]
        rcases le_total (label labels e.source) (label labels e.target) with hle | hle
        · rw [min_eq_left hle, max_eq_right hle]
          exact hends
        · rw [min_eq_right hle, max_eq_left hle]
          exact hends.symm _ _
    · exact h v
  · rw [label_of_size_le (by simpa [join] using hv)]
    exact Relation.EqvGen.refl v

/-- A member is connected with the first member of its part. -/
lemma linked_label (s : Scope) (v : Nat) : s.Linked (label (labelsOf s) v) v := by
  have hfold : ∀ (edges : List ScopeEdge) (labels : Array Nat), (∀ e ∈ edges, e ∈ s.edges) →
      (∀ v, s.Linked (label labels v) v) → ∀ v, s.Linked
        (label (edges.foldl (fun labels e => join labels e.source e.target) labels) v) v := by
    intro edges
    induction edges with
    | nil => exact fun _ _ h => h
    | cons e edges ih =>
        intro labels hedges h
        rw [List.forall_mem_cons] at hedges
        exact ih _ hedges.2 (linked_label_join h hedges.1)
  refine hfold s.edges _ (fun _ he => he) (fun v => ?_) v
  rw [label_range]
  exact Relation.EqvGen.refl v

/-- Connected members have the same label. -/
lemma label_eq_of_linked (hs : s.WellFormed) {v w : Nat} (h : s.Linked v w) :
    label (labelsOf s) v = label (labelsOf s) w := by
  induction h with
  | rel v w h =>
      obtain ⟨e, he, rfl, rfl⟩ := h
      exact label_source_eq_target hs he
  | refl v => rfl
  | symm v w _ ih => exact ih.symm
  | trans u v w _ _ ih ih' => exact ih.trans ih'

/-- **The parts of a scope are its connected components.** -/
lemma mem_iff_linked (hs : s.WellFormed) (hc : c ∈ ofScope s) {v w : Nat} (hv : v ∈ c.members) :
    w ∈ c.members ↔ w < s.members.length ∧ s.Linked v w := by
  obtain ⟨root, -, -, hmembers, -⟩ := exists_root hc
  simp only [hmembers, List.mem_filter, List.mem_range, beq_iff_eq] at hv ⊢
  refine and_congr_right fun _ => ⟨fun hw => ?_, fun hw => ?_⟩
  · have hvroot := linked_label s v
    have hwroot := linked_label s w
    rw [hv.2] at hvroot
    rw [hw] at hwroot
    exact (hvroot.symm _ _).trans _ _ _ hwroot
  · rw [← label_eq_of_linked hs hw, hv.2]

section Orders

variable {α : Type} [Scalar α] {config : GraphConfig α} {sizes : Array (Size α)}
    {shapes : Array (EdgeShape α)} {named after : Nat} {l : ComponentLayout α}

lemma order_arrange (ranking : Ranking) (g : Layering α) {j : Nat} (hj : j < c.members.length) :
    (c.arrange config sizes shapes ranking g).order j =
      (c.orders (Layers.minimize g config.orderingPasses config.orderingHeuristic)).getD j 0 := by
  simp [ComponentLayout.order, arrange, place, hj]

omit [Scalar α] in
/-- In each layer the members are counted, and routing points are left out. -/
lemma map_getD_orders {g : Layering α} {layers : Layers} (h : Layers.ByRank g layers)
    {layer : List Nat} (hlayer : layer ∈ layers) :
    (layer.filter (· < c.members.length)).map ((c.orders layers).getD · 0) =
      List.range (layer.filter (· < c.members.length)).length := by
  have hfold : c.orders layers = (layers.map (List.filter (· < c.members.length))).foldl
      (fun ps layer => Layers.enterPositions ps 0 layer)
      (Array.replicate c.members.length 0) := by
    rw [List.foldl_map]
    rfl
  rw [hfold]
  refine Layers.map_getD_foldl_enterPositions ?_ ?_ ?_ (List.mem_map_of_mem hlayer)
  · refine List.pairwise_map.mpr (h.pairwise_disjoint.imp fun hdisjoint v hv hv' => ?_)
    exact hdisjoint (List.mem_of_mem_filter hv) (List.mem_of_mem_filter hv')
  · intro row hrow
    obtain ⟨layer, hlayer, rfl⟩ := List.mem_map.mp hrow
    exact (h.nodup layer hlayer).filter _
  · intro row hrow v hv
    obtain ⟨layer, -, rfl⟩ := List.mem_map.mp hrow
    simpa using (List.mem_filter.mp hv).2

/-- **Orders count the members of a rank of a part.** -/
lemma countsOff_orders (hs : s.WellFormed) (hc : c ∈ ofScope s)
    (h : c.layout config sizes shapes named = .ok (l, after)) (rank : Nat) :
    CountsOff l.order fun j => j < c.members.length ∧ l.rank j = rank := by
  obtain ⟨ranks, hok, -⟩ := layout_eq_ok config sizes shapes hs hc named
  obtain ⟨rfl, -⟩ := Prod.mk.inj (Except.ok.inj (h.symm.trans hok))
  set ranking : Ranking :=
    ⟨(c.digraph shapes).backArcs, (c.digraph shapes).orient (c.digraph shapes).backArcs, ranks⟩
  set g := c.layering config sizes shapes named ranking with hg
  have hfits := Layers.fits_minimize g config.orderingPasses config.orderingHeuristic
  set layers := Layers.minimize g config.orderingPasses config.orderingHeuristic
  have hrank : ∀ j < c.members.length,
      (c.arrange config sizes shapes ranking g).rank j = Layers.rankOf g j := fun j hj =>
    (rank_arrange ranking g hj).trans (rankOf_layering ranking hj).symm
  have hsize : c.members.length ≤ g.nodes.size := by
    simp [hg, layering, Layering.ofEdges, memberShapes]
  by_cases hlt : rank < layers.length
  · have hlayer := List.getElem?_eq_getElem hlt
    refine ⟨layers[rank].filter (· < c.members.length), fun j => ?_, ?_⟩
    · rw [List.mem_filter, hfits.mem rank _ hlayer, decide_eq_true_eq]
      constructor
      · rintro ⟨⟨-, hj⟩, hmember⟩
        exact ⟨hmember, (hrank j hmember).trans hj⟩
      · rintro ⟨hmember, hj⟩
        exact ⟨⟨hmember.trans_le hsize, (hrank j hmember).symm.trans hj⟩, hmember⟩
    · rw [← map_getD_orders hfits.toByRank (List.mem_of_getElem? hlayer)]
      refine List.map_congr_left fun j hj => order_arrange ranking g ?_
      simpa using (List.mem_filter.mp hj).2
  · -- no member lies below the last rank
    refine ⟨[], fun j => ?_, rfl⟩
    simp only [List.not_mem_nil, false_iff, not_and]
    intro hj hjrank
    have hbelow : Layers.rankOf g j < g.rankCount := Layering.rank_lt_rankCount (hj.trans_le hsize)
    rw [← hfits.length, ← hrank j hj, hjrank] at hbelow
    exact hlt hbelow

end Orders

end Component

/-! ### Linked elements -/

namespace Containment

variable {α : Type} {c : Containment α}

/-- An edge joins two elements: in the innermost scope around its ends they contain them. -/
def Joins (c : Containment α) (x y : Member) : Prop :=
  ∃ s t, ⟨some s, some t⟩ ∈ c.ends ∧ c.representative (c.common s t) s = x ∧
    c.representative (c.common s t) t = y

/-- Two elements of a scope are connected by the edges that run in it. -/
def Linked (c : Containment α) : Member → Member → Prop := Relation.EqvGen c.Joins

/-- The position of an element in its scope. -/
def positionOf (c : Containment α) (x : Member) : Nat :=
  (c.scopeOf (c.containerOf x)).members.idxOf x

lemma getElem?_positionOf {x : Member} (hx : c.Declares x) :
    (c.scopeOf (c.containerOf x)).members[c.positionOf x]? = some x :=
  List.getElem?_idxOf (mem_members.mpr ⟨hx, rfl⟩)

lemma positionOf_eq {container : Option Nat} {v : Nat} {x : Member}
    (h : (c.scopeOf container).members[v]? = some x) :
    c.containerOf x = container ∧ c.positionOf x = v := by
  obtain rfl := (mem_members.mp (List.mem_of_getElem? h)).2
  exact ⟨rfl, idxOf_of_getElem? (c.nodup_members _) h⟩

/-- An edge runs between members of one scope. -/
lemma Sound.exists_edge_of_joins (h : c.Sound) {x y : Member} (hxy : c.Joins x y) :
    c.containerOf x = c.containerOf y ∧ ∃ e ∈ (c.scopeOf (c.containerOf x)).edges,
      e.source = c.positionOf x ∧ e.target = c.positionOf y := by
  obtain ⟨s, t, hends, rfl, rfl⟩ := hxy
  obtain ⟨i, hi⟩ := List.mem_iff_getElem?.mp hends
  obtain ⟨e, he, rfl⟩ := h.exists_scopeEdge hi
  obtain ⟨s', t', hends', -, hsource, htarget⟩ := of_mem_edges he
  obtain ⟨rfl, rfl⟩ : s = s' ∧ t = t' := by simpa using hi.symm.trans hends'
  obtain ⟨hcontainer, hs⟩ := positionOf_eq hsource
  obtain ⟨hcontainer', ht⟩ := positionOf_eq htarget
  exact ⟨hcontainer.trans hcontainer'.symm, e, hcontainer.symm ▸ he, hs.symm, ht.symm⟩

/-- Linked elements are members of one scope and are connected in it. -/
lemma Sound.linked_positionOf (h : c.Sound) {x y : Member} (hxy : c.Linked x y) :
    c.containerOf x = c.containerOf y ∧
      (c.scopeOf (c.containerOf x)).Linked (c.positionOf x) (c.positionOf y) := by
  induction hxy with
  | rel x y hxy =>
      obtain ⟨hcontainer, hedge⟩ := h.exists_edge_of_joins hxy
      exact ⟨hcontainer, .rel _ _ hedge⟩
  | refl x => exact ⟨rfl, .refl _⟩
  | symm x y _ ih => exact ⟨ih.1.symm, ih.1 ▸ ih.2.symm⟩
  | trans x y z _ _ ih ih' => exact ⟨ih.1.trans ih'.1, ih.2.trans _ _ _ (ih.1 ▸ ih'.2)⟩

/-- Members that are connected in their scope are linked. -/
lemma linked_of_scope {container : Option Nat} {v w : Nat} (h : (c.scopeOf container).Linked v w)
    {x y : Member} (hx : (c.scopeOf container).members[v]? = some x)
    (hy : (c.scopeOf container).members[w]? = some y) : c.Linked x y := by
  have hmap : ∀ v w, (c.scopeOf container).Linked v w →
      c.Linked ((c.scopeOf container).members.getD v (.node 0))
        ((c.scopeOf container).members.getD w (.node 0)) := by
    intro v w h
    induction h with
    | rel v w h =>
        obtain ⟨e, he, rfl, rfl⟩ := h
        obtain ⟨s, t, hends, rfl, hsource, htarget⟩ := of_mem_edges he
        refine .rel _ _ ⟨s, t, List.mem_of_getElem? hends, ?_, ?_⟩
        · rw [List.getD_eq_getElem?_getD, hsource, Option.getD_some]
        · rw [List.getD_eq_getElem?_getD, htarget, Option.getD_some]
    | refl v => exact .refl _
    | symm v w _ ih => exact ih.symm _ _
    | trans u v w _ _ ih ih' => exact ih.trans _ _ _ ih'
  simpa [List.getD_eq_getElem?_getD, hx, hy] using hmap v w h

end Containment

/-! ### Places in scopes -/

/-- The place of an element in its scope. -/
def Interiors.placeIn {α : Type} [Scalar α] (i : Interiors α) (c : Containment α) (x : Member) :
    PlacedMember α :=
  (i.scope (c.containerOf x)).member (c.positionOf x)

namespace ScopeLayout

variable {α : Type} [Scalar α] {config : GraphConfig α} {sizes : Array (Size α)}
    {shapes : Array (EdgeShape α)} {s : Scope} {named after : Nat} {l : ScopeLayout α}

/-- Orders count the connected members of a rank of a scope. -/
lemma countsOff_orders (hs : s.WellFormed) (hsize : sizes.size = s.members.length)
    (h : ofScope config s sizes shapes named = .ok (l, after)) {v : Nat}
    (hv : v < s.members.length) (rank : Nat) :
    CountsOff (fun w => (l.member w).order) fun w =>
      w < s.members.length ∧ s.Linked v w ∧ (l.member w).rank = rank := by
  obtain ⟨c, hc, hvc, before, _, k, offset, hlayout, hmoved⟩ :=
    exists_part_of_member hs hsize h hv
  -- the members of the part keep their ranks and orders when the part is moved
  have hplace : ∀ j (hj : j < c.members.length), (l.member c.members[j]).rank = k.rank j ∧
      (l.member c.members[j]).order = k.order j := by
    intro j hj
    obtain ⟨m, hm, hmember⟩ := hmoved j _ (List.getElem?_eq_getElem hj)
    rw [hmember, ComponentLayout.rank, ComponentLayout.order, hm]
    exact ⟨rfl, rfl⟩
  refine (Component.countsOff_orders hs hc hlayout rank).map
    (f := fun j => c.members.getD j 0) (fun w => ?_) fun j hj => ?_
  · rw [← and_assoc, ← Component.mem_iff_linked hs hc hvc]
    constructor
    · rintro ⟨hw, hrank⟩
      obtain ⟨j, hj, rfl⟩ := List.getElem_of_mem hw
      exact ⟨j, ⟨hj, (hplace j hj).1.symm.trans hrank⟩, List.getD_eq_getElem _ _ hj⟩
    · rintro ⟨j, ⟨hj, hrank⟩, rfl⟩
      rw [List.getD_eq_getElem _ _ hj]
      exact ⟨List.getElem_mem hj, (hplace j hj).1.trans hrank⟩
  · rw [List.getD_eq_getElem _ _ hj.1]
    exact (hplace j hj.1).2

end ScopeLayout

/-- **Orders count the linked members of a rank**, nodes and clusters alike. -/
lemma Interiors.Settled.countsOff_orders {α : Type} [Scalar α] {config : GraphConfig α}
    {shapes : Shapes α} {c : Containment α} {i : Interiors α} (hc : c.Sound) {x : Member}
    (hx : c.Declares x) (h : i.Settled config shapes c (c.containerOf x)) (rank : Nat) :
    CountsOff (fun y => (i.placeIn c y).order) fun y =>
      c.Declares y ∧ c.Linked x y ∧ (i.placeIn c y).rank = rank := by
  obtain ⟨_, _, hscope⟩ := h.scope
  have hxpos := Containment.getElem?_positionOf hx
  have hlt := (List.getElem?_eq_some_iff.mp hxpos).1
  have hplace : ∀ {v y}, (c.scopeOf (c.containerOf x)).members[v]? = some y →
      i.placeIn c y = (i.scope (c.containerOf x)).member v := by
    intro v y hy
    obtain ⟨hcontainer, hposition⟩ := Containment.positionOf_eq hy
    rw [Interiors.placeIn, hcontainer, hposition]
  refine (ScopeLayout.countsOff_orders (c.wellFormed_scopeOf _) (by simp [Interiors.sizes]) hscope
    hlt rank).map (f := fun v => (c.scopeOf (c.containerOf x)).members.getD v x)
    (fun y => ⟨?_, ?_⟩) fun v hv => ?_
  · rintro ⟨hy, hlinked, hrank⟩
    obtain ⟨hcontainer, hconnected⟩ := hc.linked_positionOf hlinked
    have hypos := Containment.getElem?_positionOf hy
    rw [← hcontainer] at hypos
    refine ⟨c.positionOf y, ⟨(List.getElem?_eq_some_iff.mp hypos).1, hconnected, ?_⟩, ?_⟩
    · rw [← hplace hypos, hrank]
    · rw [List.getD_eq_getElem?_getD, hypos, Option.getD_some]
  · rintro ⟨v, ⟨hv, hconnected, hrank⟩, rfl⟩
    have hy := List.getElem?_eq_getElem hv
    rw [List.getD_eq_getElem _ _ hv]
    refine ⟨(Containment.mem_members.mp (List.getElem_mem hv)).1,
      Containment.linked_of_scope hconnected hxpos hy, ?_⟩
    rw [hplace hy, hrank]
  · rw [List.getD_eq_getElem _ _ hv.1, hplace (List.getElem?_eq_getElem hv.1)]

/-- A node is drawn with the rank and the order of its place. -/
lemma Layout.Shows.place_of_getElem? {α : Type} [Scalar α] {s : Setting α} {m : Model α}
    {c : Containment α} {p : Placed α} {l : Layout α} (h : Shows s m c p l) {n : Nat}
    {g : NodeGeometry α} (hg : l.nodes[n]? = some g) :
    g.rank = (p.node n).rank ∧ g.order = (p.node n).order := by
  rw [h.nodes, nodesOf, List.getElem?_mapIdx] at hg
  obtain ⟨_, -, rfl⟩ := Option.map_eq_some_iff.mp hg
  exact ⟨rfl, rfl⟩

/-- What a node of a drawing has of its place in its scope. -/
structure Interiors.Shown {α : Type} [Scalar α] (i : Interiors α) (c : Containment α) (n : Nat)
    (g : NodeGeometry α) : Prop where
  declared : c.Declares (.node n)
  rank : g.rank = (i.placeIn c (.node n)).rank
  order : g.order = (i.placeIn c (.node n)).order
  cluster : g.cluster = ((c.containerOf (.node n)).bind (c.clusters[·]?)).map (·.id)

/-- A node is drawn with the rank and the order that it has in its scope. -/
lemma Model.shown_of_getElem? {α : Type} [Scalar α] {s : Setting α} {m : Model α} {i : Interiors α}
    {l : Layout α} (hi : m.interiors s = .ok i)
    (hl : Layout.ofContainment s m (Containment.ofModel m) = .ok l) (offset : Point α) {n : Nat}
    {g : NodeGeometry α} (hg : (l.translate offset).nodes[n]? = some g) :
    i.Shown (Containment.ofModel m) n g := by
  have hsound := Containment.sound_ofModel m
  have hsettled := Interiors.settled_of_ok hsound hi
  have hshows := Layout.shows_of_ofContainment hi hl
  rw [Layout.translate, List.getElem?_map, Option.map_eq_some_iff] at hg
  obtain ⟨g, hg, rfl⟩ := hg
  have hn : n < (Containment.ofModel m).nodes.length :=
    hshows.length_nodes ▸ (List.getElem?_eq_some_iff.mp hg).1
  have hdeclared : (Containment.ofModel m).Declares (.node n) := by
    rw [Containment.Declares, hsound.size_nodeCluster]
    exact hn
  -- the scope of the node is moved, which changes neither ranks nor orders
  have hcontainer := hsound.isContainer_containerOf (.node n)
  have hplace := (Placed.housed_ofInteriors hsound i hcontainer).members _ _
    (Placed.mem_interior (hsettled _ hcontainer) (Containment.getElem?_positionOf hdeclared))
  obtain ⟨g', hg', -, hcluster⟩ := hshows.getElem?_nodes hn
  obtain rfl := Option.some.inj (hg.symm.trans hg')
  obtain ⟨hrank, horder⟩ := hshows.place_of_getElem? hg
  rw [Placed.Holds] at hplace
  exact ⟨hdeclared, hrank.trans (by rw [hplace]; rfl), horder.trans (by rw [hplace]; rfl), hcluster⟩

end Drafting.Graph

namespace Drafting.Diagram

open Drafting.Graph

/-- **Rank and order tell apart nodes that are linked.**  In the drawing of a graph the nodes have
the ranks and orders that they have in their scopes.  There the linked members of a rank, nodes and
clusters alike, are counted from zero on.  So two nodes that are linked, which are always in the
same cluster, have different orders if they have the same rank. -/
theorem orders_count_linked_members {α : Type} [Scalar α] {s : Setting α}
    {title caption : Option String} {m : Graph.Model α} {drawing : Drawing α}
    (h : layout s ⟨title, caption, .graph m⟩ = .ok drawing) :
    let c := Containment.ofModel m
    ∃ i l, m.interiors s = .ok i ∧ drawing.graph? = some l ∧
      (∀ (n : Nat) (g : NodeGeometry α), l.nodes[n]? = some g →
        g.rank = (i.placeIn c (.node n)).rank ∧ g.order = (i.placeIn c (.node n)).order) ∧
      (∀ x, c.Declares x → ∀ rank, CountsOff (fun y => (i.placeIn c y).order) fun y =>
        c.Declares y ∧ c.Linked x y ∧ (i.placeIn c y).rank = rank) ∧
      ∀ (n k : Nat) (a b : NodeGeometry α), l.nodes[n]? = some a → l.nodes[k]? = some b → n ≠ k →
        c.Linked (.node n) (.node k) →
        a.cluster = b.cluster ∧ (a.rank = b.rank → a.order ≠ b.order) := by
  intro c
  obtain ⟨-, l, hl, rfl⟩ := of_layout_graph h
  have hsound : c.Sound := Containment.sound_ofModel m
  obtain ⟨i, hi, hsettled⟩ := Interiors.ofScopes_eq_ok s.config.graph (m.shapes s) hsound
  have hcounts : ∀ x, c.Declares x → ∀ rank, CountsOff (fun y => (i.placeIn c y).order) fun y =>
      c.Declares y ∧ c.Linked x y ∧ (i.placeIn c y).rank = rank :=
    fun x hx => (hsettled _ (hsound.isContainer_containerOf x)).countsOff_orders hsound hx
  refine ⟨i, _, hi, rfl, fun n g hg => ?_, hcounts, fun n k a b ha hb hne hlinked => ?_⟩
  · have hshown := Graph.Model.shown_of_getElem? hi hl _ hg
    exact ⟨hshown.rank, hshown.order⟩
  · have hn := Graph.Model.shown_of_getElem? hi hl _ ha
    have hk := Graph.Model.shown_of_getElem? hi hl _ hb
    refine ⟨?_, fun hrank horder => hne ?_⟩
    · rw [hn.cluster, hk.cluster, (hsound.linked_positionOf hlinked).1]
    · rw [hn.rank, hk.rank] at hrank
      rw [hn.order, hk.order] at horder
      exact Member.node.inj ((hcounts _ hn.declared _).eq_of_number_eq
        ⟨hn.declared, .refl _, hrank⟩ ⟨hk.declared, hlinked, rfl⟩ horder)

/-- Two nodes that edges lead to from a third one have the same rank, but different orders. -/
theorem orders_of_a_fork :
    let s : Setting Rat := ⟨.standard, fun _ _ => ⟨10, 5⟩⟩
    let m : Graph.Model Rat :=
      { nodes := [{ id := "a" }, { id := "b" }, { id := "c" }]
        edges := [{ source := "a", target := "b" }, { source := "a", target := "c" }] }
    ∃ drawing l g g', layout s ⟨none, none, .graph m⟩ = .ok drawing ∧ drawing.graph? = some l ∧
      l.nodes[1]? = some g ∧ l.nodes[2]? = some g' ∧ g.rank = g'.rank ∧ g.order ≠ g'.order := by
  intro s m
  have hread : ((layout s ⟨none, none, .graph m⟩).toOption.bind (·.graph?)).map
      (fun l => l.nodes.map (·.rank)) = some [0, 1, 1] := by cbv
  obtain ⟨drawing, l, hok, hl, hranks⟩ := exists_drawing_of_read hread
  obtain ⟨i, l', -, hl', -, -, hnodes⟩ := orders_count_linked_members hok
  obtain rfl : l = l' := Option.some.inj (hl.symm.trans hl')
  have hends : (Containment.ofModel m).ends = [⟨some 0, some 1⟩, ⟨some 0, some 2⟩] := by cbv
  have hlinked : (Containment.ofModel m).Linked (.node 1) (.node 2) :=
    .trans _ (.node 0) _ (.symm _ _ (.rel _ _ ⟨0, 1, by simp [hends], rfl, rfl⟩))
      (.rel _ _ ⟨0, 2, by simp [hends], rfl, rfl⟩)
  have hlength : l.nodes.length = 3 := by simpa using congrArg List.length hranks
  obtain ⟨a, g, g', hlist⟩ := List.length_eq_three.mp hlength
  have hg : l.nodes[1]? = some g := by rw [hlist]; rfl
  have hg' : l.nodes[2]? = some g' := by rw [hlist]; rfl
  have hrank : g.rank = g'.rank := by
    simp only [hlist, List.map_cons, List.cons.injEq] at hranks
    rw [hranks.2.1, hranks.2.2.1]
  exact ⟨_, l, g, g', hok, hl, hg, hg', hrank, (hnodes 1 2 g g' hg hg' (by decide) hlinked).2 hrank⟩

/-- Two nodes without edges have the same rank and the same order. -/
theorem isolated_nodes_share_rank_and_order :
    let s : Setting Rat := ⟨.standard, fun _ _ => ⟨10, 5⟩⟩
    let m : Graph.Model Rat := { nodes := [{ id := "a" }, { id := "b" }] }
    ∃ drawing l g g', layout s ⟨none, none, .graph m⟩ = .ok drawing ∧ drawing.graph? = some l ∧
      l.nodes[0]? = some g ∧ l.nodes[1]? = some g' ∧ g.id ≠ g'.id ∧ g.cluster = g'.cluster ∧
      g.rank = g'.rank ∧ g.order = g'.order := by
  intro s m
  have hread : ((layout s ⟨none, none, .graph m⟩).toOption.bind (·.graph?)).map
      (fun l => l.nodes.map fun g => (g.id, g.cluster, g.rank, g.order)) =
        some [("a", none, 0, 0), ("b", none, 0, 0)] := by cbv
  obtain ⟨drawing, l, hok, hl, hlist⟩ := exists_drawing_of_read hread
  have hlength : l.nodes.length = 2 := by simpa using congrArg List.length hlist
  obtain ⟨g, g', hpair⟩ := List.length_eq_two.mp hlength
  simp only [hpair, List.map_cons, List.map_nil, List.cons.injEq, Prod.mk.injEq] at hlist
  obtain ⟨⟨hid, hcluster, hrank, horder⟩, ⟨hid', hcluster', hrank', horder'⟩, -⟩ := hlist
  exact ⟨drawing, l, g, g', hok, hl, by rw [hpair]; rfl, by rw [hpair]; rfl,
    by rw [hid, hid']; decide, by rw [hcluster, hcluster'], by rw [hrank, hrank'],
    by rw [horder, horder']⟩

end Drafting.Diagram
