import Mathlib
import Drafting.Proofs.Config
import Drafting.Proofs.Geometry.Boxes
import Drafting.Proofs.Graph.Coordinates
import Drafting.Proofs.Graph.Ranks

/-!
The boxes of the members of a connected part.

* `Component.gaps_atLeast`: there is a gap between any two ranks.
* `Placement.clear_nodes`: boxes around nodes of a layered graph are clear of each other.
* `Component.nonneg_layering`: members and routing points reach to both sides.
* `Component.Fitted`: members have the sizes they were given, are clear of each other, and
  lie in the box of the part.
* `Component.fitted_arrange`: whatever the ranks of a part are, its members are placed so.
-/

namespace Drafting.Graph

namespace Component

variable {config : GraphConfig Rat} {sizes : Array (Size Rat)} {shapes : Array (EdgeShape Rat)}
    {c : Component}

/-- No size is negative. -/
def NonnegSizes (sizes : Array (Size Rat)) : Prop :=
  ∀ size ∈ sizes, 0 ≤ size.width ∧ 0 ≤ size.height

lemma sizeOf_nonneg (hsizes : NonnegSizes sizes) (v : Nat) :
    0 ≤ (sizeOf sizes v).width ∧ 0 ≤ (sizeOf sizes v).height := by
  rw [sizeOf, Array.getD_eq_getD_getElem?]
  cases hv : sizes[v]? with
  | none => exact ⟨le_refl _, le_refl _⟩
  | some size => exact hsizes size (Array.mem_of_getElem? hv)

/-! ### Rooms that only grow -/

/-- No entry is below a bound. -/
def AtLeast (low : Rat) (a : Array Rat) : Prop := ∀ x ∈ a, low ≤ x

lemma AtLeast.modify_max {low : Rat} {a : Array Rat} (h : AtLeast low a) (i : Nat) (y : Rat) :
    AtLeast low (a.modify i (max · y)) := by
  intro x hx
  rcases mem_modify hx with hx | ⟨old, hold, rfl⟩
  · exact h x hx
  · exact (h old hold).trans (le_max_left _ _)

lemma atLeast_replicate (n : Nat) (x : Rat) : AtLeast x (Array.replicate n x) := by
  intro y hy
  rw [Array.eq_of_mem_replicate hy]

/-- Loops reach to the right. -/
lemma loopReach_nonneg (config : GraphConfig Rat) (shapes : Array (EdgeShape Rat)) (c : Component)
    (i : Nat) :
    0 ≤ (c.loopReach config shapes).getD i 0 := by
  have hall : AtLeast 0 (c.loopReach config shapes) :=
    List.foldlRecOn _ _ (atLeast_replicate _ _) fun reach h e _ => h.modify_max _ _
  rw [Array.getD_eq_getD_getElem?]
  cases hi : (c.loopReach config shapes)[i]? with
  | none => exact le_refl _
  | some x => exact hall x (Array.mem_of_getElem? hi)

/-- No gap between ranks is narrower than usual. -/
lemma gaps_atLeast (config : GraphConfig Rat) (shapes : Array (EdgeShape Rat)) (c : Component)
    (g : Layering Rat) : AtLeast config.rankGap (c.gaps config shapes g) := by
  refine List.foldlRecOn _ _ (atLeast_replicate _ _) fun gaps h link _ => ?_
  obtain ⟨e, chain⟩ := link
  simp only
  split
  · exact h.modify_max _ _
  · exact h

/-- There is a gap below each rank but the last. -/
lemma size_gaps (config : GraphConfig Rat) (shapes : Array (EdgeShape Rat)) (c : Component)
    (g : Layering Rat) : (c.gaps config shapes g).size = g.rankCount - 1 := by
  rw [gaps, size_foldl (fun gaps link => ?_), Array.size_replicate]
  dsimp only
  split
  · exact Array.size_modify
  · rfl

/-! ### Nodes of a layered graph -/

end Component

namespace Placement

variable {g : Layering Rat} {layers : Layers} {spacing : Rat} {gaps : Array Rat}

/-- A box around a node is no larger than the room of the node. -/
structure FitsNode (g : Layering Rat) (v : Nat) (size : Size Rat) : Prop where
  before : size.width / 2 ≤ (extentOf g v).before
  after : size.width / 2 ≤ (extentOf g v).after
  height : size.height ≤ heightOf g v

/-- A box around a node lies in the band of its rank. -/
lemma FitsNode.within_band (hlayers : Layers.Places g layers) (spacing : Rat) (passes : Nat)
    (gaps : Array Rat) {v : Nat} (hv : v < g.nodes.size) {size : Size Rat} (h : FitsNode g v size) :
    let box := Bounds.around ((ofLayers g layers spacing passes gaps).center v) size
    top g layers gaps (Layers.rankOf g v) ≤ box.minY ∧
      box.maxY ≤
        top g layers gaps (Layers.rankOf g v) + rankHeight g layers (Layers.rankOf g v) := by
  intro box
  obtain ⟨htop, hbottom⟩ := @Placement.within_band g layers spacing gaps
    hlayers.toByRank passes v hv (hlayers.rank_lt v hv)
  have hheight := h.height
  simp only [box, Bounds.around, Scalar.half]
  exact ⟨by linarith, by linarith⟩

/-- **Boxes around nodes are clear of each other**: in a rank by the spacing, else by the gaps. -/
lemma clear_nodes (hg : g.Nonneg) (hlayers : Layers.Places g layers) (hspacing : 0 < spacing)
    (hgaps : ∀ x ∈ gaps, 0 < x) (hcount : layers.length ≤ gaps.size + 1) (passes : Nat) {v w : Nat}
    (hv : v < g.nodes.size) (hw : w < g.nodes.size) (hne : v ≠ w) {a b : Size Rat}
    (ha : FitsNode g v a) (hb : FitsNode g w b) :
    (Bounds.around ((ofLayers g layers spacing passes gaps).center v) a).Clear
      (Bounds.around ((ofLayers g layers spacing passes gaps).center w) b) := by
  obtain ⟨htop, hbottom⟩ := ha.within_band hlayers spacing passes gaps hv
  obtain ⟨htop', hbottom'⟩ := hb.within_band hlayers spacing passes gaps hw
  rcases Nat.lt_trichotomy (Layers.rankOf g v) (Layers.rankOf g w) with hlt | heq | hlt
  · have hband := top_add_rankHeight_lt (g := g) hgaps hcount hlt (hlayers.rank_lt w hw)
    exact Or.inr (Or.inr (Or.inl (by linarith)))
  · have hbeside := @beside g layers spacing gaps hg hlayers.toByRank hspacing.le passes v w hv hw
      hne heq (hlayers.rank_lt v hv)
    have hav := ha.after
    have hbv := ha.before
    have haw := hb.after
    have hbw := hb.before
    simp only [separation] at hbeside
    simp only [Bounds.Clear, Bounds.around, Scalar.half]
    rcases hbeside with hbeside | hbeside
    · left
      linarith
    · right
      left
      linarith
  · have hband := top_add_rankHeight_lt (g := g) hgaps hcount hlt (hlayers.rank_lt v hv)
    exact Or.inr (Or.inr (Or.inr (by linarith)))

end Placement

namespace Component

variable {config : GraphConfig Rat} {sizes : Array (Size Rat)} {shapes : Array (EdgeShape Rat)}
    {c : Component}

/-! ### The layered graph of a part -/

/-- What a member is in the layered graph. -/
def shapeOf (config : GraphConfig Rat) (sizes : Array (Size Rat)) (shapes : Array (EdgeShape Rat))
    (c : Component) (ranks : Array Nat) (i member : Nat) : MemberShape Rat :=
  { rank := ranks.getD i 0
    extent := ⟨(sizeOf sizes member).width / 2,
      (sizeOf sizes member).width / 2 + (c.loopReach config shapes).getD i 0⟩
    height := (sizeOf sizes member).height }

lemma memberShapes_eq (ranks : Array Nat) :
    c.memberShapes config sizes shapes ranks =
      c.members.mapIdx (c.shapeOf config sizes shapes ranks) := rfl

lemma shapeOf_nonneg (hsizes : NonnegSizes sizes) (ranks : Array Nat) (i member : Nat) :
    0 ≤ (c.shapeOf config sizes shapes ranks i member).extent.before ∧
      0 ≤ (c.shapeOf config sizes shapes ranks i member).extent.after ∧
      0 ≤ (c.shapeOf config sizes shapes ranks i member).height := by
  obtain ⟨hwidth, hheight⟩ := sizeOf_nonneg hsizes member
  have hreach := loopReach_nonneg config shapes c i
  refine ⟨?_, ?_, hheight⟩
  · simp only [shapeOf]
    linarith
  · simp only [shapeOf]
    linarith

lemma nonneg_layering (hconfig : config.Sensible) (hsizes : NonnegSizes sizes) (named : Nat)
    (ranking : Ranking) :
    (c.layering config sizes shapes named ranking).Nonneg := by
  have hall : ∀ n ∈ (c.layering config sizes shapes named ranking).nodes,
      0 ≤ n.extent.before ∧ 0 ≤ n.extent.after ∧ 0 ≤ n.height := by
    intro n hn
    rcases Layering.mem_nodes_ofEdges hn with ⟨shape, hshape, -, hextent, hheight⟩ | ⟨-, hextent,
      hheight⟩
    · rw [memberShapes_eq, List.mem_mapIdx] at hshape
      obtain ⟨i, hi, rfl⟩ := hshape
      rw [hextent, hheight]
      exact shapeOf_nonneg hsizes _ _ _
    · have hwidth := hconfig.virtualNodeWidth
      rw [hextent, hheight]
      simp only [Extent.symmetric, Scalar.half]
      refine ⟨?_, ?_, le_refl _⟩
      all_goals linarith
  exact ⟨fun n hn => (hall n hn).1, fun n hn => (hall n hn).2.1, fun n hn => (hall n hn).2.2⟩

/-- The members of a part are nodes of its layered graph. -/
lemma getElem?_nodes_layering (config : GraphConfig Rat) (sizes : Array (Size Rat))
    (shapes : Array (EdgeShape Rat)) (named : Nat) (ranking : Ranking) {i member : Nat}
    (h : c.members[i]? = some member) :
    (c.layering config sizes shapes named ranking).nodes[i]? =
      some ⟨.member i, (c.shapeOf config sizes shapes ranking.ranks i member).rank,
        (c.shapeOf config sizes shapes ranking.ranks i member).extent,
        (c.shapeOf config sizes shapes ranking.ranks i member).height, none⟩ := by
  refine Layering.getElem?_nodes_ofEdges ?_
  rw [memberShapes_eq, List.getElem?_mapIdx, h]
  rfl

/-! ### The members of a part -/

/-- Members have the sizes they were given, are clear of each other, and lie
in the box of the part. -/
structure Fitted (sizes : Array (Size Rat)) (c : Component) (l : ComponentLayout Rat) : Prop where
  length : l.members.length = c.members.length
  width : ∀ v m, (v, m) ∈ c.members.zip l.members → m.bounds.width = (sizeOf sizes v).width
  height : ∀ v m, (v, m) ∈ c.members.zip l.members → m.bounds.height = (sizeOf sizes v).height
  clear : l.members.Pairwise fun m n => m.bounds.Clear n.bounds
  encloses : ∀ m ∈ l.members, l.bounds.Encloses m.bounds

lemma encloses_boundsOf (members : List (PlacedMember Rat)) (edges : List (RoutedEdge Rat))
    {m : PlacedMember Rat} (hm : m ∈ members) : (boundsOf members edges).Encloses m.bounds := by
  cases members with
  | nil => simp at hm
  | cons first members =>
      have hall := Bounds.encloses_foldl_merge first.bounds (members.map (·.bounds))
      rw [List.foldl_map] at hall
      refine (Bounds.encloses_foldl_merge (members.foldl (fun b n => b.merge n.bounds) first.bounds)
        _).1.trans ?_
      rcases List.mem_cons.mp hm with rfl | hm
      · exact hall.1
      · exact hall.2 _ (List.mem_map.mpr ⟨m, hm, rfl⟩)

lemma width_around (p : Point Rat) (size : Size Rat) :
    (Bounds.around p size).width = size.width := by
  simp only [Bounds.width, Bounds.around, Scalar.half]
  ring

lemma height_around (p : Point Rat) (size : Size Rat) :
    (Bounds.around p size).height = size.height := by
  simp only [Bounds.height, Bounds.around, Scalar.half]
  ring

/-- The size of a member of a part fits its node. -/
lemma fitsNode_member (shapes : Array (EdgeShape Rat)) (named : Nat) (ranking : Ranking) {i v : Nat}
    (hi : c.members[i]? = some v) :
    Placement.FitsNode (c.layering config sizes shapes named ranking) i (sizeOf sizes v) := by
  have hreach := loopReach_nonneg config shapes c i
  have hnode := getElem?_nodes_layering config sizes shapes named ranking hi
  constructor
  · simp [Placement.extentOf, hnode, shapeOf]
  · simp only [Placement.extentOf, hnode, shapeOf, Option.map_some, Option.getD_some]
    linarith
  · simp [Placement.heightOf, hnode, shapeOf]

/-- The places of the nodes of a ranked part. -/
def placement (config : GraphConfig Rat) (sizes : Array (Size Rat)) (shapes : Array (EdgeShape Rat))
    (c : Component) (named : Nat) (ranking : Ranking) : Placement Rat :=
  let g := c.layering config sizes shapes named ranking
  Placement.ofLayers g (Layers.minimize g config.orderingPasses config.orderingHeuristic)
    config.nodeSpacing config.relaxationPasses (c.gaps config shapes g)

/-- The layers of a part hold every node in the rank that is its own. -/
lemma places_minimize (config : GraphConfig Rat) (sizes : Array (Size Rat))
    (shapes : Array (EdgeShape Rat)) (c : Component) (named : Nat) (ranking : Ranking) :
    let g := c.layering config sizes shapes named ranking
    Layers.Places g (Layers.minimize g config.orderingPasses config.orderingHeuristic) := by
  intro g
  exact (Layers.fits_minimize g _ _).places fun v hv => Layering.rank_lt_rankCount hv

/-- **The nodes of a part are clear of each other.** -/
lemma clear_nodes (hconfig : config.Sensible) (hsizes : NonnegSizes sizes) (named : Nat)
    (ranking : Ranking) {i j : Nat} {a b : Size Rat} (hne : i ≠ j)
    (hi : i < (c.layering config sizes shapes named ranking).nodes.size)
    (hj : j < (c.layering config sizes shapes named ranking).nodes.size)
    (ha : Placement.FitsNode (c.layering config sizes shapes named ranking) i a)
    (hb : Placement.FitsNode (c.layering config sizes shapes named ranking) j b) :
    (Bounds.around ((c.placement config sizes shapes named ranking).center i) a).Clear
      (Bounds.around ((c.placement config sizes shapes named ranking).center j) b) := by
  have hranked := places_minimize config sizes shapes c named ranking
  refine Placement.clear_nodes (nonneg_layering hconfig hsizes named ranking) hranked
    hconfig.nodeSpacing (fun x hx => hconfig.rankGap.trans_le (gaps_atLeast config shapes c _ x hx))
    ?_ _ hi hj hne ha hb
  rw [size_gaps, (Layers.fits_minimize _ _ _).length]
  omega

lemma mem_zip_place {ranks : Array Nat} {layers : Layers} {p : Placement Rat} {v : Nat}
    {m : PlacedMember Rat} (h : (v, m) ∈ c.members.zip (c.place sizes ranks layers p)) :
    ∃ i, c.members[i]? = some v ∧ m.bounds = Bounds.around (p.center i) (sizeOf sizes v) := by
  obtain ⟨i, hi⟩ := List.mem_iff_getElem?.mp h
  rw [List.getElem?_zip_eq_some] at hi
  refine ⟨i, hi.1, ?_⟩
  have hm : (c.place sizes ranks layers p)[i]? = some m := hi.2
  rw [place, List.getElem?_mapIdx, hi.1] at hm
  exact (congrArg PlacedMember.bounds (Option.some.inj hm)).symm

/-- **The members of a part are placed without overlapping**, whatever their ranks are. -/
lemma fitted_arrange (hconfig : config.Sensible) (hsizes : NonnegSizes sizes) (named : Nat)
    (ranking : Ranking) :
    Fitted sizes c (c.arrange config sizes shapes ranking
      (c.layering config sizes shapes named ranking)) := by
  refine ⟨length_members_arrange _ _, fun v m hm => ?_, fun v m hm => ?_, ?_, fun m hm =>
    encloses_boundsOf _ _ hm⟩
  · obtain ⟨i, -, hbounds⟩ := mem_zip_place hm
    rw [hbounds, width_around]
  · obtain ⟨i, -, hbounds⟩ := mem_zip_place hm
    rw [hbounds, height_around]
  · refine List.pairwise_iff_getElem.mpr fun i j hi hj hij => ?_
    rw [length_members_arrange] at hi hj
    have hnode := fun {k} (hk : k < c.members.length) => (Array.getElem?_eq_some_iff.mp
      (getElem?_nodes_layering config sizes shapes named ranking (List.getElem?_eq_getElem hk))).1
    have hclear := clear_nodes hconfig hsizes named ranking hij.ne (hnode hi) (hnode hj)
      (fitsNode_member shapes named ranking (List.getElem?_eq_getElem hi))
      (fitsNode_member shapes named ranking (List.getElem?_eq_getElem hj))
    simpa [arrange, place, placement, Placement.center] using hclear

/-- The layout of a part of a scope. -/
lemma fitted_of_layout (hconfig : config.Sensible) (hsizes : NonnegSizes sizes) {s : Scope}
    (hs : s.WellFormed) (hc : c ∈ ofScope s) {named after : Nat} {l : ComponentLayout Rat}
    (h : c.layout config sizes shapes named = .ok (l, after)) : Fitted sizes c l := by
  obtain ⟨ranks, hok, -⟩ := layout_eq_ok config sizes shapes hs hc named
  obtain ⟨rfl, -⟩ := Prod.mk.inj (Except.ok.inj (h.symm.trans hok))
  exact fitted_arrange hconfig hsizes named _

end Component

end Drafting.Graph
