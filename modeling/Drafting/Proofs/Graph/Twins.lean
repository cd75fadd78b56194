import Mathlib
import Drafting.Proofs.Graph.Enclosure
import Drafting.Proofs.Graph.Places
import Drafting.Proofs.Graph.Rooms

/-!
Two directions, one layout.

In the axes of the layout the direction of a graph matters for the frames of clusters only: the head
of a frame takes room along one axis or the other.  Without heads the two frames differ in the zeros
that are added, so they are twins, and every element gets the same place.

* `ScopeLayout.ofScope_directed`: a scope is laid out the same way in both directions.
* `Frame.Twin`, `Frame.twin_around`: the frames of both directions around an interior.
* `Interiors.isRoom_scope`: every interior is given by plain lengths.
* `Interiors.Twin.enter`, `Interiors.Twin.layAll`: one more scope leaves interiors twins, and so do
  all scopes.
* `Placed.ofInteriors_twin`: elements get the same places in twins.
-/

namespace Drafting

open Binary32 (IsNumber Plain add_add_zero plain_zero)

/-- The same distances with another direction. -/
def GraphConfig.directed {α : Type} (c : GraphConfig α) (d : Direction) : GraphConfig α :=
  { c with direction := d }

namespace Graph

/-! ### Scopes -/

namespace ScopeLayout

variable {α : Type} [Scalar α]

lemma placeAll_directed (config : GraphConfig α) (d : Direction) (sizes : Array (Size α))
    (shapes : Array (EdgeShape α)) (cs : List Component) (p : Progress α) (named : Nat) :
    placeAll (config.directed d) sizes shapes cs p named =
      placeAll config sizes shapes cs p named := by
  induction cs generalizing p named with
  | nil => rfl
  | cons c cs ih =>
      have hlayout : c.layout (config.directed d) sizes shapes named =
          c.layout config sizes shapes named := rfl
      rw [placeAll, placeAll, hlayout]
      cases c.layout config sizes shapes named with
      | error e => rfl
      | ok l => exact ih _ _

/-- A scope is laid out the same way in both directions. -/
lemma ofScope_directed (config : GraphConfig α) (d : Direction) (s : Scope) (sizes : Array (Size α))
    (shapes : Array (EdgeShape α)) (named : Nat) :
    ofScope (config.directed d) s sizes shapes named = ofScope config s sizes shapes named := by
  rw [ofScope, ofScope, placeAll_directed]
  rfl

end ScopeLayout

/-! ### Frames -/

namespace Frame

/-- Frames of the same size whose interiors begin at the same place, wherever the corner is. -/
structure Twin (f f' : Frame Float32) : Prop where
  size : f'.size = f.size
  inset : ∀ corner : Point Float32, Plain corner.x → Plain corner.y →
    corner.add f'.inset = corner.add f.inset

lemma Twin.refl (f : Frame Float32) : f.Twin f := ⟨rfl, fun _ _ _ => rfl⟩

/-- An empty head takes no room. -/
lemma headRoom_zero (padding : Float32) : headRoom padding 0 = 0 := if_neg (by decide)

/-- **The frames of both directions around an interior are twins** when there is no head. -/
lemma twin_around {interior : Size Float32} (h : interior.IsRoom) (padding : Float32) :
    (around .leftToRight padding Size.zero interior).Twin
      (around .topToBottom padding Size.zero interior) where
  size := by
    have hsize : (around .leftToRight padding Size.zero interior).size =
        ⟨interior.width + headRoom padding 0 + 2 * padding,
          Binary32.max interior.height 0 + 2 * padding⟩ := rfl
    have hsize' : (around .topToBottom padding Size.zero interior).size =
        ⟨Binary32.max interior.width 0 + 2 * padding,
          interior.height + headRoom padding 0 + 2 * padding⟩ := rfl
    rw [hsize, hsize', headRoom_zero, Binary32.max_eq_left h.width, Binary32.max_eq_left h.height,
      h.plainWidth, h.plainHeight]
  inset corner hx hy := by
    simp only [around, Size.orient, Size.swap, Size.zero, headRoom_zero, Point.add]
    rw [add_add_zero hx, add_add_zero hy]

end Frame

/-! ### Interiors -/

namespace Interiors

variable {config : GraphConfig Float32} {shapes : Shapes Float32} {c : Containment Float32}
    {i i' j : Interiors Float32}

/-- The same scopes laid out, in frames that are twins. -/
structure Twin (i i' : Interiors Float32) : Prop where
  scopes : i'.scopes = i.scopes
  named : i'.named = i.named
  frames : ∀ k, (i.frame k).Twin (i'.frame k)

lemma Twin.scope (h : i.Twin i') (container : Option Nat) :
    i'.scope container = i.scope container := by
  rw [Interiors.scope, h.scopes, Interiors.scope]

lemma Twin.sizes (h : i.Twin i') (shapes : Shapes Float32) (s : Scope) :
    i'.sizes shapes s = i.sizes shapes s := by
  rw [Interiors.sizes, Interiors.sizes, List.map_congr_left]
  intro m _
  cases m with
  | node n => rfl
  | cluster k => exact (h.frames k).size

/-- One more scope is entered in both directions. -/
lemma Twin.enter (h : i.Twin i') (hi : i.Sized c) (hi' : i'.Sized c) {container : Option Nat}
    (hcontainer : c.IsContainer container) (hheads : ∀ k, shapes.heads.getD k Size.zero = Size.zero)
    {l : ScopeLayout Float32} (hroom : ∀ k, container = some k → l.size.IsRoom) (named : Nat) :
    (i.enter (config.directed .leftToRight) shapes container l named).Twin
      (i'.enter (config.directed .topToBottom) shapes container l named) where
  scopes := by simp only [Interiors.enter, h.scopes]
  named := rfl
  frames k := by
    by_cases hk : container = some k
    · subst hk
      rw [frame_enter_self hi (hcontainer k rfl), frame_enter_self hi' (hcontainer k rfl), hheads]
      exact Frame.twin_around (hroom k rfl) _
    · rw [frame_enter_ne hk, frame_enter_ne hk]
      exact h.frames k

/-- A scope that is laid out already stays as it is. -/
lemma scope_layAll {todo : List (Option Nat)}
    (hok : layAll config shapes (todo.map c.scopeOf) i = .ok j)
    {x : Option Nat} (hx : x ∉ todo) : j.scope x = i.scope x := by
  induction todo generalizing i with
  | nil =>
      obtain rfl := Except.ok.inj hok
      rfl
  | cons container todo ih =>
      rw [List.mem_cons, not_or] at hx
      rw [List.map_cons, layAll] at hok
      split at hok
      · cases hok
      · exact (ih hok hx.2).trans (scope_enter_ne (Ne.symm hx.1) _ _)

/-- **Scopes that are laid out in both directions leave interiors twins** when they take room. -/
lemma Twin.layAll {todo : List (Option Nat)} (h : i.Twin i') (hi : i.Sized c) (hi' : i'.Sized c)
    (hnodup : todo.Nodup) (hcontainers : ∀ x ∈ todo, c.IsContainer x)
    (hheads : ∀ k, shapes.heads.getD k Size.zero = Size.zero)
    (hok : layAll (config.directed .leftToRight) shapes (todo.map c.scopeOf) i = .ok j)
    (hrooms : ∀ k, some k ∈ todo → (j.scope (some k)).size.IsRoom) :
    ∃ j', layAll (config.directed .topToBottom) shapes (todo.map c.scopeOf) i' = .ok j' ∧
      j.Twin j' := by
  induction todo generalizing i i' with
  | nil =>
      obtain rfl := Except.ok.inj hok
      exact ⟨i', rfl, h⟩
  | cons container todo ih =>
      rw [List.nodup_cons] at hnodup
      rw [List.forall_mem_cons] at hcontainers
      rw [List.map_cons, Interiors.layAll] at hok ⊢
      have hsizes := h.sizes shapes (c.scopeOf container)
      simp only [Interiors.sizes] at hsizes
      simp only [ScopeLayout.ofScope_directed, hsizes, h.named] at hok ⊢
      split at hok
      · cases hok
      · next l after hl =>
          -- the scope is not laid out again, so its room is the one in the end
          have hscope : j.scope container = l :=
            (scope_layAll hok hnodup.1).trans (scope_enter_self hi hcontainers.1 l after)
          have hroom : ∀ k, container = some k → l.size.IsRoom := by
            rintro k rfl
            rw [← hscope]
            exact hrooms k List.mem_cons_self
          exact ih (h.enter hi hi' hcontainers.1 hheads hroom after) (hi.enter _ _ _)
            (hi'.enter _ _ _) hnodup.2 hcontainers.2 hok
            fun k hk => hrooms k (List.mem_cons_of_mem _ hk)

/-! ### Rooms of interiors -/

/-- The sides of all boxes in all scopes are numbers. -/
def Numeric (c : Containment Float32) (i : Interiors Float32) : Prop :=
  ∀ x, c.IsContainer x → ∀ v < (c.scopeOf x).members.length,
    IsNumber ((i.scope x).member v).bounds.minX ∧ IsNumber ((i.scope x).member v).bounds.maxX

lemma sizeOf_sizes {x : Option Nat} {v : Nat} {m : Member}
    (hv : (c.scopeOf x).members[v]? = some m) :
    Component.sizeOf (i.sizes shapes (c.scopeOf x)) v = i.memberSize shapes m := by
  rw [Component.sizeOf, Interiors.sizes, Array.getD_eq_getD_getElem?, List.getElem?_toArray,
    List.getElem?_map, hv, Option.map_some, Option.getD_some]

/-- The interior of a cluster has a width, since its frame has sides. -/
lemma Numeric.width (hnumeric : Numeric c i) (hc : c.Sound)
    (hsettled : ∀ x, c.IsContainer x →
      Settled (config.directed .leftToRight) shapes c i x) {k : Nat}
    (hk : k < c.clusterParent.size) : IsNumber (i.scope (some k)).size.width := by
  have hcontainer := Containment.isContainer_some hk
  set x := c.containerOf (.cluster k) with hx
  have hx' : c.IsContainer x := hc.isContainer_containerOf _
  have hdeclared : c.Declares (.cluster k) := hk
  obtain ⟨v, hv⟩ := List.mem_iff_getElem?.mp (Containment.mem_members.mpr ⟨hdeclared, hx.symm⟩)
  have hlt := (List.getElem?_eq_some_iff.mp hv).1
  obtain ⟨named, after, hok⟩ := (hsettled x hx').scope
  obtain ⟨center, offset, hbox⟩ :=
    ScopeLayout.exists_box (c.wellFormed_scopeOf x) (by simp [Interiors.sizes]) hok hlt
  have hnumber := (hnumeric x hx' v hlt).1
  rw [hbox, sizeOf_sizes hv] at hnumber
  have hframe : IsNumber (i.frame k).size.width := hnumber.of_add.1.of_sub.2.of_half
  rw [(hsettled _ hcontainer).frame k rfl] at hframe
  exact hframe.of_add.1.of_add.1

/-- **The interiors of clusters are given by plain lengths** when the sides of all boxes are
numbers. -/
lemma isRoom_scope (hgap : 0 ≤ config.componentGap) (hpadding : 0 ≤ config.clusterPadding)
    (hheads : ∀ k, shapes.heads.getD k Size.zero = Size.zero)
    (hnodes : ∀ n, 0 ≤ (shapes.nodes.getD n Size.zero).width)
    (hlabels : ∀ e, Component.labelOf shapes.edges e = none) (hc : c.Sound)
    (hsettled : ∀ x, c.IsContainer x → Settled (config.directed .leftToRight) shapes c i x)
    (hnumeric : Numeric c i) {k : Nat} (hk : k < c.clusterParent.size) :
    (i.scope (some k)).size.IsRoom := by
  refine hc.inward (P := fun x => ∀ k, x = some k → (i.scope x).size.IsRoom) ?_
    (Containment.isContainer_some hk) k rfl
  rintro x hx hinner k rfl
  obtain ⟨named, after, hok⟩ := (hsettled _ hx).scope
  rw [ScopeLayout.ofScope_directed] at hok
  refine ScopeLayout.isRoom_size (c.wellFormed_scopeOf _) (by simp [Interiors.sizes])
    (fun v hv => ?_)
    (fun e _ => hlabels e.edge) hgap hok (hnumeric _ hx) (hnumeric.width hc hsettled (hx k rfl))
  have hm := List.getElem?_eq_getElem hv
  rw [sizeOf_sizes hm]
  -- a frame is wider than its interior
  cases hmember : (c.scopeOf (some k)).members[v] with
  | node n => exact hnodes n
  | cluster m =>
      have hmem : Member.cluster m ∈ (c.scopeOf (some k)).members := hmember ▸ List.getElem_mem hv
      have hcluster : c.IsContainer (some m) :=
        Containment.isContainer_some (Containment.mem_members.mp hmem).1
      have hroom := (hinner m hmem m rfl).width
      rw [memberSize, (hsettled _ hcluster).frame m rfl, hheads]
      have hframe : (Frame.around .leftToRight config.clusterPadding Size.zero
          (i.scope (some m)).size).size.width =
          (i.scope (some m)).size.width + Frame.headRoom config.clusterPadding 0 +
            2 * config.clusterPadding := rfl
      rw [Frame.headRoom_zero] at hframe
      exact hframe ▸ Lengths.add_nonneg (Lengths.add_nonneg hroom Lengths.zero_le_zero)
        (Lengths.twice_nonneg hpadding)

end Interiors

/-! ### Places -/

namespace Placed

variable {c : Containment Float32} {i i' : Interiors Float32} {p : Placed Float32}

/-- The corners of all frames are plain. -/
def PlainCorners (p : Placed Float32) : Prop :=
  ∀ k, Plain (p.cluster k).minX ∧ Plain (p.cluster k).minY

lemma plainCorners_empty (c : Containment Float32) : (empty c).PlainCorners := by
  intro k
  have hzero : (empty c).cluster k = Bounds.zero := by
    rw [cluster, empty, Array.getD_eq_getD_getElem?, Array.getElem?_replicate]
    split <;> rfl
  rw [hzero]
  exact ⟨plain_zero, plain_zero⟩

/-- An interior begins at a plain coordinate. -/
lemma PlainCorners.origin (hp : p.PlainCorners) (i : Interiors Float32) (container : Option Nat) :
    Plain (p.origin i container).x ∧ Plain (p.origin i container).y := by
  cases container with
  | none => exact ⟨plain_zero, plain_zero⟩
  | some k => exact ⟨(hp k).1.add _, (hp k).2.add _⟩

lemma PlainCorners.enterMember (hp : p.PlainCorners) (m : Member) (place : PlacedMember Float32)
    {v : Point Float32} (hx : Plain v.x) (hy : Plain v.y) :
    (p.enterMember m (place.translate v)).PlainCorners := by
  cases m with
  | node n => exact hp
  | cluster j =>
      intro k
      have hcases : (p.enterMember (.cluster j) (place.translate v)).cluster k = p.cluster k ∨
          (p.enterMember (.cluster j) (place.translate v)).cluster k =
            place.bounds.translate v := by
        simp only [cluster, Placed.enterMember, Array.getD_eq_getD_getElem?,
          Array.getElem?_setIfInBounds]
        split_ifs with hjk hlt
        · exact Or.inr rfl
        · rw [← hjk, Array.getElem?_eq_none (Nat.not_lt.mp hlt)]
          exact Or.inl rfl
        · exact Or.inl rfl
      rcases hcases with hcluster | hcluster
      · rw [hcluster]
        exact hp k
      · rw [hcluster]
        exact ⟨hx.add_left _, hy.add_left _⟩

/-- One more scope is moved into its frame. -/
lemma PlainCorners.placeScope (hp : p.PlainCorners) (i : Interiors Float32) (s : Scope) :
    (p.placeScope i s).PlainCorners := by
  obtain ⟨hx, hy⟩ := hp.origin i s.container
  refine List.foldlRecOn _ _ ?_ fun q hq e _ => hq
  exact List.foldlRecOn _ _ hp fun q hq e _ => hq.enterMember e.1 e.2 hx hy

lemma placeScope_twin (h : i.Twin i') (hp : p.PlainCorners) (s : Scope) :
    p.placeScope i' s = p.placeScope i s := by
  have horigin : p.origin i' s.container = p.origin i s.container := by
    cases s.container with
    | none => rfl
    | some k => exact (h.frames k).inset _ (hp k).1 (hp k).2
  simp only [Placed.placeScope, horigin, h.scope]

lemma foldl_placeScope_twin (h : i.Twin i') (hp : p.PlainCorners) (todo : List Scope) :
    todo.foldl (placeScope i') p = todo.foldl (placeScope i) p := by
  induction todo generalizing p with
  | nil => rw [List.foldl_nil, List.foldl_nil]
  | cons s todo ih =>
      rw [List.foldl_cons, List.foldl_cons, placeScope_twin h hp, ih (hp.placeScope i s)]

/-- **Elements get the same places in twins.** -/
lemma ofInteriors_twin (h : i.Twin i') (c : Containment Float32) (scopes : List Scope) :
    ofInteriors c scopes i' = ofInteriors c scopes i := by
  rw [ofInteriors, ofInteriors, foldl_placeScope_twin h (plainCorners_empty c)]

/-- When every element has a box with sides that are numbers, so it was in its scope. -/
lemma numeric_of_housed (hhoused : ∀ x, c.IsContainer x → Housed c i p x)
    (hsize : ∀ x, c.IsContainer x → (i.scope x).members.size = (c.scopeOf x).members.length)
    (hp : ∀ m place, c.Declares m → p.Holds m place →
      IsNumber place.bounds.minX ∧ IsNumber place.bounds.maxX) : Interiors.Numeric c i := by
  intro x hx v hv
  have hlt : v < (i.scope x).members.size := by rwa [hsize x hx]
  have hmem : ((c.scopeOf x).members[v], (i.scope x).members[v]) ∈ interior c i x := by
    refine List.mem_iff_getElem?.mpr ⟨v, List.getElem?_zip_eq_some.mpr ⟨?_, ?_⟩⟩
    · exact List.getElem?_eq_getElem hv
    · simp [hlt]
  have hdeclared := (Containment.mem_members.mp (List.getElem_mem hv)).1
  have hnumber := hp _ _ hdeclared ((hhoused x hx).members _ _ hmem)
  have hmember : (i.scope x).member v = (i.scope x).members[v] := by
    rw [ScopeLayout.member, Array.getD_eq_getD_getElem?, Array.getElem?_eq_getElem hlt]
    rfl
  rw [hmember]
  exact ⟨hnumber.1.of_add.1, hnumber.2.of_add.1⟩

end Placed

end Graph

end Drafting
