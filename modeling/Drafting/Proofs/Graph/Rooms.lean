import Mathlib
import Drafting.Proofs.Binary.Zeros
import Drafting.Proofs.Graph.Routes

/-!
The room that a scope takes, in rounded arithmetic.

The boxes of a part are merged, and parts are placed one behind the other.  Whatever overflows
on the way: unless the room is not a number at all, its extents are lengths, and adding
nothing does not change them.

* `Bounds.Upright`, `Component.upright_layout`: no box is turned inside out, nor is that of a part.
* `ScopeLayout.exists_box`: the box of a member is around a center, moved with its part.
* `Progress.Reaches`: where the next part begins.
* `Size.IsRoom`, `ScopeLayout.isRoom_size`: the room of a scope is given by such extents.
-/

namespace Drafting

open Binary32

/-! ### Boxes -/

namespace Bounds

variable {b c : Bounds Float32}

/-- A box is not turned inside out: its right side is not before its left one, or neither is a
number. -/
def Upright (b : Bounds Float32) : Prop :=
  b.minX ≤ b.maxX ∨ ¬ IsNumber b.minX ∧ ¬ IsNumber b.maxX

/-- A box around two upright ones. -/
lemma Upright.merge (hb : b.Upright) (hc : c.Upright) : (b.merge c).Upright := by
  rcases hb with hb | ⟨hmin, hmax⟩
  · rcases hc with hc | ⟨hmin, hmax⟩
    · exact Or.inl (min_le_max hb hc)
    · obtain ⟨hnumber, hnumber', -⟩ := le_iff.mp hb
      refine Or.inl ?_
      change Binary32.min b.minX c.minX ≤ Binary32.max b.maxX c.maxX
      rw [min_of_not_isNumber_right hnumber hmin, max_of_not_isNumber_right hnumber' hmax]
      exact hb
  · -- nothing is lost of the other box
    change Binary32.min b.minX c.minX ≤ Binary32.max b.maxX c.maxX ∨
      ¬ IsNumber (Binary32.min b.minX c.minX) ∧ ¬ IsNumber (Binary32.max b.maxX c.maxX)
    rw [min_of_not_isNumber hmin, max_of_not_isNumber hmax]
    exact hc

lemma Upright.foldl_merge {boxes : List (Bounds Float32)} (hb : b.Upright)
    (hboxes : ∀ c ∈ boxes, c.Upright) : (boxes.foldl Bounds.merge b).Upright := by
  induction boxes generalizing b with
  | nil => exact hb
  | cons c boxes ih =>
      rw [List.forall_mem_cons] at hboxes
      exact ih (hb.merge hboxes.1) hboxes.2

lemma upright_zero : (Bounds.zero : Bounds Float32).Upright := Or.inl Lengths.zero_le_zero

/-- A box around a center whose sides are numbers. -/
lemma upright_around {center : Point Float32} {size : Size Float32} (hwidth : 0 ≤ size.width)
    (hmin : IsNumber (around center size).minX) (hmax : IsNumber (around center size).maxX) :
    (around center size).Upright :=
  Or.inl (sub_le_add (Lengths.half_nonneg hwidth) hmin hmax)

/-- A point, as a box. -/
lemma upright_point (p : Point Float32) : (around p Size.zero).Upright := by
  have hhalf : Scalar.half (0 : Float32) = 0 := rfl
  change p.x - Scalar.half 0 ≤ p.x + Scalar.half 0 ∨
    ¬ IsNumber (p.x - Scalar.half 0) ∧ ¬ IsNumber (p.x + Scalar.half 0)
  rw [hhalf]
  by_cases hx : IsNumber p.x
  · exact Or.inl (sub_le_add Lengths.zero_le_zero ((sub_zero p.x).symm ▸ hx) hx.add_zero)
  · exact Or.inr ⟨fun h => hx h.of_sub.1, fun h => hx h.of_add.1⟩

/-- The width of an upright box. -/
lemma Upright.width_nonneg (hb : b.Upright) (h : IsNumber b.width) : 0 ≤ b.width := by
  rcases hb with hb | hb
  · exact sub_nonneg hb h
  · exact absurd h.of_sub.2 hb.1

end Bounds

/-- Extents that are lengths and do not change when nothing is added. -/
structure Size.IsRoom (size : Size Float32) : Prop where
  width : 0 ≤ size.width
  plainWidth : Plain size.width
  height : 0 ≤ size.height
  plainHeight : Plain size.height

namespace Graph

/-! ### Parts -/

namespace Component

variable {config : GraphConfig Float32} {sizes : Array (Size Float32)}
    {shapes : Array (EdgeShape Float32)} {s : Scope} {c : Component} {named after : Nat}
    {l : ComponentLayout Float32}

/-- The box of a part without texts. -/
lemma upright_boundsOf {members : List (PlacedMember Float32)} {edges : List (RoutedEdge Float32)}
    (hmembers : ∀ m ∈ members, m.bounds.Upright) (hedges : ∀ e ∈ edges, e.label = none) :
    (boundsOf members edges).Upright := by
  refine Bounds.Upright.foldl_merge ?_ ?_
  · cases members with
    | nil => exact Bounds.upright_zero
    | cons m members =>
        rw [List.forall_mem_cons] at hmembers
        simp only
        rw [← List.foldl_map]
        refine hmembers.1.foldl_merge fun b hb => ?_
        obtain ⟨n, hn, rfl⟩ := List.mem_map.mp hb
        exact hmembers.2 n hn
  · intro b hb
    obtain ⟨e, he, hb⟩ := List.mem_flatMap.mp hb
    rw [hedges e he, Option.toList_none, List.append_nil, List.mem_map] at hb
    obtain ⟨p, -, rfl⟩ := hb
    exact Bounds.upright_point p

/-- An edge without a text is drawn without one. -/
lemma label_of_mem_routes {reversed : List Nat} {r : Routing Float32} {w : RoutedEdge Float32}
    (hlabels : ∀ e ∈ c.edges, labelOf shapes e.edge = none)
    (hw : w ∈ c.routes shapes reversed r) : w.label = none := by
  rcases mem_routes hw with ⟨i, e, chain, he, -, rfl⟩ | ⟨e, he, rfl⟩
  · rw [hlabels e (mem_links.mp (List.mem_of_getElem? he)).1, Routing.link]
    cases labelGap? r.layering chain <;> rfl
  · rw [hlabels e (mem_loops.mp he).1]
    rfl

/-- **The box of a part is upright** when the sides of the boxes of its members are numbers. -/
lemma upright_layout (hs : s.WellFormed) (hc : c ∈ ofScope s)
    (hsizes : ∀ v ∈ c.members, 0 ≤ (sizeOf sizes v).width)
    (hlabels : ∀ e ∈ c.edges, labelOf shapes e.edge = none)
    (h : c.layout config sizes shapes named = .ok (l, after))
    (hnumbers : ∀ v m, (v, m) ∈ c.members.zip l.members →
      IsNumber m.bounds.minX ∧ IsNumber m.bounds.maxX) :
    l.bounds.Upright := by
  obtain ⟨ranks, hok, -⟩ := layout_eq_ok config sizes shapes hs hc named
  obtain ⟨rfl, -⟩ := Prod.mk.inj (Except.ok.inj (h.symm.trans hok))
  refine upright_boundsOf (fun m hm => ?_) fun w hw => label_of_mem_routes hlabels hw
  obtain ⟨i, hi⟩ := List.mem_iff_getElem?.mp hm
  have hlt : i < c.members.length := by
    have hlength := (List.getElem?_eq_some_iff.mp hi).1
    rwa [length_place] at hlength
  have hnumber := hnumbers c.members[i] m
    (List.mem_iff_getElem?.mpr ⟨i, List.getElem?_zip_eq_some.mpr
      ⟨List.getElem?_eq_getElem hlt, hi⟩⟩)
  simp only [place, List.getElem?_mapIdx, List.getElem?_eq_getElem hlt, Option.map_some,
    Option.some.injEq] at hi
  subst hi
  exact Bounds.upright_around (hsizes _ (List.getElem_mem hlt)) hnumber.1 hnumber.2

end Component

/-! ### Boxes of members -/

namespace ScopeLayout

section Boxes

variable {α : Type} [Scalar α] {config : GraphConfig α} {sizes : Array (Size α)}
    {shapes : Array (EdgeShape α)} {s : Scope} {parts : List (Component × ComponentLayout α)}
    {p : Progress α} {named after : Nat}

/-- The members of a part are moved together. -/
lemma exists_offset_addAll (hpairwise : parts.Pairwise fun a b => a.1.members.Disjoint b.1.members)
    (hparts : ∀ part ∈ parts, part.1.members.Nodup ∧ ∀ v ∈ part.1.members, v < p.members.size)
    {part : Component × ComponentLayout α} (hpart : part ∈ parts) :
    ∃ offset, ∀ v m, (v, m) ∈ part.1.members.zip part.2.members →
      (p.addAll config parts).members.getD v ⟨Bounds.zero, 0, 0⟩ = m.translate offset := by
  induction parts generalizing p with
  | nil => exact absurd hpart List.not_mem_nil
  | cons first parts ih =>
      rw [List.pairwise_cons] at hpairwise
      rw [List.forall_mem_cons] at hparts
      have hsize := size_members_add config p first.1 first.2
      rcases List.mem_cons.mp hpart with rfl | hpart
      · refine ⟨p.offset part.2, fun v m hm => ?_⟩
        have hv := (List.of_mem_zip hm).1
        rw [addAll_cons, getD_members_addAll_of_notMem
          (fun other hother hmem => hpairwise.1 other hother hv hmem)]
        exact getD_members_add hparts.1.1 hm (hparts.1.2 v hv) _
      · exact ih hpairwise.2 (by rw [hsize]; exact hparts.2) hpart

/-- The members of a part of a scope are moved together. -/
lemma exists_offset (hsize : sizes.size = s.members.length)
    (hparts : PartsOf config s sizes shapes parts) {part : Component × ComponentLayout α}
    (hpart : part ∈ parts) :
    ∃ offset, ∀ v m, (v, m) ∈ part.1.members.zip part.2.members →
      (ofParts config sizes parts).member v = m.translate offset := by
  exact exists_offset_addAll hparts.pairwise_disjoint (fun _ => hparts.members_start hsize) hpart

/-- A member of a scope is in a part that is laid out, and all members of the part are moved with
it. -/
lemma exists_part_of_member (hs : s.WellFormed) (hsize : sizes.size = s.members.length)
    {l : ScopeLayout α} (h : ofScope config s sizes shapes named = .ok (l, after)) {v : Nat}
    (hv : v < s.members.length) :
    ∃ c ∈ Component.ofScope s, v ∈ c.members ∧
      ∃ (before next : Nat) (k : ComponentLayout α) (offset : Point α),
      c.layout config sizes shapes before = .ok (k, next) ∧
      ∀ (j : Nat) w, c.members[j]? = some w →
        ∃ m : PlacedMember α, k.members[j]? = some m ∧ l.member w = m.translate offset := by
  obtain ⟨parts, hparts, rfl⟩ := exists_parts hs h
  obtain ⟨c, hc, hvc⟩ := Component.exists_of_member hs hv
  obtain ⟨part, hpart, rfl⟩ := hparts.exists_part hc
  obtain ⟨before, next, hlayout⟩ := hparts.layouts part hpart
  obtain ⟨offset, hmoved⟩ := exists_offset hsize hparts hpart
  refine ⟨part.1, hc, hvc, before, next, part.2, offset, hlayout, fun j w hw => ?_⟩
  have hlt : j < part.2.members.length := by
    rw [Component.length_members hs hc hlayout]
    exact (List.getElem?_eq_some_iff.mp hw).1
  have hm := List.getElem?_eq_getElem hlt
  exact ⟨_, hm, hmoved w _ (List.mem_iff_getElem?.mpr ⟨j, List.getElem?_zip_eq_some.mpr ⟨hw, hm⟩⟩)⟩

/-- **The box of a member is around a center**, moved with the part of the member. -/
lemma exists_box (hs : s.WellFormed) (hsize : sizes.size = s.members.length) {l : ScopeLayout α}
    (h : ofScope config s sizes shapes named = .ok (l, after)) {v : Nat}
    (hv : v < s.members.length) :
    ∃ center offset, (l.member v).bounds =
      (Bounds.around center (Component.sizeOf sizes v)).translate offset := by
  obtain ⟨c, hc, hvc, before, _, k, offset, hlayout, hmoved⟩ :=
    exists_part_of_member hs hsize h hv
  obtain ⟨ranking, -, hboxes, -⟩ := Component.exists_follows hs hc hlayout
  obtain ⟨j, hj⟩ := List.mem_iff_getElem?.mp hvc
  obtain ⟨m, hm, hplace⟩ := hmoved j v hj
  have hbounds := hboxes j v hj
  rw [hm, Option.map_some, Option.some.injEq] at hbounds
  refine ⟨(c.routing config sizes shapes before ranking).center j, offset, ?_⟩
  rw [hplace, ← hbounds]
  rfl

end Boxes

/-! ### Parts one behind the other -/

variable {config : GraphConfig Float32} {sizes : Array (Size Float32)}
    {shapes : Array (EdgeShape Float32)} {s : Scope}
    {parts : List (Component × ComponentLayout Float32)} {p : Progress Float32}
    {l : ComponentLayout Float32} {bound : Float32}

/-- The next part begins at a bound or after it, unless that is not a number; heights are
lengths. -/
structure Progress.Reaches (bound : Float32) (p : Progress Float32) : Prop where
  plain : Plain p.cursor
  cursor : IsNumber p.cursor → bound ≤ p.cursor
  height : 0 ≤ p.height
  plainHeight : Plain p.height

lemma reaches_start (sizes : Array (Size Float32)) : (Progress.start sizes).Reaches 0 where
  plain := plain_zero
  cursor _ := Lengths.zero_le_zero
  height := Lengths.zero_le_zero
  plainHeight := plain_zero

/-- One more part takes at least the gap after it. -/
lemma Progress.Reaches.add (h : p.Reaches bound) (hbound : 0 ≤ bound)
    (hgap : 0 ≤ config.componentGap) (hl : l.bounds.Upright) (c : Component) :
    (p.add config c l).Reaches config.componentGap where
  plain := h.plain.add _
  cursor hnumber := by
    obtain ⟨hcursor, hstep⟩ := hnumber.of_add
    have hwidth := hl.width_nonneg hstep.of_add.1
    have hcursor := Lengths.le_trans hbound (h.cursor hcursor)
    exact Lengths.le_trans (le_add_left hwidth hgap)
      (le_add_left hcursor (Lengths.add_nonneg hwidth hgap))
  height := Lengths.max_nonneg _ h.height
  plainHeight := h.plainHeight.max h.height _

lemma Progress.Reaches.addAll (h : p.Reaches bound) (hbound : 0 ≤ bound)
    (hgap : 0 ≤ config.componentGap) (hparts : ∀ part ∈ parts, part.2.bounds.Upright) :
    (p.addAll config parts).Reaches (if parts.isEmpty then bound else config.componentGap) := by
  induction parts generalizing p bound with
  | nil => exact h
  | cons part parts ih =>
      rw [List.forall_mem_cons] at hparts
      have hnext := ih (h.add hbound hgap hparts.1 part.1) hgap hparts.2
      rw [ite_self] at hnext
      exact hnext

/-- **The room of a scope is given by plain lengths** when its width is a number at all, and so are
the sides of the boxes of its members. -/
lemma isRoom_size (hs : s.WellFormed) (hsize : sizes.size = s.members.length)
    (hsizes : ∀ v < s.members.length, 0 ≤ (Component.sizeOf sizes v).width)
    (hlabels : ∀ e ∈ s.edges, Component.labelOf shapes e.edge = none)
    (hgap : 0 ≤ config.componentGap) {named after : Nat} {l : ScopeLayout Float32}
    (h : ofScope config s sizes shapes named = .ok (l, after))
    (hnumbers : ∀ v < s.members.length,
      IsNumber (l.member v).bounds.minX ∧ IsNumber (l.member v).bounds.maxX)
    (hwidth : IsNumber l.size.width) : l.size.IsRoom := by
  obtain ⟨parts, hparts, rfl⟩ := exists_parts hs h
  have hupright : ∀ part ∈ parts, part.2.bounds.Upright := by
    intro part hpart
    have hc := hparts.mem_ofScope hpart
    obtain ⟨_, _, hlayout⟩ := hparts.layouts part hpart
    obtain ⟨offset, hmoved⟩ := exists_offset hsize hparts hpart
    refine Component.upright_layout hs hc (fun v hv => hsizes v (Component.lt_of_mem hc hv))
      (fun e he => hlabels e (Component.mem_edges_of_mem hc he)) hlayout fun v m hm => ?_
    have hnumber := hnumbers v (Component.lt_of_mem hc (List.of_mem_zip hm).1)
    rw [hmoved v m hm] at hnumber
    exact ⟨hnumber.1.of_add.1, hnumber.2.of_add.1⟩
  have hreaches := (reaches_start sizes).addAll Lengths.zero_le_zero hgap hupright
  refine ⟨?_, ?_, hreaches.height, hreaches.plainHeight⟩
  · rw [ofParts] at hwidth ⊢
    cases hempty : parts.isEmpty with
    | true => exact Lengths.zero_le_zero
    | false =>
        rw [hempty] at hreaches
        simp only [hempty] at hwidth ⊢
        exact sub_nonneg (hreaches.cursor hwidth.of_sub.1) hwidth
  · rw [ofParts]
    cases hempty : parts.isEmpty with
    | true => exact plain_zero
    | false => exact hreaches.plain.sub _

end ScopeLayout

end Graph

end Drafting
