import Mathlib
import Drafting.Proofs.Graph.Enclosure
import Drafting.Proofs.Graph.Places
import Drafting.Proofs.Graph.ScopeBoxes

/-!
The boxes of elements in the axes of the layout.

* `Frame.Fits`: an interior fits into its frame, and the head of the frame lies before the interior.
* `Interiors.fitted`: every scope is laid out without overlaps, from the innermost outward.
* `Placed.box_eq`: where the layout of its scope has moved an element.
* `Placed.encloses_box`: a frame encloses everything that lies in its cluster.
* `Placed.clear_box`: elements neither of which lies in the other are clear of each other.
* `Placed.apart_head`: the head of a frame overlaps nothing that lies in its cluster.
-/

namespace Drafting.Graph

/-! ### Frames -/

namespace Frame

/-- The head of a frame, from its corner. -/
def headBox (d : Direction) (padding : Rat) (head : Size Rat) : Bounds Rat :=
  Bounds.ofCorner ⟨padding, padding⟩ (head.orient d)

/-- The interior in a frame, from its corner. -/
def interiorBox (f : Frame Rat) (interior : Size Rat) : Bounds Rat :=
  Bounds.ofCorner f.inset interior

/-- An interior and a head fit into a frame, and the head lies before the interior. -/
structure Fits (f : Frame Rat) (headBox interiorBox : Bounds Rat) : Prop where
  interior : (Bounds.ofCorner Point.origin f.size).Encloses interiorBox
  head : (Bounds.ofCorner Point.origin f.size).Encloses headBox
  apart : headBox.Apart interiorBox

lemma headRoom_nonneg {padding : Rat} (hpadding : 0 ≤ padding) (extent : Rat) :
    0 ≤ headRoom padding extent ∧ extent ≤ headRoom padding extent := by
  rw [headRoom]
  split
  · exact ⟨by linarith, by linarith⟩
  · exact ⟨le_refl _, by linarith⟩

/-- The frame around an interior has room for the interior and for the head. -/
lemma fits_around (d : Direction) {padding : Rat} (hpadding : 0 ≤ padding) (head : Size Rat)
    {interior : Size Rat} (hinterior : 0 ≤ interior.width ∧ 0 ≤ interior.height) :
    (around d padding head interior).Fits (headBox d padding head)
      ((around d padding head interior).interiorBox interior) := by
  cases d with
  | topToBottom =>
      obtain ⟨hroom, hle⟩ := headRoom_nonneg hpadding head.height
      have hwide := le_max_left interior.width head.width
      have hwide' := le_max_right interior.width head.width
      simp only [around, headBox, interiorBox, Size.orient]
      refine ⟨?_, ?_, Or.inr (Or.inr (Or.inl ?_))⟩
      · constructor <;> simp only [Bounds.ofCorner, Point.origin] <;> linarith
      · constructor <;> simp only [Bounds.ofCorner, Point.origin] <;> linarith
      · simp only [Bounds.ofCorner]
        linarith
  | leftToRight =>
      obtain ⟨hroom, hle⟩ := headRoom_nonneg hpadding head.height
      have hhigh := le_max_left interior.height head.width
      have hhigh' := le_max_right interior.height head.width
      simp only [around, headBox, interiorBox, Size.orient, Size.swap]
      refine ⟨?_, ?_, Or.inl ?_⟩
      · constructor <;> simp only [Bounds.ofCorner, Point.origin] <;> linarith
      · constructor <;> simp only [Bounds.ofCorner, Point.origin] <;> linarith
      · simp only [Bounds.ofCorner]
        linarith

/-- A frame is not smaller than nothing. -/
lemma size_around_nonneg (d : Direction) {padding : Rat} (hpadding : 0 ≤ padding) (head : Size Rat)
    {interior : Size Rat} (hinterior : 0 ≤ interior.width ∧ 0 ≤ interior.height) :
    0 ≤ (around d padding head interior).size.width ∧
    0 ≤ (around d padding head interior).size.height := by
  obtain ⟨hminX, hmaxX, hminY, hmaxY⟩ := (fits_around d hpadding head hinterior).interior
  simp only [Bounds.ofCorner, interiorBox, Point.origin] at hminX hmaxX hminY hmaxY
  exact ⟨by linarith, by linarith⟩

end Frame

/-! ### Interiors -/

namespace Interiors

variable {config : GraphConfig Rat} {shapes : Shapes Rat} {c : Containment Rat} {i : Interiors Rat}

/-- **Every scope is laid out without overlaps.** -/
lemma fitted (hconfig : config.Sensible) (hshapes : Component.NonnegSizes shapes.nodes)
    (hc : c.Sound) (hsettled : ∀ x, c.IsContainer x → Settled config shapes c i x) {x : Option Nat}
    (hx : c.IsContainer x) :
    ScopeLayout.Fitted (c.scopeOf x) (i.sizes shapes (c.scopeOf x)) (i.scope x) := by
  refine hc.inward
    (P := fun x => ScopeLayout.Fitted (c.scopeOf x) (i.sizes shapes (c.scopeOf x)) (i.scope x))
    (fun x hx hinner => ?_) hx
  -- the sizes of clusters are those of frames around interiors that are laid out already
  have hsizes : Component.NonnegSizes (i.sizes shapes (c.scopeOf x)) := by
    intro size hsize
    rw [sizes, List.mem_toArray, List.mem_map] at hsize
    obtain ⟨m, hm, rfl⟩ := hsize
    cases m with
    | node n => exact Component.sizeOf_nonneg hshapes n
    | cluster k =>
        have hk : c.IsContainer (some k) :=
          Containment.isContainer_some (Containment.mem_members.mp hm).1
        have hfit := hinner k hm
        rw [memberSize, (hsettled _ hk).frame k rfl]
        exact Frame.size_around_nonneg _ hconfig.clusterPadding _ ⟨hfit.width, hfit.height⟩
  obtain ⟨named, after, hok⟩ := (hsettled x hx).scope
  exact ScopeLayout.fitted_of_layout hconfig (c.wellFormed_scopeOf x) hsizes (by simp [sizes]) hok

end Interiors

/-! ### Places -/

namespace Placed

variable {config : GraphConfig Rat} {shapes : Shapes Rat} {c : Containment Rat} {i : Interiors Rat}
    {p : Placed Rat}

/-- The box of an element. -/
def box (p : Placed Rat) : Member → Bounds Rat
  | .node n => (p.node n).bounds
  | .cluster k => p.cluster k

lemma Holds.box {m : Member} {place : PlacedMember Rat} (h : p.Holds m place) :
    p.box m = place.bounds := by
  cases m with
  | node n => exact congrArg PlacedMember.bounds h
  | cluster k => exact h

/-- Elements that are laid out and moved into their frames. -/
structure Arranged (config : GraphConfig Rat) (shapes : Shapes Rat) (c : Containment Rat)
    (i : Interiors Rat) (p : Placed Rat) : Prop where
  sensible : config.Sensible
  nonneg : Component.NonnegSizes shapes.nodes
  sound : c.Sound
  settled : ∀ x, c.IsContainer x → Interiors.Settled config shapes c i x
  housed : ∀ x, c.IsContainer x → Housed c i p x

lemma Arranged.fitted (h : Arranged config shapes c i p) {x : Option Nat} (hx : c.IsContainer x) :
    ScopeLayout.Fitted (c.scopeOf x) (i.sizes shapes (c.scopeOf x)) (i.scope x) :=
  Interiors.fitted h.sensible h.nonneg h.sound h.settled hx

/-- The position of an element in its scope, and where the scope has moved it. -/
lemma Arranged.box_eq (h : Arranged config shapes c i p) {m : Member} (hm : c.Declares m) :
    ∃ j, (c.scopeOf (c.containerOf m)).members[j]? = some m ∧
      p.box m = (ScopeLayout.boxIn (i.scope (c.containerOf m)).members j).translate
        (p.origin i (c.containerOf m)) := by
  set x := c.containerOf m with hx
  have hcontainer : c.IsContainer x := h.sound.isContainer_containerOf m
  obtain ⟨j, hj⟩ := List.mem_iff_getElem?.mp (Containment.mem_members.mpr ⟨hm, hx.symm⟩)
  have hlt : j < (i.scope x).members.size := by
    rw [(h.fitted hcontainer).size]
    exact (List.getElem?_eq_some_iff.mp hj).1
  refine ⟨j, hj, ?_⟩
  have hmem : (m, (i.scope x).members[j]) ∈ interior c i x := by
    refine List.mem_iff_getElem?.mpr ⟨j, List.getElem?_zip_eq_some.mpr ⟨hj, ?_⟩⟩
    simp [hlt]
  rw [((h.housed x hcontainer).members m _ hmem).box, ScopeLayout.boxIn,
    Array.getD_eq_getD_getElem?, Array.getElem?_eq_getElem hlt]
  rfl

/-- Different elements of a scope are clear of each other. -/
lemma Arranged.clear_siblings (h : Arranged config shapes c i p) {m n : Member} (hm : c.Declares m)
    (hn : c.Declares n) (hne : m ≠ n) (hcontainer : c.containerOf m = c.containerOf n) :
    (p.box m).Clear (p.box n) := by
  obtain ⟨j, hj, hbox⟩ := h.box_eq hm
  obtain ⟨j', hj', hbox'⟩ := h.box_eq hn
  rw [← hcontainer] at hj' hbox'
  have hlt := (List.getElem?_eq_some_iff.mp hj).1
  have hlt' := (List.getElem?_eq_some_iff.mp hj').1
  have hjj : j ≠ j' := by
    rintro rfl
    exact hne (Option.some.inj (hj.symm.trans hj'))
  rw [hbox, hbox', Bounds.clear_translate]
  exact (h.fitted (h.sound.isContainer_containerOf m)).clear j hlt j' hlt' hjj

/-- The frame of a cluster has its size. -/
lemma Arranged.cluster_eq (h : Arranged config shapes c i p) {k : Nat}
    (hk : c.Declares (.cluster k)) :
    p.cluster k = (Bounds.ofCorner Point.origin (i.frame k).size).translate
      (p.cluster k).minPoint := by
  obtain ⟨j, hj, hbox⟩ := h.box_eq hk
  have hlt := (List.getElem?_eq_some_iff.mp hj).1
  have hsized := (h.fitted (h.sound.isContainer_containerOf _)).sized j hlt
  have hsize : Component.sizeOf (i.sizes shapes (c.scopeOf (c.containerOf (.cluster k)))) j =
      (i.frame k).size := by
    rw [Component.sizeOf, Interiors.sizes, Array.getD_eq_getD_getElem?, List.getElem?_toArray,
      List.getElem?_map, hj]
    rfl
  have hcluster : p.cluster k = _ := hbox
  have hwidth : (p.cluster k).width = (i.frame k).size.width := by
    rw [hcluster, Bounds.width_translate, hsized.width, hsize]
  have hheight : (p.cluster k).height = (i.frame k).size.height := by
    rw [hcluster, Bounds.height_translate, hsized.height, hsize]
  simp only [Bounds.translate, Bounds.ofCorner, Bounds.minPoint, Point.origin, ← hwidth, ← hheight,
    Bounds.width, Bounds.height, zero_add, sub_add_cancel]

/-- What a frame holds: an interior and a head, from the corner of the frame. -/
lemma Arranged.frame_fits (h : Arranged config shapes c i p) {k : Nat}
    (hk : c.Declares (.cluster k)) :
    (i.frame k).Fits
      (Frame.headBox config.direction config.clusterPadding (shapes.heads.getD k Size.zero))
      ((i.frame k).interiorBox (i.scope (some k)).size) := by
  have hcontainer := Containment.isContainer_some hk
  have hfit := h.fitted hcontainer
  rw [(h.settled _ hcontainer).frame k rfl]
  exact Frame.fits_around _ h.sensible.clusterPadding _ ⟨hfit.width, hfit.height⟩

/-- The interior of a frame is the room of the scope that is moved there. -/
lemma interiorBox_eq (i : Interiors Rat) (p : Placed Rat) (k : Nat) :
    ((i.frame k).interiorBox (i.scope (some k)).size).translate (p.cluster k).minPoint =
      (Bounds.ofCorner Point.origin (i.scope (some k)).size).translate (p.origin i (some k)) := by
  simp only [Frame.interiorBox, Bounds.ofCorner, Bounds.translate, origin, Point.add, Point.origin,
    Bounds.mk.injEq]
  refine ⟨?_, ?_, ?_, ?_⟩ <;> ring

/-- An element that lies in a cluster lies in the interior of its frame. -/
lemma Arranged.encloses_interior (h : Arranged config shapes c i p) {m : Member} (hm : c.Declares m)
    {k : Nat} (hk : c.containerOf m = some k) :
    (((i.frame k).interiorBox (i.scope (some k)).size).translate (p.cluster k).minPoint).Encloses
      (p.box m) := by
  obtain ⟨j, hj, hbox⟩ := h.box_eq hm
  have hlt := (List.getElem?_eq_some_iff.mp hj).1
  have hwithin := (h.fitted (h.sound.isContainer_containerOf m)).within j hlt
  rw [hbox, hk]
  rw [hk] at hwithin
  rw [interiorBox_eq, Bounds.encloses_translate]
  exact hwithin

/-- A frame encloses the room of its interior. -/
lemma Arranged.encloses_scope (h : Arranged config shapes c i p) {k : Nat}
    (hk : c.Declares (.cluster k)) :
    (p.cluster k).Encloses
      ((Bounds.ofCorner Point.origin (i.scope (some k)).size).translate (p.origin i (some k))) := by
  have hinterior := (Bounds.encloses_translate (p.cluster k).minPoint).mpr
    (h.frame_fits hk).interior
  rw [← h.cluster_eq hk, interiorBox_eq] at hinterior
  exact hinterior

/-- A frame encloses what lies in its interior. -/
lemma Arranged.encloses_of_liesIn (h : Arranged config shapes c i p) {m n : Member}
    (hm : c.Declares m) (hmn : c.LiesIn m n) : (p.box n).Encloses (p.box m) := by
  obtain ⟨k, rfl, hk⟩ := hmn
  have hinterior := h.encloses_interior hm hk
  rw [interiorBox_eq] at hinterior
  exact (h.encloses_scope (h.sound.isContainer_containerOf m k hk)).trans hinterior

/-- What elements lie in is declared. -/
lemma Arranged.declares_of_transGen (h : Arranged config shapes c i p) {m n : Member}
    (hmn : Relation.TransGen c.LiesIn m n) : c.Declares n := by
  obtain ⟨x, -, k, rfl, hk⟩ := Relation.TransGen.tail'_iff.mp hmn
  exact h.sound.isContainer_containerOf x k hk

/-- **A frame encloses everything that lies in its cluster.** -/
lemma Arranged.encloses_box (h : Arranged config shapes c i p) {m n : Member} (hm : c.Declares m)
    (hmn : Relation.TransGen c.LiesIn m n) : (p.box n).Encloses (p.box m) := by
  induction hmn with
  | single hstep => exact h.encloses_of_liesIn hm hstep
  | tail hmn hstep ih => exact (h.encloses_of_liesIn (h.declares_of_transGen hmn) hstep).trans ih

/-- **Elements neither of which lies in the other are clear of each other.** -/
lemma Arranged.clear_box (h : Arranged config shapes c i p) {m n : Member} (hm : c.Declares m)
    (hn : c.Declares n) (hmn : c.Unrelated m n) : (p.box m).Clear (p.box n) := by
  refine h.sound.unrelated_induction (R := fun m n => (p.box m).Clear (p.box n))
    (fun _ _ => Bounds.Clear.symm)
    (fun m n hm hn hne hcontainer => h.clear_siblings hm hn hne hcontainer) ?_ hm hn hmn
  intro m n n' hlies hn hclear
  exact ((h.encloses_of_liesIn hn hlies).clear hclear.symm).symm

/-- The head of a frame. -/
def headBox (config : GraphConfig Rat) (shapes : Shapes Rat) (p : Placed Rat) (k : Nat) :
    Bounds Rat :=
  (Frame.headBox config.direction config.clusterPadding (shapes.heads.getD k Size.zero)).translate
    (p.cluster k).minPoint

/-- A frame encloses its head. -/
lemma Arranged.encloses_head (h : Arranged config shapes c i p) {k : Nat}
    (hk : c.Declares (.cluster k)) :
    (p.cluster k).Encloses (headBox config shapes p k) := by
  have hhead := (Bounds.encloses_translate (p.cluster k).minPoint).mpr (h.frame_fits hk).head
  rw [← h.cluster_eq hk] at hhead
  exact hhead

/-- **The head of a frame overlaps nothing that lies in its cluster.** -/
lemma Arranged.apart_head (h : Arranged config shapes c i p) {m : Member} (hm : c.Declares m)
    {k : Nat} (hmk : Relation.TransGen c.LiesIn m (.cluster k)) :
    (headBox config shapes p k).Apart (p.box m) := by
  obtain ⟨n, hmn, j, hj, hn⟩ := Relation.TransGen.tail'_iff.mp hmk
  obtain rfl := Member.cluster.inj hj
  have hfits := h.frame_fits (h.declares_of_transGen hmk)
  have hapart := (Bounds.apart_translate (p.cluster k).minPoint).mpr hfits.apart
  -- what lies in the cluster lies in an element of its interior
  have hinside : (p.box n).Encloses (p.box m) ∧ c.Declares n := by
    rcases Relation.reflTransGen_iff_eq_or_transGen.mp hmn with rfl | hmn
    · exact ⟨Bounds.Encloses.refl _, hm⟩
    · exact ⟨h.encloses_box hm hmn, h.declares_of_transGen hmn⟩
  have hencloses := (h.encloses_interior hinside.2 hn).trans hinside.1
  exact (hencloses.apart hapart.symm).symm

end Placed

end Drafting.Graph
