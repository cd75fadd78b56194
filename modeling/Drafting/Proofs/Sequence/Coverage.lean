import Mathlib
import Drafting.Proofs.Geometry.Boxes
import Drafting.Proofs.Sequence.Frames
import Drafting.Proofs.Sequence.Outcome

/-!
What the box around a sequence diagram covers.

The box is the hull of some of the boxes that are drawn; the others lie in one of these.  Only the
texts of sections need not: a frame is made wide enough for its operator and its guard, but not for
its sections.

* `Layout.elementBoxes`, `Layout.sectionBoxes`: all boxes that are drawn, the
  texts of sections apart.
* `Layout.CoveredBy`, `Layout.coveredBy_ofModel`: the box around a diagram encloses them all, and
  the texts of sections but to the right.
* `Sheet.encloses_content`, `Diagram.drawing_covers_all_but_wide_sections`: so does the sheet.
* `Diagram.section_sticks_out`: a text of a section that neither of them encloses.
-/

namespace Drafting.Sequence

/-! ### Boxes that are drawn -/

section Boxes

variable {α : Type} [Scalar α]

/-- The box of a piece of a lifeline. -/
def LifelineSegment.box (l : LifelineSegment α) : Bounds α :=
  Bounds.ofCorners ⟨l.x, l.startY⟩ ⟨l.x, l.endY⟩

/-- The boxes that are drawn for a participant. -/
def ParticipantGeometry.boxes (p : ParticipantGeometry α) : List (Bounds α) :=
  p.header :: p.label.bounds ::
    (p.footer.toList ++ p.destroyMark.toList ++ p.lifeline.map (·.box))

/-- The boxes that are drawn for an event; a point is a box without extent. -/
def EventShape.boxes : EventShape α → List (Bounds α)
  | .message m =>
    m.points.map (Bounds.around · Size.zero) ++ m.label.toList.map (·.bounds)
  | .note n => [n.bounds, n.label.bounds]
  | .divider b => b.bounds :: b.label.toList.map (·.bounds)
  | .delay b => b.bounds :: b.label.toList.map (·.bounds)
  | _ => []

omit [Scalar α] in
/-- The boxes that are drawn for a block, but for its sections. -/
def BlockGeometry.boxes (b : BlockGeometry α) : List (Bounds α) :=
  b.bounds :: b.tab.bounds :: b.label.toList.map (·.bounds)

omit [Scalar α] in
/-- The texts of the sections of a block. -/
def BlockGeometry.sectionBoxes (b : BlockGeometry α) : List (Bounds α) :=
  b.sections.flatMap fun part => part.label.toList.map (·.bounds)

/-- All boxes that are drawn, but for the texts of sections. -/
def Layout.elementBoxes (l : Layout α) : List (Bounds α) :=
  l.participants.flatMap (·.boxes) ++ l.activations.map (·.bounds) ++
    l.blocks.flatMap (·.boxes) ++ l.events.flatMap (·.shape.boxes)

omit [Scalar α] in
/-- The texts of all sections. -/
def Layout.sectionBoxes (l : Layout α) : List (Bounds α) := l.blocks.flatMap (·.sectionBoxes)

end Boxes

/-! ### Moving -/

section Moving

variable (v : Point Rat)

lemma box_translate (l : LifelineSegment Rat) : (l.translate v).box = l.box.translate v := by
  simp only [LifelineSegment.box, LifelineSegment.translate, Bounds.ofCorners, Bounds.translate,
    min_add_add_right, max_add_add_right]

lemma participantBoxes_translate (p : ParticipantGeometry Rat) :
    (p.translate v).boxes = p.boxes.map (·.translate v) := by
  simp only [ParticipantGeometry.boxes, ParticipantGeometry.translate, TextBox.translate,
    List.map_cons, List.map_append, List.map_map, Function.comp_def, box_translate]
  cases p.footer <;> cases p.destroyMark <;> rfl

lemma textBoxes_translate (label : Option (TextBox Rat)) :
    (label.map (·.translate v)).toList.map (·.bounds) =
      (label.toList.map (·.bounds)).map (·.translate v) := by
  cases label <;> rfl

lemma eventBoxes_translate (shape : EventShape Rat) :
    (shape.translate v).boxes = shape.boxes.map (·.translate v) := by
  cases shape with
  | message m =>
      simp only [EventShape.translate, EventShape.boxes, MessageGeometry.translate,
        textBoxes_translate, List.map_append, List.map_map, Function.comp_def, Bounds.around_add]
  | note n => rfl
  | divider b =>
      simp only [EventShape.translate, EventShape.boxes, BandGeometry.translate,
        textBoxes_translate, List.map_cons]
  | delay b =>
      simp only [EventShape.translate, EventShape.boxes, BandGeometry.translate,
        textBoxes_translate, List.map_cons]
  | _ => rfl

lemma blockBoxes_translate (b : BlockGeometry Rat) :
    (b.translate v).boxes = b.boxes.map (·.translate v) := by
  simp only [BlockGeometry.boxes, BlockGeometry.translate, textBoxes_translate, List.map_cons]
  rfl

lemma elementBoxes_translate (l : Layout Rat) :
    (l.translate v).elementBoxes = l.elementBoxes.map (·.translate v) := by
  simp only [Layout.elementBoxes, Layout.translate, List.flatMap_map, participantBoxes_translate,
    blockBoxes_translate, EventGeometry.translate, eventBoxes_translate, List.map_append,
    List.map_flatMap, List.map_map]
  rfl

lemma sectionBoxes_translate (l : Layout Rat) :
    (l.translate v).sectionBoxes = l.sectionBoxes.map (·.translate v) := by
  simp only [Layout.sectionBoxes, Layout.translate, BlockGeometry.sectionBoxes,
    BlockGeometry.translate, SectionGeometry.translate, List.flatMap_map, textBoxes_translate,
    List.map_flatMap]

end Moving

/-! ### The box around a diagram -/

/-- The box around a diagram covers the boxes it is the hull of. -/
lemma Layout.contentBounds_encloses {l : Layout Rat} {b : Bounds Rat} (h : b ∈ l.boxes) :
    l.contentBounds.Encloses b := by
  rw [contentBounds]
  cases hboxes : l.boxes with
  | nil =>
      rw [hboxes] at h
      exact absurd h List.not_mem_nil
  | cons first rest =>
      rw [hboxes] at h
      obtain ⟨hfirst, hrest⟩ := Bounds.encloses_foldl_merge first rest
      rcases List.mem_cons.mp h with rfl | h
      · exact hfirst
      · exact hrest b h

lemma Layout.encloses_pathBounds {points : List (Point Rat)} {p : Point Rat} (h : p ∈ points) :
    ∃ b ∈ pathBounds points, b.Encloses (Bounds.around p Size.zero) := by
  cases points with
  | nil => exact absurd h List.not_mem_nil
  | cons first rest =>
      obtain ⟨hfirst, hrest⟩ := Bounds.encloses_foldl_merge (Bounds.around first Size.zero)
        (rest.map (Bounds.around · Size.zero))
      rw [List.foldl_map] at hfirst hrest
      refine ⟨_, List.mem_singleton_self _, ?_⟩
      rcases List.mem_cons.mp h with rfl | h
      · exact hfirst
      · exact hrest _ (List.mem_map_of_mem h)

/-! ### Texts in boxes -/

namespace Assembly

variable {a : Assembly Rat}

/-- The text of a participant lies in its header. -/
lemma header_encloses_label {c : Column Rat} {padding : Rat} (hpadding : 0 ≤ padding)
    (hheader : c.header = c.label.size.pad (Insets.uniform padding)) (delays : List (Rat × Rat))
    (column : Nat) :
    (a.participant delays column c).header.Encloses
      (a.participant delays column c).label.bounds := by
  have hsize : (a.participant delays column c).header.width = c.header.width ∧
      (a.participant delays column c).header.height = c.header.height := by
    simp only [participant]
    split <;>
    · simp only [Bounds.width, Bounds.height, Bounds.around, Bounds.ofCorner, Scalar.half]
      exact ⟨by ring, by ring⟩
  refine Bounds.encloses_around_center ?_ ?_
  · rw [hsize.1, hheader]
    simp only [Size.pad, Insets.uniform]
    linarith
  · rw [hsize.2, hheader]
    simp only [Size.pad, Insets.uniform]
    linarith

/-- A note is as wide as it has to be. -/
lemma width_le_noteSides (n : NoteSlot Rat) :
    (a.noteSides n).1 + n.size.width ≤ (a.noteSides n).2 := by
  rw [noteSides]
  cases n.anchor with
  | leftOf column => exact le_refl _
  | rightOf column => exact le_refl _
  | spanning first last =>
      dsimp only
      by_cases hspan : first ≠ last
      · rw [if_pos hspan]
        exact le_max_right _ _
      · rw [if_neg hspan]
  | across => exact le_max_right _ _

/-- The text of a note lies in its box. -/
lemma note_encloses_label {n : NoteSlot Rat} (h : (SlotKind.note n).NoteFits) (y : Rat) :
    (a.note y n).bounds.Encloses (a.note y n).label.bounds := by
  have hsides := width_le_noteSides (a := a) n
  obtain ⟨hwidth, hheight⟩ := h
  refine Bounds.encloses_around_center ?_ ?_
  · simp only [note, Bounds.ofCorners, Bounds.width]
    have hleft := min_le_left (a.noteSides n).1 (a.noteSides n).2
    have hright := le_max_right (a.noteSides n).1 (a.noteSides n).2
    linarith
  · simp only [note, Bounds.ofCorners, Bounds.height]
    have htop := min_le_left y (y + n.size.height)
    have hbottom := le_max_right y (y + n.size.height)
    linarith

lemma event_encloses_label {slot : Slot Rat} (h : slot.kind.NoteFits)
    (bars : List (Nat × ActivationGeometry Rat)) (index : Nat) {n : NoteGeometry Rat}
    (hn : (a.event bars index slot).shape = .note n) : n.bounds.Encloses n.label.bounds := by
  rw [event] at hn
  cases hkind : slot.kind with
  | note text =>
      simp only [hkind, EventShape.note.injEq] at hn
      rw [hkind] at h
      rw [← hn]
      exact note_encloses_label h slot.y
  | _ => simp [hkind] at hn

/-- The width that a frame needs for its operator and its guard. -/
def needed (a : Assembly Rat) (span : BlockSpan Rat) : Rat :=
  span.tab.size.width + 2 * a.distances.blockPadding +
    match span.label with
    | some text => text.size.width + 2 * a.distances.blockPadding
    | none => 0

lemma needed_le_ownRange (span : BlockSpan Rat) :
    (a.ownRange span).1 + a.needed span ≤ (a.ownRange span).2 := by
  rw [ownRange, needed]
  cases span.columns <;> cases span.label <;> exact le_max_right _ _

/-- A range that takes in others at a distance reaches around its own extent and all of them. -/
lemma foldl_widen (indent : Rat) (inner : List (Rat × Rat)) (range : Rat × Rat) :
    let wide := inner.foldl (fun (range : Rat × Rat) (child : Rat × Rat) =>
      (min range.1 (child.1 - indent), max range.2 (child.2 + indent))) range
    (wide.1 ≤ range.1 ∧ range.2 ≤ wide.2) ∧
      ∀ child ∈ inner, wide.1 + indent ≤ child.1 ∧ child.2 + indent ≤ wide.2 := by
  induction inner generalizing range with
  | nil => exact ⟨⟨le_refl _, le_refl _⟩, fun _ h => absurd h List.not_mem_nil⟩
  | cons first inner ih =>
      obtain ⟨⟨hleft, hright⟩, hinner⟩ :=
        ih (min range.1 (first.1 - indent), max range.2 (first.2 + indent))
      refine ⟨⟨hleft.trans (min_le_left _ _), (le_max_left _ _).trans hright⟩, ?_⟩
      rw [List.forall_mem_cons]
      refine ⟨⟨?_, (le_max_right _ _).trans hright⟩, hinner⟩
      exact le_sub_iff_add_le.mp (hleft.trans (min_le_right _ _))

/-- Frames are wide enough for their operators and guards. -/
lemma needed_le_blockRanges (index : Nat) (spans : List (BlockSpan Rat)) :
    ∀ entry ∈ spans.zip (a.blockRanges index spans),
      entry.2.1 + a.needed entry.1 ≤ entry.2.2 := by
  induction spans generalizing index with
  | nil => exact fun _ h => absurd h List.not_mem_nil
  | cons span spans ih =>
      rw [blockRanges, List.zip_cons_cons, List.forall_mem_cons]
      refine ⟨?_, ih (index + 1)⟩
      -- taking in another frame only widens this one
      obtain ⟨⟨hleft, hright⟩, -⟩ := foldl_widen a.distances.blockIndent
        (((spans.zip (a.blockRanges (index + 1) spans)).filter
          fun (b, _) => b.parent == some index).map (·.2)) (a.ownRange span)
      have hown := needed_le_ownRange (a := a) span
      dsimp only
      linarith

section Frame

variable {span : BlockSpan Rat} {range : Rat × Rat}

lemma block_bounds_encloses {b : Bounds Rat} (hminX : range.1 ≤ b.minX) (hmaxX : b.maxX ≤ range.2)
    (hminY : span.top ≤ b.minY) (hmaxY : b.maxY ≤ span.bottom) :
    (a.block span range).bounds.Encloses b :=
  ⟨(min_le_left _ _).trans hminX, hmaxX.trans (le_max_right _ _), (min_le_left _ _).trans hminY,
    hmaxY.trans (le_max_right _ _)⟩

/-- What is not higher than the head of a block lies in its frame when it is centered there. -/
lemma block_encloses_head (hfits : span.FitsAbove a.setting span.bottom) {x : Rat} {size : Size Rat}
    (hx : range.1 ≤ x) (hwidth : x + size.width ≤ range.2)
    (hheight : size.height ≤ a.blockHeader span) :
    (a.block span range).bounds.Encloses (Bounds.ofCorner
      ⟨x, span.top + Scalar.half (a.blockHeader span - size.height)⟩ size) := by
  have hhead : span.top + a.blockHeader span ≤ span.bottom := hfits.head
  refine block_bounds_encloses hx hwidth ?_ ?_
  · simp only [Bounds.ofCorner, Scalar.half]
    linarith
  · simp only [Bounds.ofCorner, Scalar.half]
    linarith

/-- The texts of the operator and of the guard of a block lie in its frame. -/
lemma block_encloses_boxes (hpadding : 0 ≤ a.distances.blockPadding)
    (hfits : span.FitsAbove a.setting span.bottom) (hrange : range.1 + a.needed span ≤ range.2) :
    ∀ b ∈ (a.block span range).boxes, (a.block span range).bounds.Encloses b := by
  have htab := hfits.tab
  have hlabel := hfits.label
  have hlabelHeight : MeasuredText.heightOf span.label ≤ a.blockHeader span := le_max_right _ _
  rw [needed] at hrange
  simp only [BlockGeometry.boxes, List.forall_mem_cons]
  cases htext : span.label with
  | none =>
      simp only [htext] at hrange
      refine ⟨Bounds.Encloses.refl _, block_encloses_head hfits ?_ ?_ ?_, ?_⟩
      · linarith
      · linarith
      · exact (le_max_right _ _).trans (le_max_left _ _)
      · simp [block, htext]
  | some text =>
      rw [htext] at hlabel hlabelHeight
      simp only [htext] at hrange
      simp only [MeasuredText.widthOf] at hlabel
      refine ⟨Bounds.Encloses.refl _, block_encloses_head hfits ?_ ?_ ?_, ?_⟩
      · linarith
      · linarith
      · exact (le_max_right _ _).trans (le_max_left _ _)
      · simp only [block, htext, Option.map_some, Option.toList_some, List.map_cons, List.map_nil,
          List.forall_mem_singleton]
        refine block_encloses_head hfits ?_ ?_ hlabelHeight
        · simp only [MeasuredText.placeAt, Bounds.ofCorner]
          linarith
        · simp only [MeasuredText.placeAt, Bounds.ofCorner]
          linarith

/-- The texts of the sections of a block lie in its frame but to the right. -/
lemma block_encloses_sections (hpadding : 0 ≤ a.distances.blockPadding)
    (hfits : span.FitsAbove a.setting span.bottom) :
    ∀ b ∈ (a.block span range).sectionBoxes, (a.block span range).bounds.EnclosesLeft b := by
  simp only [BlockGeometry.sectionBoxes, block, List.flatMap_map, List.mem_flatMap]
  rintro b ⟨part, hpart, hb⟩
  obtain ⟨htop, hbottom⟩ := hfits.sections part hpart
  cases htext : part.label with
  | none => simp [htext] at hb
  | some text =>
      simp only [htext, Option.map_some, Option.toList_some, List.map_cons, List.map_nil,
        List.mem_singleton] at hb
      rw [htext] at hbottom
      subst hb
      refine ⟨(min_le_left _ _).trans ?_, (min_le_left _ _).trans htop,
        hbottom.trans (le_max_right _ _)⟩
      exact le_add_of_nonneg_right hpadding

end Frame

end Assembly

/-! ### Diagrams -/

/-- A box covers a diagram: all that is drawn, but for texts of sections that are too wide. -/
structure Layout.CoveredBy (l : Layout Rat) (box : Bounds Rat) : Prop where
  elements : ∀ b ∈ l.elementBoxes, box.Encloses b
  sections : ∀ b ∈ l.sectionBoxes, box.EnclosesLeft b

lemma Layout.CoveredBy.mono {l : Layout Rat} {box outer : Bounds Rat} (h : l.CoveredBy box)
    (houter : outer.Encloses box) : l.CoveredBy outer :=
  ⟨fun b hb => houter.trans (h.elements b hb), fun b hb => houter.trans_left (h.sections b hb)⟩

lemma Layout.CoveredBy.translate {l : Layout Rat} {box : Bounds Rat} (h : l.CoveredBy box)
    (v : Point Rat) : (l.translate v).CoveredBy (box.translate v) := by
  constructor
  · rw [elementBoxes_translate, List.forall_mem_map]
    exact fun b hb => (Bounds.encloses_translate v).mpr (h.elements b hb)
  · rw [sectionBoxes_translate, List.forall_mem_map]
    exact fun b hb => (h.sections b hb).translate v

namespace Layout

/-- The boxes of a participant lie in those that make up the content. -/
lemma encloses_participantBoxes {p : ParticipantGeometry Rat}
    (hlabel : p.header.Encloses p.label.bounds) :
    ∀ b ∈ p.boxes, ∃ c ∈ participantBoxes p, c.Encloses b := by
  simp only [ParticipantGeometry.boxes, List.forall_mem_cons]
  exact ⟨⟨_, List.mem_cons_self, .refl _⟩, ⟨_, List.mem_cons_self, hlabel⟩,
    fun b hb => ⟨b, List.mem_cons_of_mem _ hb, .refl b⟩⟩

/-- The boxes of an event lie in those that make up the content. -/
lemma encloses_eventBoxes {e : EventGeometry Rat}
    (hnote : ∀ n, e.shape = .note n → n.bounds.Encloses n.label.bounds) :
    ∀ b ∈ e.shape.boxes, ∃ c ∈ eventBoxes e, c.Encloses b := by
  intro b hb
  rw [eventBoxes]
  cases hshape : e.shape with
  | message m =>
      simp only [hshape, EventShape.boxes, List.mem_append, List.mem_map] at hb
      rcases hb with ⟨p, hp, rfl⟩ | hb
      · obtain ⟨c, hc, hencloses⟩ := encloses_pathBounds hp
        exact ⟨c, List.mem_append_left _ hc, hencloses⟩
      · exact ⟨b, List.mem_append_right _ (List.mem_map.mpr hb), .refl b⟩
  | note n =>
      simp only [hshape, EventShape.boxes, List.mem_cons, List.not_mem_nil, or_false] at hb
      refine ⟨n.bounds, List.mem_singleton_self _, ?_⟩
      rcases hb with rfl | rfl
      · exact .refl _
      · exact hnote n hshape
  | divider band => exact ⟨b, by simpa only [hshape, EventShape.boxes] using hb, .refl b⟩
  | delay band => exact ⟨b, by simpa only [hshape, EventShape.boxes] using hb, .refl b⟩
  | _ => simp [hshape, EventShape.boxes] at hb

/-- The box around a diagram covers it if texts lie in the boxes they belong to. -/
lemma coveredBy_contentBounds {l : Layout Rat}
    (hparticipant : ∀ p ∈ l.participants, p.header.Encloses p.label.bounds)
    (hblock : ∀ g ∈ l.blocks, (∀ b ∈ g.boxes, g.bounds.Encloses b) ∧
      ∀ b ∈ g.sectionBoxes, g.bounds.EnclosesLeft b)
    (hnote : ∀ e ∈ l.events, ∀ n, e.shape = .note n → n.bounds.Encloses n.label.bounds) :
    l.CoveredBy l.contentBounds := by
  have hframe : ∀ g ∈ l.blocks, l.contentBounds.Encloses g.bounds := by
    intro g hg
    refine contentBounds_encloses ?_
    simp only [boxes, List.mem_append]
    exact .inl (.inr (List.mem_map_of_mem hg))
  constructor
  · intro b hb
    simp only [elementBoxes, List.mem_append, List.mem_flatMap] at hb
    rcases hb with ((⟨p, hp, hb⟩ | hb) | ⟨g, hg, hb⟩) | ⟨e, he, hb⟩
    · obtain ⟨c, hc, hencloses⟩ := encloses_participantBoxes (hparticipant p hp) b hb
      refine (contentBounds_encloses ?_).trans hencloses
      simp only [boxes, List.mem_append, List.mem_flatMap]
      exact .inl (.inl (.inl ⟨p, hp, hc⟩))
    · refine contentBounds_encloses ?_
      simp only [boxes, List.mem_append]
      exact .inl (.inl (.inr hb))
    · exact (hframe g hg).trans ((hblock g hg).1 b hb)
    · obtain ⟨c, hc, hencloses⟩ := encloses_eventBoxes (hnote e he) b hb
      refine (contentBounds_encloses ?_).trans hencloses
      simp only [boxes, List.mem_append, List.mem_flatMap]
      exact .inr ⟨e, he, hc⟩
  · intro b hb
    obtain ⟨g, hg, hb⟩ := List.mem_flatMap.mp hb
    exact (hframe g hg).trans_left ((hblock g hg).2 b hb)

/-- **The box around a diagram covers it.** -/
lemma coveredBy_ofModel {s : Setting Rat} (hvalid : s.config.validate = .ok ())
    (ht : s.MeasuresLengths) {m : Model} {l : Layout Rat} {diagnostics : List (Diagnostic Rat)}
    (h : ofModel s m = .ok (l, diagnostics)) : l.CoveredBy l.contentBounds := by
  have hs := Config.sensible_sequence hvalid
  have hpadding := (Config.paddings_nonneg hvalid).2
  obtain ⟨t, hbuild, hassemble, -⟩ := of_ofModel h
  obtain ⟨rfl, -⟩ := Timeline.build_eq_ok_iff.mp hbuild
  set roster := Roster.ofModel s m with hroster
  set t := Timeline.ofModel s roster m
  rw [assemble] at hassemble
  dsimp only at hassemble
  split at hassemble
  · cases hassemble
  · obtain rfl := Except.ok.inj hassemble
    refine coveredBy_contentBounds ?_ ?_ ?_
    · intro p hp
      obtain ⟨column, hcolumn, rfl⟩ := List.mem_mapIdx.mp hp
      refine Assembly.header_encloses_label hs.participantPadding ?_ _ _
      obtain ⟨participant, -, heq⟩ := List.mem_map.mp (List.getElem_mem hcolumn)
      rw [← heq]
      rfl
    · rw [Assembly.blocks, List.forall_mem_map]
      intro entry hentry
      have hfits : entry.1.FitsAbove s entry.1.bottom := Timeline.blocks_fit hs ht roster m
        (Array.mem_toList_iff.mp (List.of_mem_zip hentry).1)
      exact ⟨Assembly.block_encloses_boxes hpadding hfits
        (Assembly.needed_le_blockRanges 0 _ entry hentry),
        Assembly.block_encloses_sections hpadding hfits⟩
    · intro e he n hn
      obtain ⟨index, hindex, rfl⟩ := List.mem_mapIdx.mp he
      exact Assembly.event_encloses_label
        (Timeline.notes_fit hs roster m _ (List.getElem_mem hindex)) _ _ hn

end Layout

end Drafting.Sequence

namespace Drafting

/-- A sheet covers the content that is moved to its place on it. -/
lemma Sheet.encloses_content (s : Setting Rat) {padding : Rat} (hpadding : 0 ≤ padding)
    (title caption : Option String) (content : Bounds Rat) :
    (around s padding title caption content).bounds.Encloses
      (content.translate (around s padding title caption content).offset) := by
  have hwhole := (Bounds.encloses_foldl_merge content
    (((title.map (titleOver s padding content)).toList ++
      (caption.map (captionUnder s padding content)).toList).map (·.bounds))).1
  rw [List.foldl_map] at hwhole
  obtain ⟨hminX, hmaxX, hminY, hmaxY⟩ := hwhole
  simp only [around]
  refine ⟨?_, ?_, ?_, ?_⟩ <;>
    simp only [Bounds.ofCorner, Bounds.translate, Bounds.size, Bounds.width, Bounds.height,
      Size.pad, Insets.uniform, Point.origin] <;>
    linarith

namespace Diagram

open Drafting.Sequence

/-- **A drawing of a sequence diagram covers it.**  The box around the diagram encloses all that is
drawn, and so does the sheet once the diagram is moved to its place there; only the texts of
sections may stick out to the right. -/
theorem drawing_covers_all_but_wide_sections {s : Setting Rat} (ht : s.MeasuresLengths)
    {title caption : Option String} {m : Sequence.Model} {drawing : Drawing Rat}
    (h : layout s ⟨title, caption, .sequence m⟩ = .ok drawing) :
    ∃ l offset, Sequence.Layout.ofModel s m = .ok (l, drawing.diagnostics) ∧
      l.CoveredBy l.contentBounds ∧
      drawing.sequence? = some (l.translate offset) ∧
      (l.translate offset).CoveredBy drawing.bounds := by
  obtain ⟨hvalid, l, hl, hdrawn, hbounds⟩ := of_layout_sequence h
  have hcovered := Sequence.Layout.coveredBy_ofModel hvalid ht hl
  refine ⟨l, _, hl, hcovered, hdrawn, ?_⟩
  rw [hbounds]
  exact (hcovered.translate _).mono
    (Sheet.encloses_content s (Config.paddings_nonneg hvalid).1 title caption l.contentBounds)

/-- A frame with one section. -/
def choice : Sequence.Model :=
  { participants := [{ id := "A" }]
    events := [.blockStart { kind := "alt" }, .blockSection (some "otherwise"), .blockEnd] }

/-- A frame with a section is covered. -/
theorem drawing_covers_choice :
    let s : Setting Rat := ⟨.standard, fun _ _ => ⟨10, 5⟩⟩
    s.MeasuresLengths ∧
      ∃ (drawing : Drawing Rat) (l : Sequence.Layout Rat) (offset : Point Rat),
        layout s ⟨none, none, .sequence choice⟩ = .ok drawing ∧
        drawing.sequence? = some (l.translate offset) ∧
        (l.translate offset).CoveredBy drawing.bounds := by
  intro s
  have hlengths : s.MeasuresLengths := fun _ _ =>
    (by decide : (0 : Rat) ≤ 10 ∧ (0 : Rat) ≤ 5)
  obtain ⟨drawing, hlayout⟩ := exists_layout_sequence (s := s) (m := choice) (by cbv) hlengths none
    none (by cbv) (by cbv)
  obtain ⟨l, offset, -, -, hdrawn, hcovered⟩ :=
    drawing_covers_all_but_wide_sections hlengths hlayout
  exact ⟨hlengths, drawing, l, offset, hlayout, hdrawn, hcovered⟩

/-- Whether some text of a section lies neither in the box around its diagram nor on the sheet. -/
def hasOverhang (s : Setting Rat) (d : Diagram Rat) : Bool :=
  match layout s d with
  | .ok drawing => drawing.sequence?.any fun l =>
      l.sectionBoxes.any fun b => !l.contentBounds.contains b && !drawing.bounds.contains b
  | .error _ => false

/-- **A text of a section can stick out.**  The frame is as wide as its operator demands, and the
text of its section is wider. -/
theorem section_sticks_out :
    let s : Setting Rat :=
      ⟨.standard, fun text _ => if text == "otherwise" then ⟨500, 5⟩ else ⟨10, 5⟩⟩
    s.config.validate = .ok () ∧ s.MeasuresLengths ∧
      ∃ drawing l, layout s ⟨none, none, .sequence choice⟩ = .ok drawing ∧
        drawing.sequence? = some l ∧
        ∃ b ∈ l.sectionBoxes,
          l.contentBounds.contains b = false ∧ drawing.bounds.contains b = false := by
  intro s
  have hlengths : s.MeasuresLengths := by
    intro text style
    dsimp only [s]
    split <;> decide
  have hover : hasOverhang s ⟨none, none, .sequence choice⟩ = true := by cbv
  refine ⟨by cbv, hlengths, ?_⟩
  rw [hasOverhang] at hover
  split at hover
  · next drawing hlayout =>
      obtain ⟨hsome, hany⟩ := (Option.any_eq_true_iff_get _ _).mp hover
      obtain ⟨b, hb, hout⟩ := List.any_eq_true.mp hany
      rw [Bool.and_eq_true, Bool.not_eq_true', Bool.not_eq_true'] at hout
      exact ⟨drawing, _, hlayout, (Option.some_get hsome).symm, b, hb, hout⟩
  · cases hover

end Diagram

end Drafting
