import Mathlib
import Drafting.Proofs.Sequence.Lifetimes
import Drafting.Proofs.Sequence.NestedFrames
import Drafting.Proofs.Sequence.RowRooms

/-!
The bands of rows.

All that is drawn for an event with a row lies in a band, and so do the headers of the
participants that the event creates.  Bands follow each other at a spacing, and bars that have
been closed lie above them.

* `Layout.band`: the band of an event.
* `Layout.RowsApart`: what it is for rows to keep apart.
* `Assembly.within_boxes`, `Assembly.room_ownBoxes`, `Assembly.room_createdBoxes`: what makes up a
  band lies in the room of its row.
* `Assembly.room_band`, `Assembly.rowsApart_layout`: so does the band, and so rows keep apart.
* `Diagram.rows_reserve_disjoint_bands`: so it is in every drawing.
-/

namespace Drafting.Sequence

/-! ### What belongs to a row -/

/-- The height of the head of a frame: as high as its operator and its guard, and as every head at
least. -/
def BlockGeometry.headHeight (d : SequenceConfig Rat) (g : BlockGeometry Rat) : Rat :=
  max (max d.blockHeaderHeight g.tab.bounds.height) ((g.label.map (·.bounds.height)).getD 0)

/-- The head of a frame. -/
def BlockGeometry.head (d : SequenceConfig Rat) (g : BlockGeometry Rat) : Bounds Rat :=
  { g.bounds with maxY := g.bounds.minY + g.headHeight d }

/-- Whether an event of a diagram creates the participant of a name. -/
def Model.creates (m : Model) (index : Nat) (id : Ident) : Bool :=
  m.distinctParticipants.any fun p =>
    p.id == id && (p.lifetime.within m.events.length).createdAt == some index

namespace Layout

/-- The boxes that are drawn for an event.  A start of a block has the head of its frame,
and a section its text. -/
def ownBoxes (d : SequenceConfig Rat) (l : Layout Rat) (e : EventGeometry Rat) :
    List (Bounds Rat) :=
  match e.shape with
  | .blockStart k => l.blocks[k]?.toList.map (·.head d)
  | .blockSection (some k) =>
    l.blocks[k]?.toList.flatMap fun g =>
      (g.sections.filter (·.y = e.y)).flatMap fun part => part.label.toList.map (·.bounds)
  | shape => shape.boxes

/-- The headers of the participants that an event creates. -/
def createdBoxes (m : Model) (l : Layout Rat) (index : Nat) : List (Bounds Rat) :=
  (l.participants.filter fun p => m.creates index p.id).map (·.header)

/-- The top and the bottom of what belongs to an event and its line. -/
def band (d : SequenceConfig Rat) (m : Model) (l : Layout Rat) (e : EventGeometry Rat) :
    Rat × Rat :=
  let boxes := l.ownBoxes d e ++ l.createdBoxes m e.index
  (boxes.foldl (fun y b => min y b.minY) e.y, boxes.foldl (fun y b => max y b.maxY) e.y)

/-- The rows of a drawing keep apart. -/
structure RowsApart (d : SequenceConfig Rat) (m : Model) (l : Layout Rat) : Prop where
  /-- Events are drawn in their order, and those with rows are drawn so. -/
  events : l.events.map (fun e => (e.index, e.isRow)) =
    (List.range m.events.length).map fun i => (i, m.takesRow i)
  /-- The band of a row begins a spacing below those of the rows before it. -/
  rows : l.rows.Pairwise fun e f => (l.band d m e).2 + d.eventSpacing ≤ (l.band d m f).1
  /-- And a spacing below the bars that are closed before it. -/
  bars : ∀ g ∈ l.activations, ∀ k ∈ g.endEvent, ∀ f ∈ l.rows, k < f.index →
    g.bounds.maxY + d.eventSpacing ≤ (l.band d m f).1
  /-- A start of a block has a frame, which begins there. -/
  starts : ∀ e ∈ l.events, ∀ k, e.shape = .blockStart k →
    ∃ g, l.blocks[k]? = some g ∧ g.startEvent = e.index ∧ g.bounds.minY = e.y
  /-- A section of a block has a section of its frame, which begins there. -/
  sections : ∀ e ∈ l.events, ∀ k, e.shape = .blockSection (some k) →
    ∃ g, l.blocks[k]? = some g ∧ ∃ part ∈ g.sections, part.y = e.y

end Layout

/-! ### Moving -/

section Moving

variable (v : Point Rat) (d : SequenceConfig Rat) (m : Model) (l : Layout Rat)
  (e : EventGeometry Rat)

lemma headHeight_translate (g : BlockGeometry Rat) :
    (g.translate v).headHeight d = g.headHeight d := by
  simp only [BlockGeometry.headHeight, BlockGeometry.translate, TextBox.translate,
    Bounds.height_translate]
  cases g.label with
  | none => rfl
  | some text => simp only [Option.map_some, Option.getD_some, Bounds.height_translate]

lemma head_translate (g : BlockGeometry Rat) : (g.translate v).head d = (g.head d).translate v := by
  rw [BlockGeometry.head, headHeight_translate]
  simp only [BlockGeometry.head, BlockGeometry.translate, Bounds.translate, add_right_comm]

lemma ownBoxes_translate :
    (l.translate v).ownBoxes d (e.translate v) = (l.ownBoxes d e).map (·.translate v) := by
  have hblock : ∀ k : Nat, (l.translate v).blocks[k]?.toList =
      l.blocks[k]?.toList.map (·.translate v) := by
    intro k
    rw [Layout.translate, List.getElem?_map]
    cases l.blocks[k]? <;> rfl
  have hshape := eventBoxes_translate v e.shape
  cases heq : e.shape with
  | blockStart k =>
      simp only [Layout.ownBoxes, EventGeometry.translate, EventShape.translate, heq, hblock,
        List.map_map, Function.comp_def, head_translate]
  | blockSection block =>
      cases block with
      | none => simp only [Layout.ownBoxes, EventGeometry.translate, EventShape.translate, heq,
          EventShape.boxes, List.map_nil]
      | some k =>
          simp only [Layout.ownBoxes, EventGeometry.translate, EventShape.translate, heq, hblock,
            List.flatMap_map, List.map_flatMap, BlockGeometry.translate, List.filter_map,
            Function.comp_def, SectionGeometry.translate, add_left_inj, textBoxes_translate]
  | _ =>
      rw [heq] at hshape
      simpa only [Layout.ownBoxes, EventGeometry.translate, EventShape.translate, heq] using hshape

lemma createdBoxes_translate (index : Nat) :
    (l.translate v).createdBoxes m index = (l.createdBoxes m index).map (·.translate v) := by
  simp only [Layout.createdBoxes, Layout.translate, List.filter_map, List.map_map,
    Function.comp_def, ParticipantGeometry.translate]

lemma band_translate : (l.translate v).band d m (e.translate v) =
    ((l.band d m e).1 + v.y, (l.band d m e).2 + v.y) := by
  have hfold : ∀ (boxes : List (Bounds Rat)) (top bottom : Rat),
      (boxes.map (·.translate v)).foldl (fun y b => min y b.minY) (top + v.y) =
        boxes.foldl (fun y b => min y b.minY) top + v.y ∧
      (boxes.map (·.translate v)).foldl (fun y b => max y b.maxY) (bottom + v.y) =
        boxes.foldl (fun y b => max y b.maxY) bottom + v.y := by
    intro boxes
    induction boxes with
    | nil => exact fun _ _ => ⟨rfl, rfl⟩
    | cons b boxes ih =>
        intro top bottom
        simp only [List.map_cons, List.foldl_cons, Bounds.translate, min_add_add_right,
          max_add_add_right]
        exact ih _ _
  obtain ⟨htop, hbottom⟩ := hfold (l.ownBoxes d e ++ l.createdBoxes m e.index) e.y e.y
  simp only [Layout.band, ownBoxes_translate]
  rw [show (e.translate v).index = e.index from rfl, createdBoxes_translate, ← List.map_append]
  exact Prod.ext htop hbottom

/-- A moved event starts a block if it did before, and likewise for sections. -/
lemma shape_of_translate {shape : EventShape Rat} (k : Nat) :
    (shape.translate v = .blockStart k → shape = .blockStart k) ∧
      (shape.translate v = .blockSection (some k) → shape = .blockSection (some k)) := by
  cases shape <;> simp [EventShape.translate]

lemma translate_rows : (l.translate v).rows = l.rows.map (·.translate v) := by
  rw [Layout.rows, Layout.translate, List.filter_map]
  rfl

end Moving

variable {d : SequenceConfig Rat} {m : Model} {l : Layout Rat}

lemma Layout.RowsApart.translate (h : l.RowsApart d m) (v : Point Rat) :
    (l.translate v).RowsApart d m where
  events := by
    rw [← h.events, Layout.translate, List.map_map]
    rfl
  rows := by
    rw [translate_rows, List.pairwise_map]
    refine h.rows.imp fun hef => ?_
    rw [band_translate, band_translate]
    linarith
  bars := by
    rw [translate_rows, Layout.translate, List.forall_mem_map]
    intro g hg k hk
    rw [List.forall_mem_map]
    intro f hf hkf
    have hbar := h.bars g hg k hk f hf hkf
    change (g.bounds.translate v).maxY + _ ≤ ((l.translate v).band d m (f.translate v)).1
    rw [band_translate, Bounds.translate]
    linarith
  starts := by
    rw [Layout.translate, List.forall_mem_map]
    intro e he k hk
    obtain ⟨g, hg, hstart, htop⟩ := h.starts e he k ((shape_of_translate v k).1 hk)
    refine ⟨g.translate v, ?_, hstart, congrArg (· + v.y) htop⟩
    rw [List.getElem?_map, hg, Option.map_some]
  sections := by
    rw [Layout.translate, List.forall_mem_map]
    intro e he k hk
    obtain ⟨g, hg, part, hpart, hy⟩ := h.sections e he k ((shape_of_translate v k).2 hk)
    refine ⟨g.translate v, ?_, part.translate v, List.mem_map_of_mem hpart, congrArg (· + v.y) hy⟩
    rw [List.getElem?_map, hg, Option.map_some]

/-! ### Rooms -/

/-- What lies in a room together lies there. -/
lemma Room.hull {e low high top bottom : Rat} (h : Room e low high top bottom)
    {boxes : List (Bounds Rat)} (hboxes : ∀ b ∈ boxes, Room e low high b.minY b.maxY) :
    Room e low high (boxes.foldl (fun y b => min y b.minY) top)
      (boxes.foldl (fun y b => max y b.maxY) bottom) := by
  induction boxes generalizing top bottom with
  | nil => exact h
  | cons b boxes ih =>
      obtain ⟨hfirst, hrest⟩ := List.forall_mem_cons.mp hboxes
      exact ih ⟨le_min h.above hfirst.above, max_le h.below hfirst.below⟩ hrest

/-- Rooms of different events have no point in common. -/
lemma Room.eq_of_mem {e : Rat} (he : 0 < e) {c : Nat → Rat} (hc : Monotone c) {i j : Nat} {y : Rat}
    (hi : Room e (c i) (c (i + 1)) y y) (hj : Room e (c j) (c (j + 1)) y y) : i = j := by
  have hle : ∀ {i j : Nat}, Room e (c i) (c (i + 1)) y y →
      Room e (c j) (c (j + 1)) y y → j ≤ i := by
    intro i j hi hj
    by_contra hlt
    have hmono := hc (Nat.succ_le_of_lt (Nat.lt_of_not_le hlt))
    have habove := hj.above
    have hbelow := hi.below
    rw [Nat.succ_eq_add_one] at hmono
    linarith
  exact le_antisymm (hle hj hi) (hle hi hj)

namespace Assembly

variable {a : Assembly Rat}

/-- The points of a message lie between its line and the end of its loop. -/
lemma messagePoints_within (hs : a.distances.Sensible) (bars : List (Nat × ActivationGeometry Rat))
    (index : Nat) (y : Rat) (msg : MessageSlot Rat) :
    ∀ p ∈ a.messagePoints bars index y msg,
      y ≤ p.y ∧ p.y ≤ y + (SlotKind.message msg).below a.setting := by
  have hloop : 0 ≤ (SlotKind.message msg).below a.setting := by
    simp only [SlotKind.below]
    split
    · exact hs.selfMessageHeight
    · exact le_refl _
  have hline : ∀ x x' : Rat, ∀ p ∈ ([⟨x, y⟩, ⟨x', y⟩] : List (Point Rat)),
      y ≤ p.y ∧ p.y ≤ y + (SlotKind.message msg).below a.setting := by
    intro x x' p hp
    have hy : p.y = y := by
      rcases List.mem_pair.mp hp with rfl | rfl <;> rfl
    rw [hy]
    exact ⟨le_refl _, le_add_of_nonneg_right hloop⟩
  rw [messagePoints]
  split
  · next column hkind hsource =>
      have hbelow : (SlotKind.message msg).below a.setting = a.distances.selfMessageHeight := by
        simp only [SlotKind.below, hkind]
        rfl
      rw [hbelow] at hloop ⊢
      simp only [List.forall_mem_cons, List.not_mem_nil, false_implies, implies_true, and_true]
      exact ⟨⟨le_refl _, by linarith⟩, ⟨le_refl _, by linarith⟩,
        ⟨by linarith, le_refl _⟩, by linarith, le_refl _⟩
  · exact hline _ _
  · exact hline _ _
  · exact hline _ _
  · exact hline _ _

/-- The text of a message lies above its line. -/
lemma messageLabel_within (hs : a.distances.Sensible) (points : List (Point Rat)) (y : Rat)
    (kind : MessageKind) (text : MeasuredText Rat) :
    let b := (a.messageLabel points y kind text).bounds
    b.minY = y - (text.size.height + a.distances.messageLabelPadding) ∧ b.maxY ≤ y := by
  have hpadding := hs.messageLabelPadding
  have htop : (a.messageLabel points y kind text).bounds.minY =
      y - a.distances.messageLabelPadding - text.size.height := by
    cases kind <;> rfl
  have hbottom : (a.messageLabel points y kind text).bounds.maxY =
      (a.messageLabel points y kind text).bounds.minY + text.size.height := by
    cases kind <;> rfl
  dsimp only
  rw [hbottom, htop]
  exact ⟨by ring, by linarith⟩

/-- A text that is not higher than a box lies between its top and its bottom when it is
placed around its center. -/
lemma placeAround_within {b : Bounds Rat} {text : MeasuredText Rat}
    (h : text.size.height ≤ b.height) :
    b.minY ≤ (text.placeAround b.center).bounds.minY ∧
      (text.placeAround b.center).bounds.maxY ≤ b.maxY := by
  simp only [Bounds.height] at h
  simp only [MeasuredText.placeAround, Bounds.around, Bounds.center, Scalar.half]
  exact ⟨by linarith, by linarith⟩

/-- The boxes of a band lie between its top and its bottom. -/
lemma band_within (top : Rat) {b : BandSlot Rat} (hheight : 0 ≤ b.height)
    (hlabel : ∀ text ∈ b.label, text.size.height ≤ b.height) :
    ∀ box ∈ (a.band top b).bounds :: (a.band top b).label.toList.map (·.bounds),
      top ≤ box.minY ∧ box.maxY ≤ top + b.height := by
  have htop : (a.band top b).bounds.minY = top := min_eq_left (le_add_of_nonneg_right hheight)
  have hbottom : (a.band top b).bounds.maxY = top + b.height :=
    max_eq_right (le_add_of_nonneg_right hheight)
  rw [List.forall_mem_cons, List.forall_mem_map]
  refine ⟨⟨htop.ge, hbottom.le⟩, fun text htext => ?_⟩
  obtain ⟨measured, hmeasured, rfl⟩ := Option.map_eq_some_iff.mp (Option.mem_toList.mp htext)
  have hfits : measured.size.height ≤ (a.band top b).bounds.height := by
    rw [Bounds.height, htop, hbottom, add_sub_cancel_left]
    exact hlabel measured hmeasured
  have hinside := placeAround_within hfits
  rwa [htop, hbottom] at hinside

/-- **The boxes of an event have no more than the room that it needs.** -/
lemma within_boxes (hs : a.distances.Sensible) (bars : List (Nat × ActivationGeometry Rat))
    (index : Nat) {slot : Slot Rat} (h : slot.kind.Upright a.setting) :
    ∀ b ∈ (a.event bars index slot).shape.boxes,
      slot.y - slot.kind.above a.setting ≤ b.minY ∧
        b.maxY ≤ slot.y + slot.kind.below a.setting := by
  obtain ⟨y, isRow, kind⟩ := slot
  obtain ⟨habove, hbelow, hboxed⟩ := h
  cases kind with
  | message msg =>
      simp only [event, message, EventShape.boxes, List.forall_mem_append, List.forall_mem_map,
        Bounds.around_zero]
      refine ⟨fun p hp => ?_, fun text htext => ?_⟩
      · obtain ⟨hline, hloop⟩ := messagePoints_within hs bars index y msg p hp
        exact ⟨(sub_le_self _ habove).trans hline, hloop⟩
      · obtain ⟨label, hlabel, rfl⟩ := Option.map_eq_some_iff.mp (Option.mem_toList.mp htext)
        obtain ⟨htop, hbottom⟩ := messageLabel_within hs
          (a.messagePoints bars index y msg) y msg.kind label
        refine ⟨?_, hbottom.trans (le_add_of_nonneg_right hbelow)⟩
        rw [htop, SlotKind.above, hlabel]
        exact le_refl _
  | note n =>
      have htop : (a.note y n).bounds.minY = y := min_eq_left (le_add_of_nonneg_right hbelow)
      have hbottom : (a.note y n).bounds.maxY = y + n.size.height :=
        max_eq_right (le_add_of_nonneg_right hbelow)
      have hlabel : n.label.size.height ≤ (a.note y n).bounds.height := by
        rw [Bounds.height, htop, hbottom, add_sub_cancel_left]
        simpa only [SlotKind.above, SlotKind.below, zero_add] using hboxed n.label rfl
      have hinside := placeAround_within hlabel
      simp only [event, EventShape.boxes, SlotKind.above, SlotKind.below, List.forall_mem_cons,
        List.not_mem_nil, false_implies, implies_true, and_true, sub_zero]
      rw [htop, hbottom] at hinside ⊢
      exact ⟨⟨le_refl _, le_refl _⟩, hinside⟩
  | divider b =>
      have hheight : 0 ≤ b.height := by
        simp only [SlotKind.above, Scalar.half] at habove
        linarith
      have hlabel : ∀ text ∈ b.label, text.size.height ≤ b.height := by
        simpa only [SlotKind.above, SlotKind.below, SlotKind.boxed?, Scalar.half, add_halves]
          using hboxed
      have hband := band_within (a := a) (y - Scalar.half b.height) hheight hlabel
      have hbottom : y - Scalar.half b.height + b.height = y + Scalar.half b.height := by
        simp only [Scalar.half]
        ring
      rwa [hbottom] at hband
  | delay b =>
      have hlabel : ∀ text ∈ b.label, text.size.height ≤ b.height := by
        simpa only [SlotKind.above, SlotKind.below, SlotKind.boxed?, zero_add] using hboxed
      simp only [SlotKind.above, sub_zero]
      exact band_within y hbelow hlabel
  | _ => exact fun b hb => absurd hb List.not_mem_nil

/-- The head of a frame is where the head of its block is. -/
lemma head_block {span : BlockSpan Rat} (hspan : span.top ≤ span.bottom) (range : Rat × Rat) :
    ((a.block span range).head a.distances).minY = span.top ∧
      ((a.block span range).head a.distances).maxY = span.top + span.head a.setting := by
  have htop : (a.block span range).bounds.minY = span.top := min_eq_left hspan
  have hheight : (a.block span range).headHeight a.distances = span.head a.setting := by
    simp only [BlockGeometry.headHeight, BlockSpan.head, block, MeasuredText.placeAt,
      Bounds.ofCorner, Bounds.height, add_sub_cancel_left]
    cases span.label with
    | none => rfl
    | some text =>
        simp only [Option.map_some, Option.getD_some, add_sub_cancel_left]
        rfl
  refine ⟨htop, ?_⟩
  rw [BlockGeometry.head, htop, hheight]

/-- Every block has a frame. -/
lemma exists_block {k : Nat} {b : BlockSpan Rat} (h : a.timeline.blocks[k]? = some b) :
    ∃ range, a.blocks[k]? = some (a.block b range) := by
  obtain ⟨range, hrange⟩ := exists_range h
  have hentry : (a.timeline.blocks.toList.zip a.ranges)[k]? = some (b, range) := by
    rw [List.getElem?_zip_eq_some, Array.getElem?_toList]
    exact ⟨h, hrange⟩
  exact ⟨range, by rw [blocks, List.getElem?_map]; exact congrArg (Option.map _) hentry⟩

/-- What starts a block in the drawing does so in the timeline, and likewise for sections. -/
lemma kind_of_shape (bars : List (Nat × ActivationGeometry Rat)) (index k : Nat) (slot : Slot Rat) :
    ((a.event bars index slot).shape = .blockStart k → slot.kind = .blockStart k) ∧
      ((a.event bars index slot).shape = .blockSection (some k) →
        slot.kind = .blockSection (some k)) := by
  rw [event]
  cases slot.kind <;> simp

section Rooms

variable {c : Nat → Rat} (h : a.timeline.HasRooms a.setting a.roster c) {i k : Nat}
  {slot : Slot Rat} (hslot : a.timeline.slots[i]? = some slot)

include h hslot

/-- The line of a row lies in its room. -/
lemma room_line (hrow : slot.isRow = true) :
    Room a.distances.eventSpacing (c i) (c (i + 1)) slot.y slot.y :=
  (h.rows i slot hslot hrow).mono (sub_le_self _ (h.upright i slot hslot).above)
    (le_add_of_nonneg_right (h.upright i slot hslot).below)

/-- The frame that begins with an event, and its head. -/
lemma exists_start (hspan : ∀ b ∈ a.timeline.blocks, b.top ≤ b.bottom)
    (hkind : slot.kind = .blockStart k) :
    ∃ g, a.blocks[k]? = some g ∧ g.startEvent = i ∧ g.bounds.minY = slot.y ∧
      Room a.distances.eventSpacing (c i) (c (i + 1)) (g.head a.distances).minY
        (g.head a.distances).maxY := by
  obtain ⟨caption, hcaption, hstart, htop⟩ := h.captions.starts i slot k hslot hkind
  have hroom := h.captions.heads k caption hcaption
  rw [hstart] at hroom
  rw [Array.getElem?_map, Option.map_eq_some_iff] at hcaption
  obtain ⟨b, hb, rfl⟩ := hcaption
  obtain ⟨range, hg⟩ := exists_block hb
  obtain ⟨hminY, hmaxY⟩ := head_block (a := a) (hspan b (Array.mem_of_getElem? hb)) range
  refine ⟨a.block b range, hg, hstart, hminY.trans htop, ?_⟩
  rw [hminY, hmaxY]
  exact hroom

/-- The section that begins with an event. -/
lemma exists_section (hkind : slot.kind = .blockSection (some k)) :
    ∃ g, a.blocks[k]? = some g ∧ ∃ part ∈ g.sections, part.y = slot.y := by
  obtain ⟨caption, hcaption, hpart⟩ := h.captions.sections i slot k hslot hkind
  rw [Array.getElem?_map, Option.map_eq_some_iff] at hcaption
  obtain ⟨b, hb, rfl⟩ := hcaption
  obtain ⟨range, hg⟩ := exists_block hb
  obtain ⟨_, hmem, hy⟩ := hpart
  obtain ⟨part, hpart, rfl⟩ := List.mem_map.mp hmem
  exact ⟨_, hg, _, List.mem_map_of_mem hpart, hy⟩

/-- The text of a section that begins in a row lies in the room of that row. -/
lemma room_section (he : 0 < a.distances.eventSpacing) (hrow : slot.isRow = true)
    {g : BlockGeometry Rat} (hg : a.blocks[k]? = some g) {part : SectionGeometry Rat}
    (hpart : part ∈ g.sections) (hy : part.y = slot.y) {text : TextBox Rat}
    (htext : text ∈ part.label) :
    Room a.distances.eventSpacing (c i) (c (i + 1)) text.bounds.minY text.bounds.maxY := by
  obtain ⟨b, range, hb, -, rfl⟩ := getElem?_blocks hg
  obtain ⟨source, hsource, rfl⟩ := List.mem_map.mp hpart
  obtain ⟨measured, hmeasured, rfl⟩ := Option.map_eq_some_iff.mp htext
  have hcaption : (a.timeline.blocks.map (·.caption a.setting))[k]? =
      some (b.caption a.setting) := by
    rw [Array.getElem?_map, hb, Option.map_some]
  obtain ⟨hheight, j, hroom⟩ := h.captions.parts k _ hcaption
    (source.y, MeasuredText.heightOf source.label) (List.mem_map_of_mem hsource)
  -- the section lies in the room of some event, and its line in that of this one
  have hline := room_line h hslot hrow
  rw [← hy] at hline
  obtain rfl : j = i := Room.eq_of_mem he h.mono
    (hroom.mono (le_refl _) (le_add_of_nonneg_right hheight)) hline
  rwa [hmeasured] at hroom

/-- What an event draws lies in the room of its row. -/
lemma room_ownBoxes (hs : a.distances.Sensible)
    (hspan : ∀ b ∈ a.timeline.blocks, b.top ≤ b.bottom) (hrow : slot.isRow = true) :
    ∀ b ∈ a.layout.ownBoxes a.distances (a.event a.bars i slot),
      Room a.distances.eventSpacing (c i) (c (i + 1)) b.minY b.maxY := by
  have hown : ∀ b ∈ (a.event a.bars i slot).shape.boxes,
      Room a.distances.eventSpacing (c i) (c (i + 1)) b.minY b.maxY := by
    intro b hb
    obtain ⟨htop, hbottom⟩ := within_boxes hs a.bars i (h.upright i slot hslot) b hb
    exact (h.rows i slot hslot hrow).mono htop hbottom
  intro b hb
  rw [Layout.ownBoxes] at hb
  split at hb
  · next k hshape =>
      obtain ⟨g, hg, -, -, hhead⟩ :=
        exists_start h hslot hspan ((kind_of_shape a.bars i k slot).1 hshape)
      rw [show a.layout.blocks = a.blocks from rfl, hg, Option.toList_some] at hb
      obtain rfl := List.mem_singleton.mp hb
      exact hhead
  · next k hshape =>
      simp only [List.mem_flatMap, List.mem_filter, List.mem_map, decide_eq_true_eq,
        Option.mem_toList] at hb
      obtain ⟨g, hg, part, ⟨hpart, hy⟩, text, htext, rfl⟩ := hb
      exact room_section h hslot hs.eventSpacing.2 hrow hg hpart hy htext
  · exact hown b hb

end Rooms

/-- The headers of the participants that an event creates lie in the room of its row. -/
lemma room_createdBoxes {s : Setting Rat} {m : Model} {c : Nat → Rat}
    (h : (ofModel s m).timeline.HasRooms s (Roster.ofModel s m) c) {i : Nat} {slot : Slot Rat}
    (hslot : (ofModel s m).timeline.slots[i]? = some slot) (hrow : slot.isRow = true) :
    ∀ b ∈ (ofModel s m).layout.createdBoxes m i,
      Room s.config.sequence.eventSpacing (c i) (c (i + 1)) b.minY b.maxY := by
  rw [Layout.createdBoxes, List.forall_mem_map]
  intro p hp
  obtain ⟨hp, hcreates⟩ := List.mem_filter.mp hp
  obtain ⟨column, hlt, rfl⟩ := List.mem_mapIdx.mp hp
  obtain ⟨q, hq, hcolumn⟩ := List.mem_map.mp (List.getElem_mem hlt)
  rw [← hcolumn] at hcreates ⊢
  have hcreated : (Roster.column s m.events.length q).createdAt = some i := by
    obtain ⟨p, hp, heq⟩ := List.any_eq_true.mp hcreates
    rw [Bool.and_eq_true, beq_iff_eq, beq_iff_eq] at heq
    obtain rfl := m.eq_of_id_eq (m.ordered_perm.mem_iff.mpr hp) hq heq.1
    exact heq.2
  have hy : (ofModel s m).timeline.creationY (Roster.column s m.events.length q) = some slot.y := by
    rw [Timeline.creationY, hcreated, Option.bind_some]
    exact Timeline.row?_of_slot hslot hrow
  rw [header_of_creationY hy]
  exact h.created i slot hslot hrow _ (List.mem_map_of_mem hq) hcreated

variable {s : Setting Rat} (hs : s.config.sequence.Sensible) (ht : s.MeasuresLengths) (m : Model)

/-- Events are drawn in their order. -/
lemma map_index_events (s : Setting Rat) (m : Model) :
    (ofModel s m).layout.events.map (fun e => (e.index, e.isRow)) =
      (List.range m.events.length).map fun i => (i, m.takesRow i) := by
  refine List.ext_getElem? fun i => ?_
  rw [List.getElem?_map, List.getElem?_map, layout, List.getElem?_mapIdx]
  cases hslot : (ofModel s m).timeline.slots[i]? with
  | none =>
      rw [List.getElem?_eq_none_iff] at hslot
      rw [List.getElem?_eq_none (by rwa [List.length_range, ← Timeline.length_slots s _ m])]
      rfl
  | some slot =>
      have hi := (List.getElem?_eq_some_iff.mp hslot).1
      rw [List.getElem?_range (by rwa [← Timeline.length_slots s (Roster.ofModel s m) m])]
      exact congrArg (fun row => some (i, row)) (Timeline.isRow_of_slot hslot)

lemma pairwise_index_events (s : Setting Rat) (m : Model) :
    (ofModel s m).layout.events.Pairwise fun e f => e.index < f.index := by
  have hindex := congrArg (List.map Prod.fst) (map_index_events s m)
  rw [List.map_map, List.map_map] at hindex
  have hrange : (ofModel s m).layout.events.map EventGeometry.index = List.range _ :=
    hindex.trans (List.map_id _)
  rw [← List.pairwise_map (f := EventGeometry.index) (R := (· < ·)), hrange]
  exact List.pairwise_lt_range

include hs ht

/-- No block ends above its beginning. -/
lemma top_le_bottom : ∀ b ∈ (ofModel s m).timeline.blocks, b.top ≤ b.bottom := by
  intro b hb
  have hfits := Timeline.blocks_fit hs ht (Roster.ofModel s m) m hb
  have hhead : 0 ≤ b.head s := Lengths.max_nonneg _ (Lengths.max_nonneg _ hs.blockHeaderHeight)
  exact (le_add_of_nonneg_right hhead).trans hfits.head

/-- **The band of a row lies in its room.** -/
lemma room_band {c : Nat → Rat}
    (h : (ofModel s m).timeline.HasRooms (ofModel s m).setting (ofModel s m).roster c)
    {e : EventGeometry Rat} (he : e ∈ (ofModel s m).layout.rows) :
    let band := (ofModel s m).layout.band s.config.sequence m e
    Room s.config.sequence.eventSpacing (c e.index) (c (e.index + 1)) band.1 band.2 := by
  obtain ⟨he, hrow⟩ := List.mem_filter.mp he
  obtain ⟨i, slot, hslot, rfl⟩ := mem_events.mp he
  refine (room_line h hslot hrow).hull ?_
  rw [List.forall_mem_append]
  exact ⟨room_ownBoxes h hslot hs (top_le_bottom hs ht m) hrow, room_createdBoxes h hslot hrow⟩

/-- **The rows of a diagram keep apart.** -/
lemma rowsApart_layout : (ofModel s m).layout.RowsApart s.config.sequence m := by
  obtain ⟨c, h⟩ : ∃ c, (ofModel s m).timeline.HasRooms (ofModel s m).setting
      (ofModel s m).roster c :=
    Timeline.exists_rooms hs ht (Roster.ofModel s m) m
  -- what ends where the cursor stood after an event lies a spacing above the rows of later events
  have hbelow : ∀ {y : Rat} {k : Nat} {f : EventGeometry Rat}, y ≤ c (k + 1) →
      f ∈ (ofModel s m).layout.rows → k < f.index →
        y + s.config.sequence.eventSpacing ≤
          ((ofModel s m).layout.band s.config.sequence m f).1 := by
    intro y k f hy hf hlt
    calc y + s.config.sequence.eventSpacing
      _ ≤ c (k + 1) + s.config.sequence.eventSpacing := add_le_add_left hy _
      _ ≤ c f.index + s.config.sequence.eventSpacing := add_le_add_left (h.mono hlt) _
      _ ≤ ((ofModel s m).layout.band s.config.sequence m f).1 := (room_band hs ht m h hf).above
  refine ⟨map_index_events s m, ?_, fun g hg k hk f hf hlt => ?_, fun e he k hshape => ?_,
    fun e he k hshape => ?_⟩
  · refine ((pairwise_index_events s m).filter _).imp_of_mem fun he hf hlt => ?_
    exact hbelow (room_band hs ht m h he).below hf hlt
  · obtain ⟨x, hx, rfl⟩ := mem_activations.mp hg
    have hbottom : ((ofModel s m).activation x).bounds.maxY = x.endY := add_sub_cancel _ _
    exact hbelow (hbottom.le.trans (h.bars x hx k hk)) hf hlt
  · obtain ⟨i, slot, hslot, rfl⟩ := mem_events.mp he
    obtain ⟨g, hg, hstart, htop, -⟩ :=
      exists_start h hslot (top_le_bottom hs ht m) ((kind_of_shape _ i k slot).1 hshape)
    exact ⟨g, hg, hstart, htop⟩
  · obtain ⟨i, slot, hslot, rfl⟩ := mem_events.mp he
    exact exists_section h hslot ((kind_of_shape _ i k slot).2 hshape)

end Assembly

end Drafting.Sequence

namespace Drafting.Diagram

open Drafting.Sequence

/-- **Rows reserve disjoint bands.**  In the drawing of a sequence diagram the band of a row, which
takes in the headers of the participants created there, begins at least the spacing of events below
the bands of all rows before it and below all bars that are closed before it. -/
theorem rows_reserve_disjoint_bands {s : Setting Rat} (ht : s.MeasuresLengths)
    {title caption : Option String} {m : Sequence.Model} {drawing : Drawing Rat}
    (h : layout s ⟨title, caption, .sequence m⟩ = .ok drawing) :
    ∃ l, drawing.sequence? = some l ∧ l.RowsApart s.config.sequence m := by
  obtain ⟨hvalid, l, hl, hdrawn, -⟩ := of_layout_sequence h
  obtain rfl := Layout.eq_layout hl
  exact ⟨_, hdrawn,
    (Assembly.rowsApart_layout (Config.sensible_sequence hvalid) ht m).translate _⟩

/-- A message that creates its target, a block with a loop, a bar that pushes what follows, a
section and a divider. -/
theorem bands_of_a_new_worker :
    let s : Setting Rat := ⟨.standard, fun _ _ => ⟨10, 5⟩⟩
    let m : Sequence.Model :=
      { participants := [{ id := "A" }, { id := "B", lifetime := ⟨some 0, none⟩ }]
        events := [.message { source := "A", target := some "B", label := some "make" },
          .blockStart { kind := "opt" },
          .message { source := "B", target := some "B", label := some "work" }, .activate "A",
          .deactivate "A", .blockSection (some "else"), .divider none, .blockEnd] }
    s.MeasuresLengths ∧ s.config.sequence.eventSpacing = 24 ∧
      ∃ drawing l, layout s ⟨none, none, .sequence m⟩ = .ok drawing ∧ drawing.sequence? = some l ∧
        l.rows.map (fun e => (e.index, l.band s.config.sequence m e)) =
          [(0, 65, 86), (1, 110, 130), (2, 154, 179), (5, 211, 216), (6, 240, 260), (7, 284, 284)] ∧
        l.activations.map (fun g => (g.endEvent, g.bounds.maxY)) = [(some 4, 187)] ∧
        l.RowsApart s.config.sequence m := by
  intro s m
  have hlengths : s.MeasuresLengths := fun _ _ => (by decide : (0 : Rat) ≤ 10 ∧ (0 : Rat) ≤ 5)
  have hread : ((layout s ⟨none, none, .sequence m⟩).toOption.bind (·.sequence?)).map (fun l =>
      (l.rows.map fun e => (e.index, l.band s.config.sequence m e),
        l.activations.map fun g => (g.endEvent, g.bounds.maxY))) =
      some ([(0, 65, 86), (1, 110, 130), (2, 154, 179), (5, 211, 216), (6, 240, 260),
        (7, 284, 284)],
        [(some 4, 187)]) := by cbv
  obtain ⟨drawing, hlayout⟩ := exists_layout_sequence (s := s) (m := m) (by cbv) hlengths none none
    (by decide) (by decide)
  obtain ⟨l, hl, hapart⟩ := rows_reserve_disjoint_bands hlengths hlayout
  rw [hlayout, Except.toOption, Option.bind_some, hl, Option.map_some, Option.some.injEq,
    Prod.mk.injEq] at hread
  exact ⟨hlengths, by cbv, drawing, l, hlayout, hl, hread.1, hread.2, hapart⟩

end Drafting.Diagram
