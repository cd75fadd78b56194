import Mathlib
import Drafting.Proofs.Sequence.Extents
import Drafting.Proofs.Sequence.Matching
import Drafting.Proofs.Sequence.Slots

/-!
The room of a row.

The cursor passes a stretch in every event with a row, and all that belongs to the row
lies in it, a spacing below where the cursor stood before.  What is closed on the way ends
where the cursor has been.

* `Room`, `State.placeRow_room`: the stretch of a row.
* `SlotKind.above`, `SlotKind.below`, `State.room_step`: what an event needs of it.
* `Progress.EndsBy`: bars end where the cursor was when they were closed.
* `Caption`, `Caption.Step`, `Captions`: the heads and the sections of blocks lie in
  the rooms of their events.
* `Timeline.HasRooms`, `Timeline.exists_rooms`: so it is in every timeline.
-/

namespace Drafting.Sequence

/-- A stretch between two heights of the cursor, a spacing below the first one. -/
structure Room (e low high top bottom : Rat) : Prop where
  above : low + e ≤ top
  below : bottom ≤ high

lemma Room.mono {e low high top bottom top' bottom' : Rat} (h : Room e low high top bottom)
    (htop : top ≤ top') (hbottom : bottom' ≤ bottom) : Room e low high top' bottom' :=
  ⟨h.above.trans htop, hbottom.trans h.below⟩

/-! ### Rows -/

/-- The room that an event needs above its row. -/
def SlotKind.above (s : Setting Rat) : SlotKind Rat → Rat
  | .message m =>
    match m.label with
    | some text => text.size.height + s.config.sequence.messageLabelPadding
    | none => 0
  | .divider b => Scalar.half b.height
  | _ => 0

/-- The room that an event needs below its row, the heads and sections of blocks apart. -/
def SlotKind.below (s : Setting Rat) : SlotKind Rat → Rat
  | .message m =>
    match m.kind with
    | .selfMessage => s.config.sequence.selfMessageHeight
    | _ => 0
  | .note n => n.size.height
  | .divider b => Scalar.half b.height
  | .delay b => b.height
  | _ => 0

/-- The text in the box of an event. -/
def SlotKind.boxed? : SlotKind Rat → Option (MeasuredText Rat)
  | .note n => some n.label
  | .divider b => b.label
  | .delay b => b.label
  | _ => none

/-- The room of an event is not negative, and boxes are as high as their texts. -/
structure SlotKind.Upright (s : Setting Rat) (kind : SlotKind Rat) : Prop where
  above : 0 ≤ kind.above s
  below : 0 ≤ kind.below s
  boxed : ∀ text ∈ kind.boxed?, text.size.height ≤ kind.above s + kind.below s

namespace State

variable {s : Setting Rat} {roster : Roster Rat} {st : State Rat} {index : Nat}

/-- **A row has room above and below, also for the participants created in it.** -/
lemma placeRow_room (s : Setting Rat) (roster : Roster Rat) (st : State Rat) (index : Nat)
    (above below : Rat) (target : Option Nat) :
    let placed := st.placeRow s roster index above below target
    let e := s.config.sequence.eventSpacing
    Room e st.cursor placed.2.cursor (placed.1 - above) (placed.1 + below) ∧
      ∀ c ∈ roster, c.createdAt = some index → Room e st.cursor placed.2.cursor
        (placed.1 - Scalar.half c.header.height) (placed.1 + Scalar.half c.header.height) := by
  simp only [placeRow]
  set halves := (roster.filter (·.createdAt == some index)).map fun c => Scalar.half c.header.height
    with hhalves
  obtain ⟨habove, hallAbove⟩ := Scalar.le_maximum above halves
  obtain ⟨hbelow, hallBelow⟩ := Scalar.le_maximum below halves
  refine ⟨⟨by linarith, by linarith⟩, fun c hc hcreated => ?_⟩
  have hhalf : Scalar.half c.header.height ∈ halves :=
    List.mem_map_of_mem (List.mem_filter.mpr ⟨hc, beq_iff_eq.mpr hcreated⟩)
  have habove := hallAbove _ hhalf
  have hbelow := hallBelow _ hhalf
  exact ⟨by linarith, by linarith⟩

/-- A row that is placed for an event has at least the room that the event needs. -/
lemma placeRow_room_of_le (roster : Roster Rat) (index : Nat) {st st' : State Rat}
    {above below : Rat}
    (target : Option Nat) (kind : SlotKind Rat) (hcursor : st'.cursor = st.cursor)
    (habove : kind.above s ≤ above) (hbelow : kind.below s ≤ below) :
    let placed := st'.placeRow s roster index above below target
    let e := s.config.sequence.eventSpacing
    Room e st.cursor placed.2.cursor (placed.1 - kind.above s) (placed.1 + kind.below s) ∧
      ∀ c ∈ roster, c.createdAt = some index → Room e st.cursor placed.2.cursor
        (placed.1 - Scalar.half c.header.height) (placed.1 + Scalar.half c.header.height) := by
  obtain ⟨hroom, hcreated⟩ := placeRow_room s roster st' index above below target
  rw [hcursor] at hroom hcreated
  exact ⟨hroom.mono (sub_le_sub_left habove _) (add_le_add_right hbelow _), hcreated⟩

variable (hs : s.config.sequence.Sensible) (ht : s.MeasuresLengths)

include hs ht

/-- What an event becomes has room that is not negative. -/
lemma upright_step (st : State Rat) (roster : Roster Rat) (index : Nat) (event : Event) :
    (st.step s roster index event).slot.kind.Upright s := by
  -- most events need no room and have no box
  have hplain : ∀ kind : SlotKind Rat, kind.above s = 0 → kind.below s = 0 → kind.boxed? = none →
      kind.Upright s := fun kind habove hbelow hboxed =>
    ⟨habove.ge, hbelow.ge, fun text htext => by rw [hboxed] at htext; cases htext⟩
  cases event with
  | message m =>
      refine ⟨?_, ?_, fun text htext => by cases htext⟩
      · simp only [step, message, SlotKind.above]
        cases m.label with
        | none => exact le_refl _
        | some text => exact add_nonneg (ht.measured _ _ _).2 hs.messageLabelPadding
      · simp only [step, message, SlotKind.below]
        split
        · exact hs.selfMessageHeight
        · exact le_refl _
  | note n =>
      have hheight := (ht.measured n.text s.config.styles.note none).2
      have hpadding := hs.notePadding
      simp only [step, note]
      refine ⟨le_refl _, ?_, fun text htext => ?_⟩
      · simp only [SlotKind.below]
        linarith
      · obtain rfl := Option.some.inj htext
        simp only [SlotKind.above, SlotKind.below]
        linarith
  | divider text =>
      have hpadding := hs.messageLabelPadding
      refine ⟨half_dividerHeight_nonneg hs _, half_dividerHeight_nonneg hs _,
        fun label hlabel => ?_⟩
      have hlabel : bandLabel s text = some label := hlabel
      simp only [step, divider, SlotKind.above, SlotKind.below, Scalar.half, hlabel, add_halves]
      exact le_trans (by linarith) (le_max_right _ _)
  | delay text =>
      refine ⟨le_refl _, Lengths.max_nonneg _ hs.delayHeight, fun label hlabel => ?_⟩
      have hlabel : bandLabel s text = some label := hlabel
      simp only [step, delay, SlotKind.above, SlotKind.below, hlabel, zero_add]
      exact le_max_right _ _
  | activate id =>
      simp only [step, activate]
      split <;> exact hplain _ rfl rfl rfl
  | deactivate id =>
      simp only [step, deactivate]
      split
      · exact hplain _ rfl rfl rfl
      · split <;> exact hplain _ rfl rfl rfl
  | blockStart header => exact hplain _ rfl rfl rfl
  | blockSection text =>
      simp only [step, blockSection]
      split <;> exact hplain _ rfl rfl rfl
  | blockEnd =>
      simp only [step, blockEnd]
      split <;> exact hplain _ rfl rfl rfl

/-- **An event has the room that it needs.** -/
lemma room_step (st : State Rat) (roster : Roster Rat) (index : Nat) (event : Event)
    (hrow : (st.step s roster index event).slot.isRow = true) :
    let slot := (st.step s roster index event).slot
    let e := s.config.sequence.eventSpacing
    let high := (st.step s roster index event).state.cursor
    Room e st.cursor high (slot.y - slot.kind.above s) (slot.y + slot.kind.below s) ∧
      ∀ c ∈ roster, c.createdAt = some index → Room e st.cursor high
        (slot.y - Scalar.half c.header.height) (slot.y + Scalar.half c.header.height) := by
  have htouch : ∀ columns, (st.touchAll columns).cursor = st.cursor :=
    fun columns => congrArg Progress.cursor (progress_touchAll st columns)
  cases event with
  | message m =>
      refine placeRow_room_of_le _ _ _ (step s roster st index (.message m)).slot.kind (htouch _)
        ?_ ?_
      · simp only [step, message, SlotKind.above]
        cases m.label <;> exact le_refl _
      · simp only [step, message, SlotKind.below]
        cases messageKind m (roster.columnOf? m.source) (m.target.bind roster.columnOf?) <;>
          exact le_refl _
  | note n =>
      exact placeRow_room_of_le _ _ _ (step s roster st index (.note n)).slot.kind (htouch _)
        (le_refl _) (le_refl _)
  | divider text =>
      exact placeRow_room_of_le _ _ _ (step s roster st index (.divider text)).slot.kind rfl
        (le_refl _) (le_refl _)
  | delay text =>
      exact placeRow_room_of_le _ _ _ (step s roster st index (.delay text)).slot.kind rfl
        (le_refl _) (le_refl _)
  | activate id =>
      simp only [step, activate] at hrow
      split at hrow <;> cases hrow
  | deactivate id =>
      simp only [step, deactivate] at hrow
      split at hrow
      · cases hrow
      · split at hrow <;> cases hrow
  | blockStart header =>
      exact placeRow_room_of_le roster index none (.blockStart st.blocks.size) rfl (le_refl _)
        (Lengths.max_nonneg _ (Lengths.max_nonneg _ hs.blockHeaderHeight))
  | blockSection text =>
      simp only [step, blockSection] at hrow ⊢
      split at hrow
      · cases hrow
      · next k rest hopen =>
          exact placeRow_room_of_le roster index none (.blockSection (some k)) rfl (le_refl _)
            (heightOf_bandLabel_nonneg ht text)
  | blockEnd =>
      simp only [step, blockEnd] at hrow ⊢
      split at hrow
      · cases hrow
      · have hclosed : ∀ (st' : State Rat) (y : Rat),
            (st'.closeBlock y (some index)).2.cursor = st'.cursor :=
          fun st' y => congrArg Progress.cursor (progress_closeBlock st' y (some index))
        simp only [hclosed]
        exact placeRow_room_of_le roster index none (.blockEnd none) rfl (le_refl _) (le_refl _)

end State

/-! ### Bars -/

namespace Progress

variable {s : Setting Rat} {c : Nat → Rat} {p p' : Progress Rat}

/-- Bars end where the cursor was after they were closed, or above. -/
def EndsBy (c : Nat → Rat) (p : Progress Rat) : Prop :=
  ∀ (i : Nat) (a : Activation Rat), p.activations[i]? = some a → ∀ k ∈ a.endEvent,
    a.endY ≤ c (k + 1)

/-- Beginnings of bars do not matter. -/
lemma EndsBy.map {f : Nat → Activation Rat → Rat} (h : p.EndsBy c)
    (hp' : ∀ i : Nat, p'.activations[i]? =
      p.activations[i]?.map fun a => { a with startY := f i a }) : p'.EndsBy c := by
  intro i a ha
  rw [hp', Option.map_eq_some_iff] at ha
  obtain ⟨old, hold, rfl⟩ := ha
  exact h i old hold

lemma EndsBy.roused (h : p.EndsBy c) (activation : Nat) : (p.roused activation).EndsBy c := by
  refine h.map (f := fun i a => if activation = i then p.top p.cursor i a else a.startY) fun i => ?_
  rw [getElem?_roused]
  split
  · rfl
  · rw [Option.map_id']

/-- Closing a bar moves the cursor to its end at least. -/
lemma endOf_le_cursor_ended {activation : Nat} {a : Activation Rat}
    (ha : p.activations[activation]? = some a) (floor : Rat) (endEvent : Option Nat) :
    p.endOf s activation a floor ≤ (p.ended s activation floor endEvent).cursor := by
  rw [ended, ha]
  exact le_max_right _ _

lemma EndsBy.ended (h : p.EndsBy c) (activation : Nat) (floor : Rat) {endEvent : Option Nat}
    (hend : ∀ k ∈ endEvent, (p.ended s activation floor endEvent).cursor ≤ c (k + 1)) :
    (p.ended s activation floor endEvent).EndsBy c := by
  intro i a ha k hk
  rw [getElem?_ended] at ha
  split at ha
  · next heq =>
      subst heq
      obtain ⟨old, hold, rfl⟩ := Option.map_eq_some_iff.mp ha
      exact (endOf_le_cursor_ended hold floor endEvent).trans (hend k hk)
  · exact h i a ha k hk

/-- **An event leaves bars where they end.** -/
lemma EndsBy.step {count n : Nat} {slot : Slot Rat} (h : p.EndsBy c)
    (hstep : Step s count n p slot p') (hle : p.cursor ≤ c (n + 1))
    (hcursor : p'.cursor = c (n + 1)) :
    p'.EndsBy c := by
  cases hstep with
  | row habove hbelow hkind => exact h.map (getElem?_begun p _)
  | nothing => exact h
  | opens hcolumn =>
      intro i a ha k hk
      rw [opened, Array.getElem?_push] at ha
      split at ha
      · obtain rfl := Option.some.inj ha
        cases hk
      · exact h i a ha k hk
  | strayEnds hcolumn hnone =>
      intro i a ha k hk
      rw [strayEnd, Array.getElem?_push] at ha
      split at ha
      · obtain rfl := Option.some.inj ha
        obtain rfl := Option.some.inj hk
        exact hle
      · exact h i a ha k hk
  | @closes column activation rest y hcolumn hrunning =>
      have hpopped : ((p.roused activation).popped column rest).EndsBy c := h.roused activation
      refine hpopped.ended _ _ fun k hk => ?_
      obtain rfl := Option.some.inj hk
      exact hcursor.le

/-- What is still open in the end is closed by no event. -/
lemma EndsBy.finished (h : p.EndsBy c) : (p.finished s).EndsBy c := by
  rw [Progress.finished]
  generalize p.running.toList.flatten = stack
  have hbegun : EndsBy c { p with pending := [], activations := p.begun p.cursor } :=
    h.map (getElem?_begun p _)
  generalize { p with pending := [], activations := p.begun p.cursor } = q at hbegun ⊢
  induction stack generalizing q with
  | nil => exact hbegun
  | cons activation stack ih => exact ih _ (hbegun.ended _ _ fun k hk => by cases hk)

end Progress

/-! ### Heads and sections of blocks -/

/-- A block without its columns and its end: where its head and its sections begin,
and how high they are. -/
structure Caption where
  /-- The event that opens it. -/
  startEvent : Nat
  /-- Where it begins. -/
  top : Rat
  /-- The height of its head. -/
  head : Rat
  /-- Where its further sections begin, and how high their texts are. -/
  parts : List (Rat × Rat)

/-- The caption of a block. -/
def BlockSpan.caption (s : Setting Rat) (b : BlockSpan Rat) : Caption :=
  ⟨b.startEvent, b.top, b.head s, b.sections.map fun part =>
    (part.y, MeasuredText.heightOf part.label)⟩

/-- Whether an event opens a block or begins a section. -/
def SlotKind.captions : SlotKind Rat → Bool
  | .blockStart _ => true
  | .blockSection (some _) => true
  | _ => false

/-- What an event with a given index can do to the captions of blocks, while the cursor moves from
one height to another. -/
inductive Caption.Step (e low high : Rat) (index : Nat) (C : Array Caption) :
    Slot Rat → Array Caption → Prop
  /-- It neither opens a block nor begins a section. -/
  | pass {slot : Slot Rat} (hslot : slot.kind.captions = false) : Step e low high index C slot C
  /-- It opens a block. -/
  | start {y head : Rat} (hroom : Room e low high y (y + head)) :
      Step e low high index C ⟨y, true, .blockStart C.size⟩ (C.push ⟨index, y, head, []⟩)
  /-- It begins a section. -/
  | part {y height : Rat} {k : Nat} (hk : k < C.size) (hheight : 0 ≤ height)
      (hroom : Room e low high y (y + height)) :
      Step e low high index C ⟨y, true, .blockSection (some k)⟩
        (C.modify k fun b => { b with parts := b.parts ++ [(y, height)] })

namespace State

variable {s : Setting Rat} {st : State Rat}

/-- The captions of the blocks so far. -/
def captions (s : Setting Rat) (st : State Rat) : Array Caption := st.blocks.map (·.caption s)

/-- What does not concern captions may change. -/
lemma caption_modify (blocks : Array (BlockSpan Rat)) (k : Nat) {f : BlockSpan Rat → BlockSpan Rat}
    (hf : ∀ b, (f b).caption s = b.caption s) :
    (blocks.modify k f).map (·.caption s) = blocks.map (·.caption s) := by
  refine Array.ext (by simp) fun i hi _ => ?_
  simp only [Array.getElem_map, Array.getElem_modify]
  split
  · exact hf _
  · rfl

lemma captions_touchAll (st : State Rat) (columns : List Nat) :
    (st.touchAll columns).captions s = st.captions s := by
  rw [touchAll]
  induction columns generalizing st with
  | nil => rfl
  | cons column columns ih =>
      rw [List.foldl_cons, ih, touch]
      split
      · rfl
      · rw [captions, caption_modify]
        · rfl
        · exact fun _ => rfl

lemma captions_closeBlock (st : State Rat) (y : Rat) (endEvent : Option Nat) :
    (st.closeBlock y endEvent).2.captions s = st.captions s := by
  rw [closeBlock]
  split
  · rfl
  · next k rest _ =>
      have hclose : (st.blocks.modify k fun b =>
          { b with bottom := y, endEvent := endEvent }).map (·.caption s) = st.captions s :=
        caption_modify _ _ fun _ => by rfl
      rw [captions]
      dsimp only
      split
      · exact hclose
      · split
        · exact hclose
        · exact (caption_modify _ _ fun _ => by rfl).trans hclose

lemma blocks_closeActivation (st : State Rat) (activation : Nat) (floor : Rat)
    (endEvent : Option Nat) :
    (st.closeActivation s activation floor endEvent).2.blocks = st.blocks := by
  rw [closeActivation]
  split <;> rfl

lemma captions_deactivate (st : State Rat) (roster : Roster Rat) (index : Nat) (id : Ident) :
    (st.deactivate s roster index id).1.captions s = st.captions s := by
  rw [deactivate]
  split
  · rfl
  · next column _ =>
      have htouch : (st.touch column).captions s = st.captions s := captions_touchAll st [column]
      dsimp only
      split
      · exact htouch
      · rw [captions, blocks_closeActivation]
        split <;> exact htouch

/-- Closing what is open in the end leaves the captions. -/
lemma captions_finish (st : State Rat) : (st.finish s).captions s = st.captions s := by
  have hblocks : ∀ (opened : List Nat) (st : State Rat), (opened.foldl (fun st _ =>
      let bottom := st.cursor + s.config.sequence.eventSpacing
      ({ st with cursor := bottom }.closeBlock bottom none).2) st).captions s = st.captions s := by
    intro opened
    induction opened with
    | nil => exact fun _ => rfl
    | cons k opened ih => exact fun st => (ih _).trans (captions_closeBlock _ _ none)
  have hcolumn : ∀ (stack : List Nat) (st : State Rat), (stack.foldl (fun st activation =>
      (st.closeActivation s activation st.cursor none).2) st).blocks = st.blocks := by
    intro stack
    induction stack with
    | nil => exact fun _ => rfl
    | cons activation stack ih =>
        exact fun st => (ih _).trans (blocks_closeActivation st activation _ none)
  have hcolumns : ∀ (running : List (List Nat)) (st : State Rat), (running.foldl (fun st stack =>
      stack.foldl (fun st activation => (st.closeActivation s activation st.cursor none).2) st)
        st).blocks = st.blocks := by
    intro running
    induction running with
    | nil => exact fun _ => rfl
    | cons stack running ih => exact fun st => (ih _).trans (hcolumn stack st)
  rw [finish, closeBlocks, hblocks, captions, closeActivations, ← Array.foldl_toList, hcolumns]
  rfl

/-- **An event opens a block, begins a section, or leaves the captions.** -/
lemma step_captions (ht : s.MeasuresLengths) (st : State Rat) (roster : Roster Rat) (index : Nat)
    (event : Event) (hopen : ∀ k ∈ st.openBlocks, k < st.blocks.size) :
    Caption.Step s.config.sequence.eventSpacing st.cursor
      (st.step s roster index event).state.cursor index (st.captions s)
      (st.step s roster index event).slot ((st.step s roster index event).state.captions s) := by
  have hsize : (st.captions s).size = st.blocks.size := Array.size_map
  -- an event that does not concern captions may touch blocks and close them
  have hpass : ∀ {high : Rat} {slot : Slot Rat} {C : Array Caption}, slot.kind.captions = false →
      C = st.captions s → Caption.Step s.config.sequence.eventSpacing st.cursor high index
        (st.captions s) slot C := by
    rintro high slot C hslot rfl
    exact .pass hslot
  cases event with
  | message m => exact hpass rfl (captions_touchAll st _)
  | note n => exact hpass rfl (captions_touchAll st _)
  | divider text => exact hpass rfl rfl
  | delay text => exact hpass rfl rfl
  | activate id =>
      simp only [step, activate]
      split
      · exact hpass rfl rfl
      · next column _ => exact hpass rfl (captions_touchAll st [column])
  | deactivate id =>
      refine hpass ?_ (captions_deactivate st roster index id)
      simp only [step, deactivate]
      split
      · rfl
      · split <;> rfl
  | blockStart header =>
      simp only [step, blockStart]
      set head := max (max s.config.sequence.blockHeaderHeight _) (MeasuredText.heightOf _)
      have hroom := (placeRow_room s roster st index 0 head none).1
      rw [sub_zero] at hroom
      have hstart : Caption.Step _ st.cursor _ index (st.captions s) _ _ := .start hroom
      rw [hsize] at hstart
      refine (congrArg (Caption.Step _ _ _ _ _ _) ?_).mpr hstart
      simp only [captions, placeRow, Array.map_push]
      rfl
  | blockSection text =>
      simp only [step, blockSection]
      split
      · exact hpass rfl rfl
      · next k rest hstack =>
          have hroom := (placeRow_room s roster st index 0
            (MeasuredText.heightOf (bandLabel s text)) none).1
          rw [sub_zero] at hroom
          have hk : k < (st.captions s).size := hsize ▸ hopen k (hstack ▸ List.mem_cons_self)
          have hmodify : ∀ (y : Rat) (label : Option (MeasuredText Rat)),
              (st.blocks.modify k fun b =>
                { b with sections := b.sections ++ [⟨y, label⟩] }).map (·.caption s) =
              (st.captions s).modify k fun b =>
                { b with parts := b.parts ++ [(y, MeasuredText.heightOf label)] } :=
            fun _ _ => map_modify (fun b => by simp [BlockSpan.caption, BlockSpan.head]) st.blocks k
          exact (congrArg (Caption.Step _ _ _ _ _ _) (hmodify _ _)).mpr
            (.part hk (heightOf_bandLabel_nonneg ht text) hroom)
  | blockEnd =>
      simp only [step, blockEnd]
      split
      · exact hpass rfl rfl
      · exact hpass rfl (captions_closeBlock _ _ _)

end State

/-- Captions after some events lie in the rooms of their events, with the cursor at `c i` before
event `i`.  Events that open blocks or begin sections refer to them. -/
structure Captions (e : Rat) (c : Nat → Rat) (done : List (Slot Rat)) (C : Array Caption) :
    Prop where
  heads : ∀ (k : Nat) (b : Caption), C[k]? = some b →
    Room e (c b.startEvent) (c (b.startEvent + 1)) b.top (b.top + b.head)
  parts : ∀ (k : Nat) (b : Caption), C[k]? = some b → ∀ part ∈ b.parts,
    0 ≤ part.2 ∧ ∃ i, Room e (c i) (c (i + 1)) part.1 (part.1 + part.2)
  starts : ∀ (i : Nat) (slot : Slot Rat) (k : Nat), done[i]? = some slot →
    slot.kind = .blockStart k → ∃ b, C[k]? = some b ∧ b.startEvent = i ∧ b.top = slot.y
  sections : ∀ (i : Nat) (slot : Slot Rat) (k : Nat), done[i]? = some slot →
    slot.kind = .blockSection (some k) → ∃ b, C[k]? = some b ∧ ∃ part ∈ b.parts, part.1 = slot.y

namespace Caption.Step

variable {e low high : Rat} {index : Nat} {C C' : Array Caption} {slot : Slot Rat} {k : Nat}
  {b : Caption}

/-- Captions keep their places, and sections are only added. -/
lemma grows (h : Step e low high index C slot C') (hb : C[k]? = some b) :
    ∃ b', C'[k]? = some b' ∧ b'.startEvent = b.startEvent ∧ b'.top = b.top ∧
      ∀ part ∈ b.parts, part ∈ b'.parts := by
  cases h with
  | pass => exact ⟨b, hb, rfl, rfl, fun _ hpart => hpart⟩
  | start hroom =>
      have hne : k ≠ C.size := ((Array.getElem?_eq_some_iff.mp hb).1).ne
      exact ⟨b, by rw [Array.getElem?_push, if_neg hne, hb], rfl, rfl, fun _ hpart => hpart⟩
  | @part y height k' hk hheight hroom =>
      rw [Array.getElem?_modify]
      split
      · exact ⟨{ b with parts := b.parts ++ [(y, height)] }, by rw [hb, Option.map_some], rfl, rfl,
          fun _ => List.mem_append_left _⟩
      · exact ⟨b, hb, rfl, rfl, fun _ hpart => hpart⟩

/-- The caption of the block that an event opens. -/
lemma exists_start (h : Step e low high index C slot C') (hslot : slot.kind = .blockStart k) :
    ∃ b, C'[k]? = some b ∧ b.startEvent = index ∧ b.top = slot.y := by
  cases h with
  | pass hpass => rw [hslot] at hpass; cases hpass
  | start hroom =>
      obtain rfl := SlotKind.blockStart.inj hslot
      exact ⟨_, Array.getElem?_push_size, rfl, rfl⟩
  | part hk hheight hroom => cases hslot

/-- The caption of the block in which an event begins a section. -/
lemma exists_section (h : Step e low high index C slot C')
    (hslot : slot.kind = .blockSection (some k)) :
    ∃ b, C'[k]? = some b ∧ ∃ part ∈ b.parts, part.1 = slot.y := by
  cases h with
  | pass hpass => rw [hslot] at hpass; cases hpass
  | start hroom => cases hslot
  | part hk hheight hroom =>
      obtain rfl := Option.some.inj (SlotKind.blockSection.inj hslot)
      rw [Array.getElem?_modify, if_pos rfl, Array.getElem?_eq_getElem hk]
      exact ⟨_, rfl, _, List.mem_append_right _ List.mem_cons_self, rfl⟩

end Caption.Step

namespace Captions

variable {e : Rat} {c : Nat → Rat} {done : List (Slot Rat)} {C C' : Array Caption} {slot : Slot Rat}

lemma nil : Captions e c [] #[] := by
  refine ⟨fun k b hb => ?_, fun k b hb => ?_, fun i slot k hslot => ?_, fun i slot k hslot => ?_⟩
  · cases hb
  · cases hb
  · cases hslot
  · cases hslot

/-- Events of activations may be moved. -/
lemma map_settle (h : Captions e c done C) (activations : Array (Activation Rat)) :
    Captions e c (done.map (Timeline.settle activations)) C := by
  refine ⟨h.heads, h.parts, fun i x k hx hkind => ?_, fun i x k hx hkind => ?_⟩
  all_goals
    rw [List.getElem?_map] at hx
    obtain ⟨slot, hslot, rfl⟩ := Option.map_eq_some_iff.mp hx
    rw [Timeline.kind_settle] at hkind
    rw [Timeline.settle_eq_self (by rw [hkind]; rfl)]
  · exact h.starts i slot k hslot hkind
  · exact h.sections i slot k hslot hkind

/-- Heads stay in the rooms of their events. -/
lemma heads_step (h : Captions e c done C)
    (hstep : Caption.Step e (c done.length) (c (done.length + 1)) done.length C slot C') (k : Nat)
    (b : Caption) (hb : C'[k]? = some b) :
    Room e (c b.startEvent) (c (b.startEvent + 1)) b.top (b.top + b.head) := by
  cases hstep with
  | pass => exact h.heads k b hb
  | start hroom =>
      rw [Array.getElem?_push] at hb
      split at hb
      · obtain rfl := Option.some.inj hb
        exact hroom
      · exact h.heads k b hb
  | part hk hheight hroom =>
      obtain ⟨-, hold⟩ | ⟨-, old, hold, rfl⟩ := of_getElem?_modify hb
      · exact h.heads k b hold
      · exact h.heads k old hold

/-- Sections stay in the rooms of their events. -/
lemma parts_step (h : Captions e c done C)
    (hstep : Caption.Step e (c done.length) (c (done.length + 1)) done.length C slot C') (k : Nat)
    (b : Caption) (hb : C'[k]? = some b) :
    ∀ part ∈ b.parts, 0 ≤ part.2 ∧ ∃ i, Room e (c i) (c (i + 1)) part.1 (part.1 + part.2) := by
  cases hstep with
  | pass => exact h.parts k b hb
  | start hroom =>
      rw [Array.getElem?_push] at hb
      split at hb
      · obtain rfl := Option.some.inj hb
        exact fun part hpart => absurd hpart List.not_mem_nil
      · exact h.parts k b hb
  | part hk hheight hroom =>
      obtain ⟨-, hold⟩ | ⟨-, old, hold, rfl⟩ := of_getElem?_modify hb
      · exact h.parts k b hold
      · rw [List.forall_mem_append, List.forall_mem_singleton]
        exact ⟨h.parts k old hold, hheight, done.length, hroom⟩

/-- **Every step leaves captions in the rooms of their events.** -/
lemma step (h : Captions e c done C)
    (hstep : Caption.Step e (c done.length) (c (done.length + 1)) done.length C slot C') :
    Captions e c (done ++ [slot]) C' := by
  refine ⟨h.heads_step hstep, h.parts_step hstep, fun i x k hx hkind => ?_,
    fun i x k hx hkind => ?_⟩
  · obtain hx | ⟨rfl, rfl⟩ := of_getElem?_concat hx
    · obtain ⟨b, hb, hstart, htop⟩ := h.starts i x k hx hkind
      obtain ⟨b', hb', hstart', htop', -⟩ := hstep.grows hb
      exact ⟨b', hb', hstart'.trans hstart, htop'.trans htop⟩
    · exact hstep.exists_start hkind
  · obtain hx | ⟨rfl, rfl⟩ := of_getElem?_concat hx
    · obtain ⟨b, hb, part, hpart, hy⟩ := h.sections i x k hx hkind
      obtain ⟨b', hb', -, -, hparts⟩ := hstep.grows hb
      exact ⟨b', hb', part, hparts part hpart, hy⟩
    · exact hstep.exists_section hkind

end Captions

/-! ### Timelines -/

namespace State

variable {s : Setting Rat} (hs : s.config.sequence.Sensible) (ht : s.MeasuresLengths)
  (roster : Roster Rat) (events : List Event)

include hs ht

/-- Open blocks are among those so far. -/
lemma lt_size_of_mem_openBlocks {n k : Nat} (hn : n ≤ events.length)
    (hk : k ∈ (after s roster events n).openBlocks) :
    k < (after s roster events n).blocks.size := by
  obtain ⟨t, ht'⟩ := List.mem_iff_getElem?.mp hk
  obtain ⟨b, hb, -⟩ := (follows_after hs ht hn).opened t k ht'
  rw [← Array.size_map (f := BlockSpan.extent)]
  exact (Array.getElem?_eq_some_iff.mp hb).1

/-- **After all events captions lie in the rooms of their events, and bars end where they were
closed.** -/
lemma rooms_run :
    let c := fun n => (after s roster events n).cursor
    let run := (start roster).run s roster 0 events
    Captions s.config.sequence.eventSpacing c run.2.1 (run.1.captions s) ∧
      run.1.progress.EndsBy c := by
  intro c run
  have hc : Monotone c := monotone_cursor_after hs ht
  have hnone : (start roster).captions s = #[] := Array.map_empty
  refine (@run_events_induction Rat _ s (start roster) roster events
    (fun done st => st = after s roster events done.length ∧
      Captions s.config.sequence.eventSpacing c done (st.captions s) ∧ st.progress.EndsBy c)
    (fun done st event hevent h => ?_) ⟨rfl, hnone ▸ Captions.nil, fun i a ha => by cases ha⟩).2
  obtain ⟨rfl, hcaptions, hends⟩ := h
  have hnext : after s roster events (done.length + 1) = _ := after_succ hevent
  have hlt : done.length < events.length := (List.getElem?_eq_some_iff.mp hevent).1
  have hcaption := step_captions ht (after s roster events done.length) roster done.length
    event fun k => lt_size_of_mem_openBlocks hs ht roster events hlt.le
  have hstep : Progress.Step s roster.length done.length
      (after s roster events done.length).progress _ _ := step_progress hs ht event
  rw [List.length_append, List.length_singleton]
  rw [← hnext] at hcaption hstep ⊢
  exact ⟨rfl, hcaptions.step hcaption, hends.step hstep (hc (Nat.le_succ _)) rfl⟩

end State

namespace Timeline

/-- All that belongs to a row lies in the stretch that the cursor passes in its event, with the
cursor at `c i` before event `i`, and bars end where the cursor was when they were closed. -/
structure HasRooms (t : Timeline Rat) (s : Setting Rat) (roster : Roster Rat) (c : Nat → Rat) :
    Prop where
  mono : Monotone c
  upright : ∀ (i : Nat) (slot : Slot Rat), t.slots[i]? = some slot → slot.kind.Upright s
  rows : ∀ (i : Nat) (slot : Slot Rat), t.slots[i]? = some slot → slot.isRow = true →
    Room s.config.sequence.eventSpacing (c i) (c (i + 1)) (slot.y - slot.kind.above s)
      (slot.y + slot.kind.below s)
  created : ∀ (i : Nat) (slot : Slot Rat), t.slots[i]? = some slot → slot.isRow = true →
    ∀ column ∈ roster, column.createdAt = some i →
      Room s.config.sequence.eventSpacing (c i) (c (i + 1))
        (slot.y - Scalar.half column.header.height) (slot.y + Scalar.half column.header.height)
  captions : Captions s.config.sequence.eventSpacing c t.slots (t.blocks.map (·.caption s))
  bars : ∀ a ∈ t.activations, ∀ k ∈ a.endEvent, a.endY ≤ c (k + 1)

variable {s : Setting Rat} {roster : Roster Rat} {m : Model}

/-- A slot is what its event becomes, and one with a row is not moved in the end. -/
lemma exists_step {i : Nat} {slot : Slot Rat} (h : (ofModel s roster m).slots[i]? = some slot) :
    ∃ event, m.events[i]? = some event ∧
      let step := (State.after s roster m.events i).step s roster i event
      slot.kind = step.slot.kind ∧ (slot.isRow = true → slot = step.slot) := by
  obtain ⟨event, hevent⟩ := exists_event h
  have hslot := exists_slot s roster hevent
  rw [h, Option.some.injEq] at hslot
  refine ⟨event, hevent, by rw [hslot, kind_settle, State.after], fun hrow => ?_⟩
  rw [hslot, isRow_settle] at hrow
  rw [hslot, settle_eq_self ((State.isRow_step _ i event).2 hrow), State.after]

variable (hs : s.config.sequence.Sensible) (ht : s.MeasuresLengths)

include hs ht

lemma rooms_of_row {i : Nat} {slot : Slot Rat} (h : (ofModel s roster m).slots[i]? = some slot)
    (hrow : slot.isRow = true) :
    let e := s.config.sequence.eventSpacing
    let c := fun n => (State.after s roster m.events n).cursor
    Room e (c i) (c (i + 1)) (slot.y - slot.kind.above s) (slot.y + slot.kind.below s) ∧
      ∀ column ∈ roster, column.createdAt = some i → Room e (c i) (c (i + 1))
        (slot.y - Scalar.half column.header.height)
          (slot.y + Scalar.half column.header.height) := by
  obtain ⟨event, hevent, -, heq⟩ := exists_step h
  obtain rfl := heq hrow
  dsimp only
  rw [State.after_succ hevent]
  exact State.room_step hs ht (State.after s roster m.events i) roster i event hrow

/-- **The rows of every timeline have rooms.** -/
lemma exists_rooms (roster : Roster Rat) (m : Model) :
    ∃ c, (ofModel s roster m).HasRooms s roster c := by
  obtain ⟨hcaptions, hends⟩ := State.rooms_run hs ht roster m.events
  refine ⟨fun n => (State.after s roster m.events n).cursor, State.monotone_cursor_after hs ht,
    fun i slot hslot => ?_, fun i slot hslot hrow => (rooms_of_row hs ht hslot hrow).1,
    fun i slot hslot hrow => (rooms_of_row hs ht hslot hrow).2, ?_, fun a ha k hk => ?_⟩
  · obtain ⟨event, -, hkind, -⟩ := exists_step hslot
    rw [hkind]
    exact State.upright_step hs ht _ roster i event
  · have hsame : (ofModel s roster m).blocks.map (·.caption s) = State.captions s _ :=
      State.captions_finish ((State.start roster).run s roster 0 m.events).1
    rw [hsame]
    exact hcaptions.map_settle _
  · obtain ⟨i, hi⟩ := Array.mem_iff_getElem?.mp ha
    have hactivations : (ofModel s roster m).activations = _ := State.activations_finish _
    rw [hactivations] at hi
    exact hends.finished i a hi k hk

end Timeline

end Drafting.Sequence
