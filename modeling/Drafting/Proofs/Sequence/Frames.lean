import Mathlib
import Drafting.Proofs.Sequence.Faults

/-!
The heights of frames and of notes.

A block ends below all that was drawn since it began, so its head and the texts of its sections lie
above its end.  While it is open the cursor stands for that end.

* `BlockSpan.FitsAbove`: the head and the sections of a block lie above a height.
* `State.Framed`, `State.Framed.step`: what every event keeps.
* `Timeline.blocks_fit`: at the end all blocks have room for their texts.
* `Timeline.notes_fit`: so have notes.
-/

namespace Drafting.Sequence

variable {s : Setting Rat}

/-- The height of the head of a block. -/
def BlockSpan.head (s : Setting Rat) (b : BlockSpan Rat) : Rat :=
  max (max s.config.sequence.blockHeaderHeight b.tab.size.height) (MeasuredText.heightOf b.label)

/-- The head and the sections of a block lie above a height, and its texts have lengths. -/
structure BlockSpan.FitsAbove (s : Setting Rat) (b : BlockSpan Rat) (y : Rat) : Prop where
  tab : 0 ≤ b.tab.size.width
  label : 0 ≤ MeasuredText.widthOf b.label
  head : b.top + b.head s ≤ y
  sections : ∀ part ∈ b.sections,
    b.top ≤ part.y ∧ part.y + MeasuredText.heightOf part.label ≤ y

lemma BlockSpan.FitsAbove.mono {b : BlockSpan Rat} {y z : Rat} (h : b.FitsAbove s y) (hyz : y ≤ z) :
    b.FitsAbove s z :=
  ⟨h.tab, h.label, h.head.trans hyz, fun part hpart =>
    ⟨(h.sections part hpart).1, (h.sections part hpart).2.trans hyz⟩⟩

namespace State

/-- Open blocks fit above the cursor, the others above their ends. -/
structure Framed (s : Setting Rat) (st : State Rat) : Prop where
  cursor : 0 ≤ st.cursor
  blocks : ∀ i (b : BlockSpan Rat), st.blocks[i]? = some b →
    b.FitsAbove s (if i ∈ st.openBlocks then st.cursor else b.bottom)

namespace Framed

variable {st next : State Rat}

/-- The cursor may move down. -/
lemma grow (h : Framed s st) (hblocks : next.blocks = st.blocks)
    (hopen : next.openBlocks = st.openBlocks) (hcursor : st.cursor ≤ next.cursor) :
    Framed s next := by
  refine ⟨h.cursor.trans hcursor, fun i b hb => ?_⟩
  rw [hblocks] at hb
  rw [hopen]
  refine (h.blocks i b hb).mono ?_
  split
  · exact hcursor
  · exact le_refl _

/-- What does not concern the heights of a block may change. -/
lemma modify (h : Framed s st) (k : Nat) {f : BlockSpan Rat → BlockSpan Rat}
    (hf : ∀ b, (f b).bottom = b.bottom ∧ ∀ y, b.FitsAbove s y → (f b).FitsAbove s y) :
    Framed s { st with blocks := st.blocks.modify k f } := by
  refine ⟨h.cursor, fun i b hb => ?_⟩
  rw [Array.getElem?_modify] at hb
  split at hb
  · obtain ⟨old, hold, rfl⟩ := Option.map_eq_some_iff.mp hb
    rw [(hf old).1]
    exact (hf old).2 _ (h.blocks i old hold)
  · exact h.blocks i b hb

lemma touch (h : Framed s st) (column : Nat) : Framed s (st.touch column) := by
  rw [State.touch]
  split
  · exact h
  · exact h.modify _ fun b => ⟨rfl, fun y hy => ⟨hy.tab, hy.label, hy.head, hy.sections⟩⟩

lemma foldl {β : Type} {f : State Rat → β → State Rat} (h : Framed s st)
    (hf : ∀ st x, Framed s st → Framed s (f st x)) (xs : List β) : Framed s (xs.foldl f st) := by
  induction xs generalizing st with
  | nil => exact h
  | cons x xs ih => exact ih (hf st x h)

lemma touchAll (h : Framed s st) (columns : List Nat) : Framed s (st.touchAll columns) :=
  h.foldl (fun _ column h => h.touch column) columns

/-- The innermost block is closed at the cursor or below it; the cursor may move down first. -/
lemma close (h : Framed s st) (next : State Rat) (hblocks : next.blocks = st.blocks)
    (hopen : next.openBlocks = st.openBlocks) (hcursor : st.cursor ≤ next.cursor) {y : Rat}
    (hy : st.cursor ≤ y) (endEvent : Option Nat) : Framed s (next.closeBlock y endEvent).2 := by
  have hgrown := h.grow hblocks hopen hcursor
  rw [closeBlock]
  split
  · exact hgrown
  · next block rest hstack =>
      have hclosed : Framed s { next with
          openBlocks := rest
          blocks := next.blocks.modify block fun b =>
            { b with bottom := y, endEvent := endEvent } } := by
        refine ⟨hgrown.cursor, fun i b hb => ?_⟩
        rw [Array.getElem?_modify] at hb
        split at hb
        · next heq =>
            subst heq
            obtain ⟨old, hold, rfl⟩ := Option.map_eq_some_iff.mp hb
            have hfits := h.blocks block old (hblocks ▸ hold)
            rw [if_pos (by rw [← hopen, hstack]; exact List.mem_cons_self)] at hfits
            have hfits : BlockSpan.FitsAbove s
                { old with bottom := y, endEvent := endEvent } st.cursor :=
              ⟨hfits.tab, hfits.label, hfits.head, hfits.sections⟩
            refine hfits.mono ?_
            dsimp only
            split
            · exact hcursor
            · exact hy
        · next hne =>
            have hfits := hgrown.blocks i b hb
            rw [hstack] at hfits
            simpa [Ne.symm hne] using hfits
      dsimp only
      split
      · exact hclosed
      · split
        · exact hclosed
        · exact hclosed.modify _ fun b => ⟨rfl,
            fun y hy => ⟨hy.tab, hy.label, hy.head, hy.sections⟩⟩

lemma closeActivation (h : Framed s st) (activation : Nat) (floor : Rat) (endEvent : Option Nat) :
    Framed s (st.closeActivation s activation floor endEvent).2 := by
  rw [State.closeActivation]
  split
  · exact h
  · exact h.grow rfl rfl (le_max_left _ _)

end Framed

/-! ### One event -/

variable {st : State Rat}

/-- A row lies below the cursor and above the next one, with the room that it needs. -/
lemma placeRow_spec (hs : s.config.sequence.Sensible) (st : State Rat) (roster : Roster Rat)
    (index : Nat) {above : Rat} (habove : 0 ≤ above) (below : Rat) (target : Option Nat) :
    st.cursor < (st.placeRow s roster index above below target).1 ∧
      (st.placeRow s roster index above below target).1 + below ≤
        (st.placeRow s roster index above below target).2.cursor := by
  have hspacing : 0 < s.config.sequence.eventSpacing := hs.eventSpacing.2
  simp only [placeRow]
  set halves := (roster.filter (·.createdAt == some index)).map fun c => Scalar.half c.header.height
  have hroom := (Scalar.le_maximum above halves).1
  have hbelow := (Scalar.le_maximum below halves).1
  exact ⟨by linarith, by linarith⟩

lemma Framed.placeRow (hs : s.config.sequence.Sensible) (h : Framed s st) (roster : Roster Rat)
    (index : Nat) {above below : Rat} (habove : 0 ≤ above) (hbelow : 0 ≤ below)
    (target : Option Nat) : Framed s (st.placeRow s roster index above below target).2 := by
  obtain ⟨hrow, hnext⟩ := placeRow_spec hs st roster index habove below target
  exact h.grow rfl rfl (by linarith)

lemma heightOf_bandLabel_nonneg (ht : s.MeasuresLengths) (text : Option String) :
    0 ≤ MeasuredText.heightOf (bandLabel s text) := by
  cases text with
  | none => exact le_refl _
  | some text => exact (ht.measured _ _ _).2

lemma half_dividerHeight_nonneg (hs : s.config.sequence.Sensible) (needed : Rat) :
    0 ≤ Scalar.half (max s.config.sequence.dividerHeight needed) :=
  Lengths.half_nonneg (Lengths.max_nonneg needed hs.dividerHeight)

variable (hs : s.config.sequence.Sensible) (ht : s.MeasuresLengths) (roster : Roster Rat)
  (index : Nat)

include hs ht

/-- A message takes a row, with room for its text above and for a loop below. -/
lemma exists_placeRow_message (st : State Rat) (m : Message) :
    ∃ columns above below target, 0 ≤ above ∧ 0 ≤ below ∧ (st.message s roster index m).1 =
      ((st.touchAll columns).placeRow s roster index above below target).2 := by
  refine ⟨_, _, _, _, ?_, ?_, rfl⟩
  · cases m.label with
    | none => exact le_refl _
    | some text => exact add_nonneg (ht.measured _ _ _).2 hs.messageLabelPadding
  · split
    · exact hs.selfMessageHeight
    · exact le_refl _

lemma Framed.message (h : Framed s st) (m : Message) :
    Framed s (st.message s roster index m).1 := by
  obtain ⟨columns, above, below, target, habove, hbelow, hrow⟩ :=
    exists_placeRow_message hs ht roster index st m
  rw [hrow]
  exact (h.touchAll columns).placeRow hs roster index habove hbelow target

omit hs ht in
lemma Framed.activate (h : Framed s st) (id : Ident) :
    Framed s (st.activate roster index id).1 := by
  rw [State.activate]
  split
  · exact h
  · exact (h.touch _).grow rfl rfl (le_refl _)

omit hs ht in
lemma Framed.deactivate (h : Framed s st) (id : Ident) :
    Framed s (st.deactivate s roster index id).1 := by
  rw [State.deactivate]
  split
  · exact h
  · next column _ =>
      have htouched := h.touch column
      dsimp only
      split
      · exact htouched.grow rfl rfl (le_refl _)
      · refine Framed.closeActivation (htouched.grow ?_ ?_ ?_) _ _ _
        all_goals split <;> rfl

lemma Framed.note (h : Framed s st) (n : Note) : Framed s (st.note s roster index n).1 :=
  (h.touchAll _).placeRow hs roster index (le_refl _)
    (add_nonneg (ht.measured _ _ _).2 (Lengths.twice_nonneg hs.notePadding)) _

lemma Framed.blockStart (h : Framed s st) (header : BlockHeader) :
    Framed s (st.blockStart s roster index header).1 := by
  simp only [State.blockStart]
  set tab := s.measured header.kind { s.config.styles.message with bold := true } none
  set label := header.label.map fun text => s.measured text s.config.styles.message none with hlabel
  set head := max (max s.config.sequence.blockHeaderHeight tab.size.height)
    (MeasuredText.heightOf label)
  have hhead : 0 ≤ head := Lengths.max_nonneg _ (Lengths.max_nonneg _ hs.blockHeaderHeight)
  obtain ⟨hrow, hnext⟩ := placeRow_spec hs st roster index (le_refl 0) head none
  have hplaced := h.placeRow hs roster index (le_refl 0) hhead none
  refine ⟨hplaced.cursor, fun i b hb => ?_⟩
  rw [Array.getElem?_push] at hb
  split at hb
  · next hi =>
      -- the new block has its head above the cursor
      obtain rfl := Option.some.inj hb
      rw [if_pos (by rw [hi]; exact List.mem_cons_self)]
      refine ⟨(ht.measured _ _ _).1, ?_, hnext, by simp⟩
      rw [hlabel]
      cases header.label with
      | none => exact le_refl _
      | some text => exact (ht.measured _ _ _).1
  · next hi =>
      have hfits := hplaced.blocks i b hb
      simpa [hi] using hfits

omit ht in
lemma Framed.blockSection (h : Framed s st) (text : Option String)
    (hheight : 0 ≤ MeasuredText.heightOf (bandLabel s text)) :
    Framed s (st.blockSection s roster index text).1 := by
  rw [State.blockSection]
  split
  · exact h
  · next block rest hopen =>
      obtain ⟨hrow, hnext⟩ := placeRow_spec hs st roster index (le_refl 0)
        (MeasuredText.heightOf (bandLabel s text)) none
      have hplaced := h.placeRow hs roster index (le_refl 0) hheight none
      refine ⟨hplaced.cursor, fun i b hb => ?_⟩
      rw [Array.getElem?_modify] at hb
      split at hb
      · next heq =>
          subst heq
          obtain ⟨old, hold, rfl⟩ := Option.map_eq_some_iff.mp hb
          have hmem : block ∈ st.openBlocks := hopen ▸ List.mem_cons_self
          have hfits := h.blocks block old hold
          rw [if_pos hmem] at hfits
          have hhead : 0 ≤ old.head s := Lengths.max_nonneg _
            (Lengths.max_nonneg _ hs.blockHeaderHeight)
          have htop := hfits.head
          have hkept := hfits.mono (hrow.le.trans ((le_add_of_nonneg_right hheight).trans hnext))
          split
          · refine ⟨hkept.tab, hkept.label, hkept.head, ?_⟩
            rw [List.forall_mem_append, List.forall_mem_singleton]
            refine ⟨hkept.sections, ?_, hnext⟩
            dsimp only
            linarith
          · next hclosed => exact absurd hmem hclosed
      · exact hplaced.blocks i b hb

omit ht in
lemma Framed.blockEnd (h : Framed s st) : Framed s (st.blockEnd s roster index).1 := by
  rw [State.blockEnd]
  split
  · exact h
  · obtain ⟨hrow, hnext⟩ := placeRow_spec hs st roster index (le_refl 0) 0 none
    exact h.close (st.placeRow s roster index 0 0 none).2 rfl rfl (by linarith) hrow.le _

/-- **Every event leaves room in the blocks for their texts.** -/
lemma Framed.step (h : Framed s st) (event : Event) :
    Framed s (st.step s roster index event).state := by
  cases event with
  | message m => exact h.message hs ht roster index m
  | activate id => exact h.activate roster index id
  | deactivate id => exact h.deactivate roster index id
  | note n => exact h.note hs ht roster index n
  | divider text =>
      exact h.placeRow hs roster index (half_dividerHeight_nonneg hs _)
        (half_dividerHeight_nonneg hs _) none
  | delay text =>
      exact h.placeRow hs roster index (le_refl _) (Lengths.max_nonneg _ hs.delayHeight) none
  | blockStart header => exact h.blockStart hs ht roster index header
  | blockSection text =>
    exact h.blockSection hs roster index text (heightOf_bandLabel_nonneg ht text)
  | blockEnd => exact h.blockEnd hs roster index

lemma Framed.run (h : Framed s st) (events : List Event) :
    Framed s (st.run s roster index events).1 := by
  induction events generalizing st index with
  | nil => exact h
  | cons event events ih => exact ih (index + 1) (h.step hs ht roster index event)

omit ht in
/-- Closing the blocks that are open leaves none. -/
lemma Framed.closeBlocks (h : Framed s st) :
    Framed s (st.closeBlocks s) ∧ (st.closeBlocks s).openBlocks = [] := by
  have hspacing : 0 < s.config.sequence.eventSpacing := hs.eventSpacing.2
  have hall : ∀ (xs : List Nat) (st : State Rat), Framed s st →
      Framed s (xs.foldl (fun st _ =>
        let bottom := st.cursor + s.config.sequence.eventSpacing
        ({ st with cursor := bottom }.closeBlock bottom none).2) st) ∧
      (xs.foldl (fun st _ =>
        let bottom := st.cursor + s.config.sequence.eventSpacing
        ({ st with cursor := bottom }.closeBlock bottom none).2) st).openBlocks =
        st.openBlocks.drop xs.length := by
    intro xs
    induction xs with
    | nil => exact fun st h => ⟨h, rfl⟩
    | cons x xs ih =>
        intro st h
        have hdown : st.cursor ≤ st.cursor + s.config.sequence.eventSpacing := by linarith
        obtain ⟨hframed, hopen⟩ := ih _ (h.close
          { st with cursor := st.cursor + s.config.sequence.eventSpacing } rfl rfl hdown hdown none)
        refine ⟨hframed, hopen.trans ?_⟩
        rw [openBlocks_closeBlock, List.drop_tail]
        rfl
  obtain ⟨hframed, hopen⟩ := hall st.openBlocks st h
  exact ⟨hframed, hopen.trans List.drop_length⟩

omit ht in
lemma Framed.finish (h : Framed s st) :
    Framed s (st.finish s) ∧ (st.finish s).openBlocks = [] := by
  refine Framed.closeBlocks hs ?_
  rw [closeActivations, ← Array.foldl_toList]
  refine Framed.foldl (h.grow ?_ ?_ ?_) (fun st stack h => ?_) _
  · rfl
  · rfl
  · exact le_refl _
  · exact h.foldl (fun st activation h => h.closeActivation _ _ _) stack

omit hs ht in
lemma framed_start (roster : Roster Rat) (h : 0 ≤ roster.headerRow) : Framed s (start roster) :=
  ⟨h, fun i b hb => by simp [start] at hb⟩

end State

namespace Timeline

variable (hs : s.config.sequence.Sensible) (ht : s.MeasuresLengths) (roster : Roster Rat)
  (m : Model)

include hs ht

/-- **At the end all blocks have room for their texts.** -/
lemma blocks_fit {b : BlockSpan Rat} (hb : b ∈ (ofModel s roster m).blocks) :
    b.FitsAbove s b.bottom := by
  have hstart : State.Framed s (State.start roster) :=
    State.framed_start roster (Scalar.le_maximum 0 _).1
  obtain ⟨hframed, hopen⟩ := (hstart.run hs ht roster 0 m.events).finish hs
  obtain ⟨i, hi, rfl⟩ := Array.getElem_of_mem hb
  have hfits := hframed.blocks i _ (Array.getElem?_eq_getElem hi)
  rwa [hopen, if_neg List.not_mem_nil] at hfits

end Timeline

/-! ### Notes -/

/-- A note has room for its text. -/
def SlotKind.NoteFits : SlotKind Rat → Prop
  | .note n => n.label.size.width ≤ n.size.width ∧ n.label.size.height ≤ n.size.height
  | _ => True

lemma State.noteFits_step (hs : s.config.sequence.Sensible) (st : State Rat) (roster : Roster Rat)
    (index : Nat) (event : Event) : (st.step s roster index event).slot.kind.NoteFits := by
  cases event with
  | note n =>
      have hpadding := hs.notePadding
      simp only [step, State.note, SlotKind.NoteFits]
      exact ⟨by linarith, by linarith⟩
  | message m => trivial
  | activate id =>
      simp only [step, State.activate]
      split <;> trivial
  | deactivate id =>
      simp only [step, State.deactivate]
      split
      · trivial
      · split <;> trivial
  | divider text => trivial
  | delay text => trivial
  | blockStart header => trivial
  | blockSection text =>
      simp only [step, State.blockSection]
      split <;> trivial
  | blockEnd =>
      simp only [step, State.blockEnd]
      split <;> trivial

lemma State.noteFits_run (hs : s.config.sequence.Sensible) (st : State Rat) (roster : Roster Rat)
    (index : Nat) (events : List Event) :
    ∀ slot ∈ (st.run s roster index events).2.1, slot.kind.NoteFits := by
  induction events generalizing st index with
  | nil => exact fun _ h => absurd h List.not_mem_nil
  | cons event events ih =>
      exact List.forall_mem_cons.mpr ⟨noteFits_step hs st roster index event, ih _ _⟩

/-- **All notes have room for their texts.** -/
lemma Timeline.notes_fit (hs : s.config.sequence.Sensible) (roster : Roster Rat) (m : Model) :
    ∀ slot ∈ (ofModel s roster m).slots, slot.kind.NoteFits := by
  have hkind : ∀ (activations : Array (Activation Rat)) (slot : Slot Rat),
      (settle activations slot).kind = slot.kind := by
    intro activations slot
    rw [settle]
    split <;> rfl
  rw [ofModel, List.forall_mem_map]
  intro slot hslot
  rw [hkind]
  exact State.noteFits_run hs _ roster 0 m.events slot hslot

end Drafting.Sequence
