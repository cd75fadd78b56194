import Mathlib
import Drafting.Proofs.Sequence.Outcome
import Drafting.Proofs.Sequence.Reports
import Drafting.Proofs.Sequence.Slots

/-!
How the lifetimes of participants are drawn.

A lifetime that fits the events of a diagram is not reported.  It is drawn where its ends are
events with rows: the header stands in the row of the first one, and the lifeline ends with a mark
in the row of the last one.  An end at an event without a row, such as the start of an activation,
is passed over in silence.

* `EndsAt`, `endsAt_lifeline`: where a lifeline ends.
* `Timeline.headerRow_le_of_row`: no row lies above the headers at the top.
* `ParticipantGeometry.Honours`: a participant is drawn by the rows of its lifetime.
* `Diagram.lifetimes_are_drawn_at_rows`: so is every participant whose lifetime is not reported.
* `Diagram.lifetime_without_rows_is_lost`: a lifetime that is neither drawn nor reported.
-/

namespace Drafting.Sequence

variable {α : Type} [Scalar α] {s : Setting α} {m : Model}

/-! ### Ends of lifelines -/

/-- A lifeline ends at a height; if it ends with a delay, that is cut off there. -/
def EndsAt (pieces : List (LifelineSegment α)) (stop : α) : Prop :=
  ∃ last, pieces.getLast? = some last ∧
    (last.endY = stop ∨ ¬ last.endY < stop ∧ ∃ bottom, last.endY = min bottom stop)

/-- In exact arithmetic the last piece of a lifeline ends where the lifeline does. -/
lemma EndsAt.endY_eq {pieces : List (LifelineSegment Rat)} {stop : Rat} (h : EndsAt pieces stop) :
    pieces.getLast?.map (·.endY) = some stop := by
  obtain ⟨last, hlast, hend | ⟨hstop, bottom, hend⟩⟩ := h
  · rw [hlast, Option.map_some, hend]
  · have hle : last.endY ≤ stop := hend ▸ min_le_right _ _
    rw [hlast, Option.map_some, le_antisymm hle (not_lt.mp hstop)]

lemma reached_of_nil (x stop cursor : α) (delays : List (α × α))
    (h : (lifelineFrom x stop cursor delays).1 = []) :
    (lifelineFrom x stop cursor delays).2 = cursor := by
  induction delays generalizing cursor with
  | nil => rfl
  | cons delay rest ih =>
      rw [lifelineFrom] at h ⊢
      by_cases hskip : delay.2 ≤ cursor ∨ stop ≤ delay.1
      · rw [if_pos hskip] at h ⊢
        exact ih cursor h
      · rw [if_neg hskip] at h
        dsimp only at h
        split at h <;> cases h

/-- The pieces around delays end with a delay. -/
lemma endY_getLast?_lifelineFrom (x stop cursor : α) (delays : List (α × α))
    {last : LifelineSegment α} (h : (lifelineFrom x stop cursor delays).1.getLast? = some last) :
    last.endY = (lifelineFrom x stop cursor delays).2 ∧ ∃ bottom, last.endY = min bottom stop := by
  induction delays generalizing cursor with
  | nil => cases h
  | cons delay rest ih =>
      rw [lifelineFrom] at h ⊢
      by_cases hskip : delay.2 ≤ cursor ∨ stop ≤ delay.1
      · rw [if_pos hskip] at h ⊢
        exact ih cursor h
      · rw [if_neg hskip] at h ⊢
        -- the last piece is this delay or belongs to those that follow
        have hlast : ∀ top, ((⟨x, top, min delay.2 stop, true⟩ : LifelineSegment α) ::
            (lifelineFrom x stop (min delay.2 stop) rest).1).getLast? = some last →
            last.endY = (lifelineFrom x stop (min delay.2 stop) rest).2 ∧
              ∃ bottom, last.endY = min bottom stop := by
          intro top htop
          cases hpieces : (lifelineFrom x stop (min delay.2 stop) rest).1 with
          | nil =>
              rw [hpieces, List.getLast?_singleton, Option.some.injEq] at htop
              rw [← htop, reached_of_nil _ _ _ _ hpieces]
              exact ⟨rfl, _, rfl⟩
          | cons piece pieces =>
              rw [hpieces, List.getLast?_cons_cons, ← hpieces] at htop
              exact ih _ htop
        dsimp only at h ⊢
        split at h
        · next hgap =>
            rw [if_pos hgap]
            exact hlast _ (List.getLast?_cons_cons ▸ h)
        · next hgap =>
            rw [if_neg hgap]
            exact hlast _ h

/-- **A lifeline ends where it is to end.** -/
lemma endsAt_lifeline (delays : List (α × α)) (x start stop : α) :
    EndsAt (lifeline delays x start stop) stop := by
  rw [lifeline]
  dsimp only
  split
  · exact ⟨_, List.getLast?_concat, .inl rfl⟩
  · next h =>
      obtain ⟨hreached, hpieces⟩ := not_or.mp h
      have hlast := List.getLast?_eq_some_getLast (mt List.isEmpty_iff.mpr hpieces)
      obtain ⟨hend, hbottom⟩ := endY_getLast?_lifelineFrom x stop start delays hlast
      exact ⟨_, hlast, .inr ⟨hend ▸ hreached, hbottom⟩⟩

/-! ### Rows -/

namespace Timeline

omit [Scalar α] in
lemma row?_of_slot {t : Timeline α} {i : Nat} {slot : Slot α} (h : t.slots[i]? = some slot)
    (hrow : slot.isRow = true) : t.row? i = some slot.y := by
  rw [row?, h]
  exact if_pos hrow

/-- Events without a row have none in the timeline. -/
lemma row?_eq_none (s : Setting α) (roster : Roster α) {i : Nat} (h : m.takesRow i = false) :
    (ofModel s roster m).row? i = none := by
  rw [row?]
  split
  · next slot hslot => rw [if_neg (by rw [isRow_of_slot hslot, h]; exact Bool.false_ne_true)]
  · rfl

/-- **No row lies above the headers at the top.** -/
lemma headerRow_le_of_row [Lengths α] (hs : s.config.sequence.Sensible) (ht : s.MeasuresLengths)
    (roster : Roster α) {i : Nat} {slot : Slot α}
    (h : (ofModel s roster m).slots[i]? = some slot) (hrow : slot.isRow = true) :
    roster.headerRow ≤ slot.y := by
  have he := Lengths.le_of_lt hs.eventSpacing.2
  have hheader : 0 ≤ roster.headerRow := Lengths.le_maximum Lengths.zero_le_zero _
  obtain ⟨event, hevent⟩ := exists_event h
  -- the cursor begins below the headers and only moves down
  have hcursor := @State.run_induction α _ s (State.start roster) _ hs ht roster
    (fun _ p => roster.headerRow ≤ p.cursor)
    (fun _ _ _ _ hle hstep =>
      Lengths.le_trans hle (hstep.cursor_le he (Lengths.le_trans hheader hle)))
    (m.events.take i) [] (Lengths.le_refl hheader)
  have hslot := exists_slot s roster hevent
  rw [h, Option.some.injEq] at hslot
  rw [List.length_nil] at hcursor
  set st := ((State.start roster).run s roster 0 (m.events.take i)).1
  rw [hslot, isRow_settle] at hrow
  rw [hslot, settle_eq_self ((State.isRow_step st i event).2 hrow)]
  have hstep : Progress.Step s roster.length i st.progress (st.step s roster i event).slot
      (st.step s roster i event).state.progress := State.step_progress hs ht event
  generalize (st.step s roster i event).slot = placed at hstep hrow ⊢
  generalize (st.step s roster i event).state.progress = next at hstep
  cases hstep with
  | row habove hbelow hkind =>
      have hspace := Lengths.le_add (Lengths.le_trans hheader hcursor) he
      refine Lengths.le_trans hcursor (Lengths.le_trans hspace ?_)
      exact Lengths.le_add (Lengths.le_trans (Lengths.le_trans hheader hcursor) hspace) habove
  | nothing => cases hrow
  | opens => cases hrow
  | strayEnds => cases hrow
  | closes => cases hrow

end Timeline

/-! ### Participants -/

/-- A participant is drawn by the rows of its lifetime: an end of the lifetime is shown in the row
of its event, and one at an event without a row is passed over. -/
structure ParticipantGeometry.Honours (s : Setting α) (m : Model) (l : Layout α) (p : Participant)
    (g : ParticipantGeometry α) : Prop where
  created : ∀ i ∈ p.lifetime.createdAt, m.takesRow i = true →
    ∃ e, l.events[i]? = some e ∧ e.isRow = true ∧
      g.header = Bounds.around ⟨g.centerX, e.y⟩ (Roster.column s m.events.length p).header ∧
      (s.MeasuresLengths → (Roster.ofModel s m).headerRow ≤ e.y)
  notCreated : ∀ i ∈ p.lifetime.createdAt, m.takesRow i = false →
    let size := (Roster.column s m.events.length p).header
    g.header = Bounds.ofCorner ⟨g.centerX - Scalar.half size.width,
      (Roster.ofModel s m).headerRow - size.height⟩ size
  destroyed : ∀ j ∈ p.lifetime.destroyedAt, m.takesRow j = true →
    ∃ e, l.events[j]? = some e ∧ e.isRow = true ∧ g.footer = none ∧
      let stop := max e.y g.header.maxY
      EndsAt g.lifeline stop ∧ g.destroyMark =
        some (Bounds.around ⟨g.centerX, max stop e.y⟩ ⟨destroyMarkSize, destroyMarkSize⟩)
  notDestroyed : ∀ j ∈ p.lifetime.destroyedAt, m.takesRow j = false →
    g.destroyMark = none ∧ g.footer.isSome = s.config.sequence.footbox

namespace Assembly

section Participant

variable {a : Assembly α} {delays : List (α × α)} {column : Nat} {c : Column α} {y : α}

lemma header_of_creationY (h : a.timeline.creationY c = some y) :
    (a.participant delays column c).header =
      Bounds.around ⟨a.columns.center column, y⟩ c.header := by
  simp only [participant, h]

lemma header_of_creationY_none (h : a.timeline.creationY c = none) :
    (a.participant delays column c).header = Bounds.ofCorner
      ⟨a.columns.center column - Scalar.half c.header.width,
        a.timeline.headerRow - c.header.height⟩ c.header := by
  simp only [participant, h]

/-- A participant that is destroyed has a mark at the end of its lifeline and no footer. -/
lemma participant_of_destroyY (h : a.timeline.destroyY c = some y) :
    let g := a.participant delays column c
    let stop := max y g.header.maxY
    g.footer = none ∧ EndsAt g.lifeline stop ∧ g.destroyMark =
      some (Bounds.around ⟨g.centerX, max stop y⟩ ⟨destroyMarkSize, destroyMarkSize⟩) := by
  simp only [participant, h, Option.isNone_some, Bool.and_false, Bool.false_eq_true, if_false,
    Option.getD_some, Option.map_some, true_and, and_true]
  exact endsAt_lifeline _ _ _ _

lemma participant_of_destroyY_none (h : a.timeline.destroyY c = none) :
    (a.participant delays column c).destroyMark = none ∧
      (a.participant delays column c).footer.isSome = a.distances.footbox := by
  simp only [participant, h, Option.isNone_none, Bool.and_true, Option.map_none, true_and]
  cases a.distances.footbox <;> rfl

end Participant

/-- An event that takes a row is drawn in that row. -/
lemma exists_row (s : Setting α) {i : Nat} (hi : i < m.events.length) (hrow : m.takesRow i = true) :
    ∃ e, (ofModel s m).layout.events[i]? = some e ∧ e.isRow = true ∧
      (ofModel s m).timeline.row? i = some e.y ∧
      ([Lengths α] → s.config.sequence.Sensible → s.MeasuresLengths →
        (Roster.ofModel s m).headerRow ≤ e.y) := by
  have hslot := Timeline.exists_slot s (Roster.ofModel s m) (List.getElem?_eq_getElem hi)
  have hisRow := Timeline.isRow_of_slot hslot
  rw [hrow] at hisRow
  refine ⟨(ofModel s m).event (ofModel s m).bars i _, ?_, hisRow, ?_, ?_⟩
  · rw [layout, List.getElem?_mapIdx]
    exact congrArg (Option.map _) hslot
  · exact Timeline.row?_of_slot hslot hisRow
  · exact fun hs ht => Timeline.headerRow_le_of_row hs ht _ hslot hisRow

/-- **A lifetime that fits is drawn by the rows of its ends.** -/
lemma participant_honours [Lengths α] (hs : s.config.sequence.Sensible) {p : Participant}
    (hfits : p.lifetime.Fits m.events.length) (delays : List (α × α)) (column : Nat) :
    ((ofModel s m).participant delays column (Roster.column s m.events.length p)).Honours s m
      (ofModel s m).layout p := by
  have hwithin : p.lifetime.within m.events.length = p.lifetime :=
    if_pos (Lifetime.fits_iff.mpr hfits)
  have hcreated : ∀ i ∈ p.lifetime.createdAt, (ofModel s m).timeline.creationY
      (Roster.column s m.events.length p) = (ofModel s m).timeline.row? i := by
    intro i hi
    rw [Timeline.creationY, Roster.column, hwithin, hi, Option.bind_some]
  have hdestroyed : ∀ j ∈ p.lifetime.destroyedAt, (ofModel s m).timeline.destroyY
      (Roster.column s m.events.length p) = (ofModel s m).timeline.row? j := by
    intro j hj
    rw [Timeline.destroyY, Roster.column, hwithin, hj, Option.bind_some]
  have hquiet : ∀ i, m.takesRow i = false → (ofModel s m).timeline.row? i = none :=
    fun i => Timeline.row?_eq_none s (Roster.ofModel s m)
  constructor
  · intro i hi hrow
    obtain ⟨e, he, hisRow, hy, hbelow⟩ := exists_row s (hfits.1 i hi) hrow
    exact ⟨e, he, hisRow, header_of_creationY ((hcreated i hi).trans hy), hbelow hs⟩
  · intro i hi hrow
    exact header_of_creationY_none ((hcreated i hi).trans (hquiet i hrow))
  · intro j hj hrow
    obtain ⟨e, he, hisRow, hy, -⟩ := exists_row s (hfits.2.1 j hj) hrow
    exact ⟨e, he, hisRow, participant_of_destroyY ((hdestroyed j hj).trans hy)⟩
  · intro j hj hrow
    exact participant_of_destroyY_none ((hdestroyed j hj).trans (hquiet j hrow))

/-- The first declaration of a name has a column in the drawing. -/
lemma exists_participant (s : Setting α) {p : Participant} (hp : p ∈ m.distinctParticipants) :
    ∃ column, (ofModel s m).layout.participant? p.id = some ((ofModel s m).participant
      (ofModel s m).timeline.delays column (Roster.column s m.events.length p)) := by
  have hordered : p ∈ m.ordered := m.ordered_perm.mem_iff.mpr hp
  obtain ⟨k, hk, hcolumn⟩ := List.mem_iff_getElem.mp
    (List.mem_map_of_mem (f := Roster.column s m.events.length) hordered)
  cases hfind : (ofModel s m).layout.participant? p.id with
  | none =>
      refine absurd (List.find?_eq_none.mp hfind _ (List.mem_mapIdx.mpr ⟨k, hk, rfl⟩)) ?_
      rw [not_not, beq_iff_eq]
      exact congrArg Column.id hcolumn
  | some g =>
      have hid : g.id = p.id := by simpa using List.find?_some hfind
      obtain ⟨column, hlt, rfl⟩ := List.mem_mapIdx.mp (List.mem_of_find?_eq_some hfind)
      obtain ⟨q, hq, heq⟩ := List.mem_map.mp (List.getElem_mem hlt)
      have hname : q.id = p.id := (congrArg Column.id heq).trans hid
      rw [m.eq_of_id_eq hq hordered hname] at heq
      exact ⟨column, by rw [heq]⟩

end Assembly

end Drafting.Sequence

namespace Drafting.Diagram

open Drafting.Sequence
open Diagnostic (subjects)

/-- **A lifetime that is not reported is drawn by the rows of its events.**  The header stands in
the row of the event that creates the participant, and the lifeline ends with a mark in the row of
the event that destroys it, without a footer.  If one of these events takes no row, that end of the
lifetime is not drawn. -/
theorem lifetimes_are_drawn_at_rows {α : Type} [Scalar α] [Lengths α] {s : Setting α}
    {title caption : Option String} {m : Sequence.Model} {drawing : Drawing α}
    (h : layout s ⟨title, caption, .sequence m⟩ = .ok drawing) {p : Participant}
    (hp : p ∈ m.distinctParticipants)
    (hreport : some p.id ∉ subjects .invalidLifetime drawing.diagnostics) :
    ∃ l offset g, Sequence.Layout.ofModel s m = .ok (l, drawing.diagnostics) ∧
      drawing.sequence? = some (l.translate offset) ∧ l.participant? p.id = some g ∧
      g.Honours s m l p := by
  obtain ⟨hvalid, l, hl, hdrawn, -⟩ := of_layout_sequence h
  have hfits : p.lifetime.Fits m.events.length := by
    by_contra hnot
    refine hreport ((Layout.reports_ofModel hl).lifetimes.mem_iff.mpr
      (List.mem_map.mpr ⟨p, ?_, rfl⟩))
    exact List.mem_filter.mpr ⟨hp, decide_eq_true hnot⟩
  obtain rfl := Layout.eq_layout hl
  obtain ⟨column, hg⟩ := Assembly.exists_participant s hp
  exact ⟨_, _, _, hl, hdrawn, hg,
    Assembly.participant_honours (Config.sensible_sequence hvalid) hfits _ column⟩

/-- A worker that is there from the first message to the last. -/
def errand : Sequence.Model :=
  { participants := [{ id := "A" }, { id := "B", lifetime := ⟨some 0, some 2⟩ }]
    events := [.message { source := "A", target := some "B" }, .delay none,
      .message { source := "A", target := some "B" }] }

/-- The worker appears in the row of the first message and ends in that of the last one. -/
theorem lifetime_of_an_errand :
    let s : Setting Rat := ⟨.standard, fun _ _ => ⟨10, 5⟩⟩
    let p : Participant := { id := "B", lifetime := ⟨some 0, some 2⟩ }
    p ∈ errand.distinctParticipants ∧ errand.takesRow 0 = true ∧ errand.takesRow 2 = true ∧
      ∃ (drawing : Drawing Rat) (l : Sequence.Layout Rat) (offset : Point Rat)
          (g : ParticipantGeometry Rat) (e f : EventGeometry Rat),
        layout s ⟨none, none, .sequence errand⟩ = .ok drawing ∧
        some p.id ∉ subjects .invalidLifetime drawing.diagnostics ∧
        drawing.sequence? = some (l.translate offset) ∧ l.participant? "B" = some g ∧
        l.events[0]? = some e ∧ g.header.center = ⟨g.centerX, e.y⟩ ∧
        l.events[2]? = some f ∧ g.footer = none ∧
        g.lifeline.getLast?.map (·.endY) = some (max f.y g.header.maxY) ∧
        g.destroyMark.map (·.center) = some ⟨g.centerX, max f.y g.header.maxY⟩ := by
  intro s p
  have hlengths : s.MeasuresLengths := fun _ _ =>
    (by decide : (0 : Rat) ≤ 10 ∧ (0 : Rat) ≤ 5)
  have hp : p ∈ errand.distinctParticipants := by decide
  have hfirst : errand.takesRow 0 = true := by decide
  have hlast : errand.takesRow 2 = true := by decide
  obtain ⟨drawing, hlayout⟩ := exists_layout_sequence (s := s) (m := errand) (by cbv) hlengths none
    none (by decide) (by decide)
  have hreport : some p.id ∉ subjects .invalidLifetime drawing.diagnostics := by
    obtain ⟨-, l, hl, -⟩ := of_layout_sequence hlayout
    rw [(Layout.reports_ofModel hl).lifetimes.mem_iff]
    decide
  obtain ⟨l, offset, g, -, hdrawn, hg, hhonours⟩ := lifetimes_are_drawn_at_rows hlayout hp hreport
  obtain ⟨e, he, -, hheader, -⟩ := hhonours.created 0 rfl hfirst
  obtain ⟨f, hf, -, hfooter, hend, hmark⟩ := hhonours.destroyed 2 rfl hlast
  have hcenter : ∀ (x y : Rat) (size : Size Rat),
      (Bounds.around ⟨x, y⟩ size).center = ⟨x, y⟩ := by
    intro x y size
    simp [Bounds.around, Bounds.center, Scalar.half]
  refine ⟨hp, hfirst, hlast, drawing, l, offset, g, e, f, hlayout, hreport, hdrawn, hg, he, ?_, hf,
    hfooter, hend.endY_eq, ?_⟩
  · rw [hheader, hcenter]
  · rw [hmark, Option.map_some, hcenter, max_eq_left (le_max_left _ _)]

/-- **A lifetime can be lost without a report.**  It begins and ends with an activation, and
activations take no rows: the participant stands in the top row, and it has a footer and no mark. -/
theorem lifetime_without_rows_is_lost :
    let s : Setting Rat := ⟨.standard, fun _ _ => ⟨10, 5⟩⟩
    let m : Sequence.Model :=
      { participants := [{ id := "A" }, { id := "B", lifetime := ⟨some 0, some 2⟩ }]
        events := [.activate "B", .message { source := "A", target := some "B" }, .deactivate "B"] }
    s.config.validate = .ok () ∧ s.MeasuresLengths ∧
      ∃ (drawing : Drawing Rat) (l : Sequence.Layout Rat) (offset : Point Rat)
          (g : ParticipantGeometry Rat),
        layout s ⟨none, none, .sequence m⟩ = .ok drawing ∧ drawing.diagnostics = [] ∧
        drawing.sequence? = some (l.translate offset) ∧ l.participant? "B" = some g ∧
        g.header.maxY = (Roster.ofModel s m).headerRow ∧ g.destroyMark = none ∧
        g.footer.isSome = true := by
  intro s m
  have hlengths : s.MeasuresLengths := fun _ _ =>
    (by decide : (0 : Rat) ≤ 10 ∧ (0 : Rat) ≤ 5)
  obtain ⟨drawing, hlayout⟩ := exists_layout_sequence (s := s) (m := m) (by cbv) hlengths none
    none (by decide) (by decide)
  obtain ⟨hvalid, l, hl, hdrawn, -⟩ := of_layout_sequence hlayout
  have hnone : drawing.diagnostics = [] :=
    (Layout.reports_ofModel hl).eq_nil_iff.mpr
      ⟨by decide, by decide, by decide, by decide, by decide, by decide⟩
  obtain rfl := Layout.eq_layout hl
  let p : Participant := { id := "B", lifetime := ⟨some 0, some 2⟩ }
  obtain ⟨column, hg⟩ := Assembly.exists_participant (p := p) (m := m) s (by decide)
  have hhonours := Assembly.participant_honours (p := p) (m := m) (Config.sensible_sequence hvalid)
    (by decide) (Assembly.ofModel s m).timeline.delays column
  obtain ⟨hmark, hfooter⟩ := hhonours.notDestroyed 2 rfl (by decide)
  refine ⟨hvalid, hlengths, drawing, _, _, _, hlayout, hnone, hdrawn, hg, ?_, hmark, hfooter⟩
  rw [hhonours.notCreated 0 rfl (by decide)]
  exact sub_add_cancel _ _

end Drafting.Diagram
