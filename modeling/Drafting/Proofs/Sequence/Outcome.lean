import Mathlib
import Drafting.Drawing
import Drafting.Proofs.Binary.Single
import Drafting.Proofs.Sequence.Columns
import Drafting.Proofs.Sequence.Rows

/-!
When a sequence diagram gets a drawing.

The layout of a sequence diagram checks itself: rows must follow each other, and columns must not
overlap.  In exact arithmetic both checks always pass.  Rounded to 32 bits a spacing can be absorbed
by a coordinate, and then they fail, although nothing is wrong with the diagram.

* `Layout.ofModel_eq_ok`: the checks pass where no spacing is absorbed.
* `Layout.of_ofModel`, `Diagram.of_layout_sequence`: what a drawing is made of.
* `Diagram.layout_sequence_fails_only_on_limits`: in exact arithmetic a diagram gets no drawing
  exactly when it exceeds a limit.
* `Diagram.layout_sequence_of_resolved`: rounded to 32 bits it gets one if it keeps to the limits
  and the spacings are resolved everywhere.
* `Diagram.absorbed_spacing_fails_the_row_check`: a tiny spacing makes a
  diagram of two messages fail.
-/

namespace Drafting.Sequence

section Checks

variable {α : Type} [Scalar α] [Lengths α] {s : Setting α}

/-- The check of the rows passes where the spacing is not absorbed. -/
lemma Timeline.build_eq_ok (hs : s.config.sequence.Sensible) (ht : s.MeasuresLengths)
    (roster : Roster α) (m : Model)
    (hgrows : ∀ y, 0 ≤ y → y ≤ (ofModel s roster m).lifelineBottom →
      y < y + s.config.sequence.eventSpacing) :
    build s roster m = .ok (ofModel s roster m) := by
  obtain ⟨hrows, hapart⟩ := rows_apart hs ht roster m
  refine build_eq_ok_iff.mpr ⟨rfl, (hapart.imp_of_mem fun {a b} ha hb hle => ?_).isChain⟩
  exact Lengths.not_le_of_lt
    (Lengths.lt_of_lt_of_le (hgrows a (hrows a ha).1 (hrows a ha).2) hle)

/-- **The checks pass where no spacing is absorbed.** -/
lemma Layout.ofModel_eq_ok (hs : s.config.sequence.Sensible) (ht : s.MeasuresLengths) (m : Model)
    (hgrows : ∀ y, 0 ≤ y → y ≤ (Timeline.ofModel s (Roster.ofModel s m) m).lifelineBottom →
      y < y + s.config.sequence.eventSpacing)
    (hapart : ∀ a b, ∀ x ∈ (Columns.ofTimeline s (Roster.ofModel s m)
        (Timeline.ofModel s (Roster.ofModel s m) m)).centers, 0 ≤ a → 0 ≤ b →
      a + s.config.sequence.participantSpacing + b ≤ x → ¬ x - b < a)
    (hdepth : m.nestingDepth ≤ s.config.limits.maxNestingDepth) :
    ∃ l, ofModel s m = .ok l := by
  obtain ⟨l, hl⟩ := assemble_eq_ok hs ht m (Timeline.ofModel s (Roster.ofModel s m) m) hapart
  rw [ofModel]
  simp only [if_neg (Nat.not_lt.mpr hdepth), Timeline.build_eq_ok hs ht _ m hgrows, hl, bind,
    Except.bind]
  exact ⟨_, rfl⟩

end Checks

/-- A diagram that is laid out has passed its checks. -/
lemma Layout.of_ofModel {α : Type} [Scalar α] {s : Setting α} {m : Model} {l : Layout α}
    {diagnostics : List (Diagnostic α)} (h : ofModel s m = .ok (l, diagnostics)) :
    ∃ t, Timeline.build s (Roster.ofModel s m) m = .ok t ∧
      assemble s (Roster.ofModel s m) t (Columns.ofTimeline s (Roster.ofModel s m) t) = .ok l ∧
      diagnostics = Roster.diagnostics m ++ t.diagnostics := by
  rw [ofModel] at h
  dsimp only at h
  split at h
  · cases h
  · cases hbuild : Timeline.build s (Roster.ofModel s m) m with
    | error failure => simp [hbuild, bind, Except.bind] at h
    | ok t =>
        cases hassemble : assemble s (Roster.ofModel s m) t
            (Columns.ofTimeline s (Roster.ofModel s m) t) with
        | error failure => simp [hbuild, hassemble, bind, Except.bind] at h
        | ok assembled =>
            simp only [hbuild, hassemble, bind, Except.bind, Except.ok.injEq, Prod.mk.injEq] at h
            obtain ⟨rfl, rfl⟩ := h
            exact ⟨t, rfl, hassemble, rfl⟩

end Drafting.Sequence

namespace Drafting

/-! ### Two messages -/

/-- Two participants that send each other a message. -/
def Sequence.Model.exchange : Sequence.Model :=
  { participants := [{ id := "A" }, { id := "B" }]
    events := [.message { source := "A", target := some "B" },
      .message { source := "B", target := some "A" }] }

lemma Sequence.Model.ordered_exchange : exchange.ordered = exchange.participants := by cbv

/-- The standard distances but for the least distance of two rows and the margin around the diagram,
with texts that are all of one size. -/
def Setting.spaced (eventSpacing diagramPadding : Float32) : Setting Float32 :=
  ⟨{ (Config.standard : Config Float32) with
      sequence := { SequenceConfig.standard with
        eventSpacing := eventSpacing
        diagramPadding := diagramPadding } },
    fun _ _ => ⟨10, 5⟩⟩

lemma Setting.measuresLengths_spaced (eventSpacing diagramPadding : Float32) :
    (spaced eventSpacing diagramPadding).MeasuresLengths := fun _ _ =>
  (by decide +kernel : (0 : Float32) ≤ 10 ∧ (0 : Float32) ≤ 5)

end Drafting

namespace Drafting.Diagram

open Drafting.Sequence

section Limits

variable {α : Type} [Scalar α]

/-- A drawing of a sequence diagram is the diagram laid out under a valid configuration, moved to
its place on the sheet. -/
lemma of_layout_sequence {s : Setting α} {title caption : Option String} {m : Sequence.Model}
    {drawing : Drawing α} (h : layout s ⟨title, caption, .sequence m⟩ = .ok drawing) :
    s.config.validate = .ok () ∧
      ∃ l, Sequence.Layout.ofModel s m = .ok (l, drawing.diagnostics) ∧
        let sheet := Sheet.around s s.config.sequence.diagramPadding title caption l.contentBounds
        drawing.sequence? = some (l.translate sheet.offset) ∧ drawing.bounds = sheet.bounds := by
  rw [layout] at h
  split at h
  · cases h
  · next hvalid =>
      refine ⟨hvalid, ?_⟩
      dsimp only at h
      split at h
      · cases h
      · cases hmodel : Sequence.Layout.ofModel s m with
        | error failure => simp [layoutSequence, hmodel, bind, Except.bind] at h
        | ok placed =>
            simp only [layoutSequence, hmodel, bind, Except.bind, Except.ok.injEq] at h
            subst h
            exact ⟨placed.1, rfl, rfl, rfl⟩

/-- The layout of a sequence diagram under a valid configuration, if its checks pass. -/
lemma layout_sequence_eq {s : Setting α} (hvalid : s.config.validate = .ok ())
    (title caption : Option String) {m : Sequence.Model}
    (hl : m.nestingDepth ≤ s.config.limits.maxNestingDepth →
      ∃ l, Sequence.Layout.ofModel s m = .ok l) :
    ∃ drawing, layout s ⟨title, caption, .sequence m⟩ =
      if s.config.limits.maxElements < m.elementCount then
        .error (.sizeLimit m.elementCount s.config.limits.maxElements)
      else if s.config.limits.maxNestingDepth < m.nestingDepth then
        .error (.nestingLimit m.nestingDepth s.config.limits.maxNestingDepth)
      else .ok drawing := by
  have hlayout : layout s ⟨title, caption, .sequence m⟩ =
      if s.config.limits.maxElements < m.elementCount then
        .error (.sizeLimit m.elementCount s.config.limits.maxElements)
      else layoutSequence s title caption m := by
    rw [layout, hvalid]
    rfl
  rw [hlayout]
  by_cases hdepth : s.config.limits.maxNestingDepth < m.nestingDepth
  · refine ⟨⟨.sequence ⟨[], [], [], []⟩, none, none, Bounds.zero, []⟩, ?_⟩
    simp only [layoutSequence, Sequence.Layout.ofModel, if_pos hdepth, bind, Except.bind]
  · obtain ⟨⟨l, diagnostics⟩, hl⟩ := hl (Nat.not_lt.mp hdepth)
    simp only [layoutSequence, hl, if_neg hdepth, bind, Except.bind]
    exact ⟨_, rfl⟩

/-- If its checks pass, a sequence diagram gets no drawing exactly when it exceeds a limit. -/
lemma layout_sequence_eq_error_iff {s : Setting α} (hvalid : s.config.validate = .ok ())
    (title caption : Option String) {m : Sequence.Model}
    (hl : m.nestingDepth ≤ s.config.limits.maxNestingDepth →
      ∃ l, Sequence.Layout.ofModel s m = .ok l) (failure : Failure α) :
    layout s ⟨title, caption, .sequence m⟩ = .error failure ↔
      (s.config.limits.maxElements < m.elementCount ∧
        failure = .sizeLimit m.elementCount s.config.limits.maxElements) ∨
      (m.elementCount ≤ s.config.limits.maxElements ∧
        s.config.limits.maxNestingDepth < m.nestingDepth ∧
        failure = .nestingLimit m.nestingDepth s.config.limits.maxNestingDepth) := by
  obtain ⟨drawing, hlayout⟩ := layout_sequence_eq hvalid title caption hl
  rw [hlayout]
  by_cases hsize : s.config.limits.maxElements < m.elementCount
  · simp [hsize, Nat.not_le.mpr hsize, eq_comm]
  · by_cases hdepth : s.config.limits.maxNestingDepth < m.nestingDepth
    · simp [hsize, hdepth, Nat.not_lt.mp hsize, eq_comm]
    · simp [hsize, hdepth]

end Limits

/-- In exact arithmetic a sequence diagram within the limits gets a drawing. -/
lemma exists_layout_sequence {s : Setting Rat} (hvalid : s.config.validate = .ok ())
    (ht : s.MeasuresLengths) (title caption : Option String) {m : Sequence.Model}
    (hsize : m.elementCount ≤ s.config.limits.maxElements)
    (hdepth : m.nestingDepth ≤ s.config.limits.maxNestingDepth) :
    ∃ drawing, layout s ⟨title, caption, .sequence m⟩ = .ok drawing := by
  have hs := Config.sensible_sequence hvalid
  have hrow : 0 < s.config.sequence.eventSpacing := hs.eventSpacing.2
  have hcolumn : 0 < s.config.sequence.participantSpacing := hs.participantSpacing.2
  obtain ⟨drawing, hlayout⟩ := layout_sequence_eq hvalid title caption
    (Layout.ofModel_eq_ok hs ht m (fun y _ _ => by linarith) fun a b x _ _ _ hle => by linarith)
  rw [if_neg (Nat.not_lt.mpr hsize), if_neg (Nat.not_lt.mpr hdepth)] at hlayout
  exact ⟨drawing, hlayout⟩

/-- **In exact arithmetic a sequence diagram gets no drawing exactly when it exceeds a limit.** -/
theorem layout_sequence_fails_only_on_limits {s : Setting Rat} (hvalid : s.config.validate = .ok ())
    (ht : s.MeasuresLengths) (title caption : Option String) (m : Sequence.Model)
    (failure : Failure Rat) :
    layout s ⟨title, caption, .sequence m⟩ = .error failure ↔
      (s.config.limits.maxElements < m.elementCount ∧
        failure = .sizeLimit m.elementCount s.config.limits.maxElements) ∨
      (m.elementCount ≤ s.config.limits.maxElements ∧
        s.config.limits.maxNestingDepth < m.nestingDepth ∧
        failure = .nestingLimit m.nestingDepth s.config.limits.maxNestingDepth) := by
  have hs := Config.sensible_sequence hvalid
  have hrow : 0 < s.config.sequence.eventSpacing := hs.eventSpacing.2
  have hcolumn : 0 < s.config.sequence.participantSpacing := hs.participantSpacing.2
  refine layout_sequence_eq_error_iff hvalid title caption
    (Layout.ofModel_eq_ok hs ht m ?_ ?_) failure
  · intro y _ _
    linarith
  · intro a b x _ _ _ hle
    linarith

open Binary32 in
/-- **Rounded to 32 bits a sequence diagram within the limits gets a drawing if the spacings are
resolved.**  The spacing of events has to be resolved at the end of the lifelines, the spacing of
participants at every lifeline. -/
theorem layout_sequence_of_resolved {s : Setting Float32} (hvalid : s.config.validate = .ok ())
    (ht : s.MeasuresLengths) (title caption : Option String) (m : Sequence.Model)
    (hrows : Resolves s.config.sequence.eventSpacing
      (Timeline.ofModel s (Roster.ofModel s m) m).lifelineBottom)
    (hcolumns : ∀ x ∈ (Columns.ofTimeline s (Roster.ofModel s m)
      (Timeline.ofModel s (Roster.ofModel s m) m)).centers,
      Resolves s.config.sequence.participantSpacing x) :
    (∃ drawing, layout s ⟨title, caption, .sequence m⟩ = .ok drawing) ↔
      m.elementCount ≤ s.config.limits.maxElements ∧
        m.nestingDepth ≤ s.config.limits.maxNestingDepth := by
  have hs := Config.sensible_sequence hvalid
  have hgrows : ∀ y, 0 ≤ y → y ≤ (Timeline.ofModel s (Roster.ofModel s m) m).lifelineBottom →
      y < y + s.config.sequence.eventSpacing := fun y hy hle =>
    lt_add_of_resolves hy hs.eventSpacing (hrows.of_le hy hle)
  have hapart : ∀ a b, ∀ x ∈ (Columns.ofTimeline s (Roster.ofModel s m)
      (Timeline.ofModel s (Roster.ofModel s m) m)).centers, 0 ≤ a → 0 ≤ b →
      a + s.config.sequence.participantSpacing + b ≤ x → ¬ x - b < a := fun a b x hx ha hb hle =>
    not_sub_lt_of_resolves ha hb hs.participantSpacing hle (hcolumns x hx)
  obtain ⟨drawing, hlayout⟩ := layout_sequence_eq hvalid title caption
    (Layout.ofModel_eq_ok hs ht m hgrows hapart)
  rw [hlayout]
  split_ifs with hsize hdepth
  · simp [Nat.not_le.mpr hsize]
  · simp [Nat.not_le.mpr hdepth]
  · simp [Nat.not_lt.mp hsize, Nat.not_lt.mp hdepth]

set_option maxRecDepth 10000 in
/-- Two messages in rows that are 24 apart get a drawing. -/
theorem exchange_gets_a_drawing :
    let s := Setting.spaced 24 20
    s.config.validate = .ok () ∧ s.MeasuresLengths ∧
      Model.exchange.elementCount ≤ s.config.limits.maxElements ∧
      Model.exchange.nestingDepth ≤ s.config.limits.maxNestingDepth ∧
      ∃ drawing, layout s ⟨none, none, .sequence .exchange⟩ = .ok drawing := by
  intro s
  have hvalid : s.config.validate = .ok () := by decide +kernel
  have hlengths : s.MeasuresLengths := Setting.measuresLengths_spaced 24 20
  have hrows : Binary32.Resolves s.config.sequence.eventSpacing
      (Timeline.ofModel s (Roster.ofModel s .exchange) .exchange).lifelineBottom := by
    rw [Roster.ofModel, Model.ordered_exchange]
    decide +kernel
  have hcolumns : ∀ x ∈ (Columns.ofTimeline s (Roster.ofModel s .exchange)
      (Timeline.ofModel s (Roster.ofModel s .exchange) .exchange)).centers,
      Binary32.Resolves s.config.sequence.participantSpacing x := by
    rw [Roster.ofModel, Model.ordered_exchange]
    decide +kernel
  have hsize : Model.exchange.elementCount ≤ s.config.limits.maxElements := by decide +kernel
  have hdepth : Model.exchange.nestingDepth ≤ s.config.limits.maxNestingDepth := by decide +kernel
  exact ⟨hvalid, hlengths, hsize, hdepth,
    (layout_sequence_of_resolved hvalid hlengths none none .exchange hrows hcolumns).mpr
      ⟨hsize, hdepth⟩⟩

set_option maxRecDepth 10000 in
/-- **An absorbed spacing fails the check of the rows.**  The configuration is valid, the texts have
lengths and the diagram keeps to the limits, but a ten-millionth added to 21 gives 21. -/
theorem absorbed_spacing_fails_the_row_check :
    let s := Setting.spaced 0.0000001 20
    s.config.validate = .ok () ∧ s.MeasuresLengths ∧
      Model.exchange.elementCount ≤ s.config.limits.maxElements ∧
      Model.exchange.nestingDepth ≤ s.config.limits.maxNestingDepth ∧
      layout s ⟨none, none, .sequence .exchange⟩ = .error (.inconsistent (.rowOrder 1 21)) := by
  refine ⟨by decide +kernel, Setting.measuresLengths_spaced _ _,
    by decide +kernel, by decide +kernel, ?_⟩
  rw [layout]
  simp only [layoutSequence, Layout.ofModel, Roster.ofModel, Model.ordered_exchange]
  decide +kernel

end Drafting.Diagram
