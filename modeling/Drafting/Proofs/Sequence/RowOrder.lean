import Mathlib
import Drafting.Proofs.Sequence.Outcome

/-!
The rows of a finished drawing.

The rows of a sequence diagram are checked before the diagram is moved to its place on the sheet.
The move adds one offset to all of them.  In exact arithmetic this changes nothing, but rounded to
32 bits two rows can fall together.

* `Layout.rows_ofModel`: a diagram that is laid out has its rows in order.
* `Diagram.drawn_rows_descend`: in a drawing no row is above the one before it, and each is strictly
  below if the spacing is resolved before and after the move.
* `Diagram.rows_fall_together_on_the_sheet`: two rows of a drawing at the same height.
-/

namespace Drafting.Sequence

variable {α : Type} [Scalar α]

/-! ### The rows that are checked -/

omit [Scalar α] in
/-- What is drawn for an event may depend on its number; its height does not. -/
lemma Slot.rows_mapIdx {f : Nat → Slot α → EventGeometry α}
    (hf : ∀ index slot, (f index slot).isRow = slot.isRow ∧ (f index slot).y = slot.y)
    (slots : List (Slot α)) :
    ((slots.mapIdx f).filter (·.isRow)).map (·.y) = Slot.rows slots := by
  induction slots generalizing f with
  | nil => rfl
  | cons slot slots ih =>
      have hrest := ih fun index => hf (index + 1)
      rw [Slot.rows] at hrest ⊢
      rw [List.mapIdx_cons, List.filter_cons, List.filter_cons, (hf 0 slot).1]
      split
      · rw [List.map_cons, List.map_cons, (hf 0 slot).2, hrest]
      · exact hrest

namespace Layout

/-- A diagram has its rows where the timeline has them. -/
lemma rows_assemble {s : Setting α} {roster : Roster α} {t : Timeline α} {c : Columns α}
    {l : Layout α} (h : assemble s roster t c = .ok l) : l.rows.map (·.y) = t.rows := by
  rw [assemble] at h
  dsimp only at h
  split at h
  · cases h
  · obtain rfl := Except.ok.inj h
    exact Slot.rows_mapIdx (fun _ _ => ⟨rfl, rfl⟩) t.slots

/-- Moving a diagram moves its rows. -/
lemma rows_translate (l : Layout α) (v : Point α) :
    (l.translate v).rows.map (·.y) = (l.rows.map (·.y)).map (· + v.y) := by
  simp only [rows, translate, List.filter_map, List.map_map]
  rfl

/-- **A diagram that is laid out has passed the check of its rows.** -/
lemma rows_ofModel {s : Setting α} {m : Model} {l : Layout α} {diagnostics : List (Diagnostic α)}
    (h : ofModel s m = .ok (l, diagnostics)) :
    l.rows.map (·.y) = (Timeline.ofModel s (Roster.ofModel s m) m).rows ∧
      (l.rows.map (·.y)).IsChain fun a b => ¬ b ≤ a := by
  obtain ⟨t, hbuild, hassemble, -⟩ := of_ofModel h
  obtain ⟨rfl, hchain⟩ := Timeline.build_eq_ok_iff.mp hbuild
  rw [rows_assemble hassemble]
  exact ⟨rfl, hchain⟩

end Layout

end Drafting.Sequence

namespace Drafting.Diagram

open Drafting.Sequence

/-- The rows of a drawing are those of the timeline, moved, and have passed the check before the
move. -/
lemma rows_layout {α : Type} [Scalar α] {s : Setting α} {title caption : Option String}
    {m : Sequence.Model} {drawing : Drawing α} {l : Sequence.Layout α}
    (h : layout s ⟨title, caption, .sequence m⟩ = .ok drawing) (hl : drawing.sequence? = some l) :
    s.config.validate = .ok () ∧ ∃ offset,
      l.rows.map (·.y) = (Timeline.ofModel s (Roster.ofModel s m) m).rows.map (· + offset) ∧
      (Timeline.ofModel s (Roster.ofModel s m) m).rows.IsChain fun a b => ¬ b ≤ a := by
  obtain ⟨hvalid, placed, hmodel, hpicture, -⟩ := of_layout_sequence h
  obtain rfl := Option.some.inj (hl.symm.trans hpicture)
  obtain ⟨hrows, hchain⟩ := Layout.rows_ofModel hmodel
  exact ⟨hvalid, _, by rw [Layout.rows_translate, hrows], hrows ▸ hchain⟩

section Order

open Binary32

/-- **In a drawing no row is above the one before it, and each is strictly below if the spacing is
resolved.**  The order of two rows survives the move to the sheet, but their distance survives it
only where it is resolved. -/
theorem drawn_rows_descend {s : Setting Float32} {title caption : Option String}
    {m : Sequence.Model} {drawing : Drawing Float32} {l : Sequence.Layout Float32}
    (h : layout s ⟨title, caption, .sequence m⟩ = .ok drawing) (hl : drawing.sequence? = some l) :
    (l.rows.map (·.y)).IsChain (fun a b => ¬ b < a) ∧
      (s.MeasuresLengths →
        Resolves s.config.sequence.eventSpacing
          (Timeline.ofModel s (Roster.ofModel s m) m).lifelineBottom →
        (∀ y ∈ l.rows.map (·.y), Resolves s.config.sequence.eventSpacing y) →
        (l.rows.map (·.y)).Pairwise (· < ·)) := by
  obtain ⟨hvalid, offset, hrows, hchain⟩ := rows_layout h hl
  have hs := Config.sensible_sequence hvalid
  rw [hrows]
  refine ⟨?_, fun ht hbottom hmoved => ?_⟩
  · exact (List.isChain_map _).mpr (hchain.imp fun a b => not_add_lt_add)
  · obtain ⟨hall, hapart⟩ := Timeline.rows_apart hs ht (Roster.ofModel s m) m
    rw [List.forall_mem_map] at hmoved
    refine List.pairwise_map.mpr (hapart.imp_of_mem fun {a b} ha hb hle => ?_)
    have hresolved := fun y hy => hbottom.of_le (hall y hy).1 (hall y hy).2
    exact add_lt_add_of_resolves (hall a ha).1 hs.eventSpacing hle (hresolved a ha)
      (hresolved b hb).1 (hmoved a ha) (hmoved b hb)

end Order

/-- The heights of the rows in the drawing of a diagram, if there is one. -/
def rows? {α : Type} [Scalar α] (s : Setting α) (d : Diagram α) : Option (List α) :=
  (layout s d).toOption.bind fun drawing => drawing.sequence?.map fun l => l.rows.map (·.y)

lemma rows?_eq_some {α : Type} [Scalar α] {s : Setting α} {d : Diagram α} {ys : List α}
    (h : rows? s d = some ys) :
    ∃ drawing l, layout s d = .ok drawing ∧ drawing.sequence? = some l ∧ l.rows.map (·.y) = ys := by
  rw [rows?, Option.bind_eq_some_iff] at h
  obtain ⟨drawing, hdrawing, h⟩ := h
  obtain ⟨l, hl, hys⟩ := Option.map_eq_some_iff.mp h
  refine ⟨drawing, l, ?_, hl, hys⟩
  cases hlayout : layout s d with
  | error failure => rw [hlayout] at hdrawing; cases hdrawing
  | ok drawn => rw [hlayout] at hdrawing; rw [Option.some.inj hdrawing]

set_option maxRecDepth 10000 in
/-- Two rows that are 24 apart remain in order on the sheet. -/
theorem exchange_rows_descend :
    ∃ drawing l, layout (Setting.spaced 24 20) ⟨none, none, .sequence .exchange⟩ = .ok drawing ∧
      drawing.sequence? = some l ∧ l.rows.map (·.y) = [65, 89] ∧
      (l.rows.map (·.y)).Pairwise (· < ·) := by
  have hrows : rows? (Setting.spaced 24 20) ⟨none, none, .sequence .exchange⟩ = some [65, 89] := by
    rw [rows?, layout]
    simp only [layoutSequence, Layout.ofModel, Roster.ofModel, Model.ordered_exchange]
    decide +kernel
  have hbottom : Binary32.Resolves 24 (Timeline.ofModel (Setting.spaced 24 20)
      (Roster.ofModel (Setting.spaced 24 20) .exchange) .exchange).lifelineBottom := by
    rw [Roster.ofModel, Model.ordered_exchange]
    decide +kernel
  obtain ⟨drawing, l, hlayout, hl, hys⟩ := rows?_eq_some hrows
  have hmoved : ∀ y ∈ l.rows.map (·.y), Binary32.Resolves 24 y := by
    rw [hys]
    decide +kernel
  exact ⟨drawing, l, hlayout, hl, hys, (drawn_rows_descend hlayout hl).2
    (Setting.measuresLengths_spaced 24 20) hbottom hmoved⟩

set_option maxRecDepth 10000 in
/-- **Two rows of a drawing can fall together on the sheet.**  The configuration is valid, and
before the move the second row is below the first one; a margin of 1000 absorbs the distance. -/
theorem rows_fall_together_on_the_sheet :
    (Setting.spaced 0.00001 1000).config.validate = .ok () ∧
    ∃ drawing l,
      layout (Setting.spaced 0.00001 1000) ⟨none, none, .sequence .exchange⟩ = .ok drawing ∧
      drawing.sequence? = some l ∧ l.rows.map (·.y) = [1021, 1021] := by
  refine ⟨by decide +kernel, rows?_eq_some ?_⟩
  rw [rows?, layout]
  simp only [layoutSequence, Layout.ofModel, Roster.ofModel, Model.ordered_exchange]
  decide +kernel

end Drafting.Diagram
