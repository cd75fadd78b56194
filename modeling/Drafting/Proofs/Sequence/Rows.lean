import Mathlib
import Drafting.Proofs.Sequence.Progress
import Drafting.Sequence.Assemble

/-!
The rows of a sequence diagram.

Every row is placed a spacing below all that was drawn before, whatever is rounded on the way.
Whether this makes it lie strictly below the row before it is a matter of the arithmetic.

* `Timeline.rows`, `Layout.rows`: where the rows are.
* `Timeline.firstUnordered_eq_none_iff`, `Timeline.build_eq_ok_iff`: the check of the rows passes
  when each of them is below the one before it.
* `Timeline.rows_apart`: two rows are a spacing apart, and none lies below the end of the lifelines.
-/

namespace Drafting.Sequence

variable {α : Type}

/-- Where the rows among slots are. -/
def Slot.rows (slots : List (Slot α)) : List α := (slots.filter (·.isRow)).map (·.y)

/-- Where the rows of a diagram are. -/
def Timeline.rows (t : Timeline α) : List α := Slot.rows t.slots

variable [Scalar α]

/-! ### The check -/

namespace Timeline

/-- The check of the rows passes when each of them is below the one before it. -/
lemma firstUnordered_eq_none_iff (slots : List (Slot α)) (previous : Option α) (index : Nat) :
    firstUnordered previous index slots = none ↔
      (previous.toList ++ Slot.rows slots).IsChain fun a b => ¬ b ≤ a := by
  induction slots generalizing previous index with
  | nil => cases previous <;> simp [firstUnordered, Slot.rows]
  | cons slot slots ih =>
      rw [firstUnordered]
      cases hrow : slot.isRow with
      | false => simp [ih, Slot.rows, hrow]
      | true =>
          cases previous with
          | none => simp [ih, Slot.rows, hrow]
          | some p =>
              by_cases hle : slot.y ≤ p
              · simp [Slot.rows, hrow, hle]
              · simp [ih, Slot.rows, hrow, hle]

/-- A timeline is built when it passes the check of the rows. -/
lemma build_eq_ok_iff {s : Setting α} {roster : Roster α} {m : Model} {t : Timeline α} :
    build s roster m = .ok t ↔ ofModel s roster m = t ∧ t.rows.IsChain fun a b => ¬ b ≤ a := by
  rw [rows, ← List.nil_append (Slot.rows t.slots), ← Option.toList_none,
    ← firstUnordered_eq_none_iff t.slots none 0, build]
  constructor
  · intro h
    split at h
    · cases h
    · next hordered =>
        obtain rfl := Except.ok.inj h
        exact ⟨rfl, hordered⟩
  · rintro ⟨rfl, hordered⟩
    simp only [hordered]

end Timeline

/-! ### Distances -/

/-- The rows among slots after some progress: they are a spacing apart, and none lies below the
cursor. -/
structure Progress.Spaced (e : α) (slots : List (Slot α)) (p : Progress α) : Prop where
  cursor : 0 ≤ p.cursor
  rows : ∀ y ∈ Slot.rows slots, 0 ≤ y ∧ y ≤ p.cursor
  apart : (Slot.rows slots).Pairwise fun a b => a + e ≤ b
  kinds : ∀ slot ∈ slots, slot.isRow = true → slot.kind.ofActivation = false

variable [Lengths α] {s : Setting α}

namespace Progress

lemma cursor_ended (p : Progress α) (activation : Nat) (floor : α) (endEvent : Option Nat)
    (h : 0 ≤ p.cursor) : p.cursor ≤ (p.ended s activation floor endEvent).cursor := by
  rw [ended]
  split
  · exact Lengths.le_refl h
  · exact Lengths.le_max_left _ h

/-- The cursor only moves down. -/
lemma Step.cursor_le {count index : Nat} {p p' : Progress α} {slot : Slot α}
    (h : Step s count index p slot p') (he : 0 ≤ s.config.sequence.eventSpacing)
    (hcursor : 0 ≤ p.cursor) : p.cursor ≤ p'.cursor := by
  cases h with
  | row habove hbelow =>
      have hspace := Lengths.add_nonneg hcursor he
      have hrow := Lengths.add_nonneg hspace habove
      exact Lengths.le_trans (Lengths.le_add hcursor he)
        (Lengths.le_trans (Lengths.le_add hspace habove) (Lengths.le_add hrow hbelow))
  | nothing => exact Lengths.le_refl hcursor
  | opens => exact Lengths.le_refl hcursor
  | strayEnds => exact Lengths.le_refl hcursor
  | @closes column activation rest =>
      have hroused : ((p.roused activation).popped column rest).cursor = p.cursor :=
        cursor_roused p activation
      rw [← hroused] at hcursor ⊢
      exact cursor_ended _ activation _ _ hcursor

/-- A step keeps the rows a spacing apart. -/
lemma Spaced.step {count : Nat} {slots : List (Slot α)} {p p' : Progress α} {slot : Slot α}
    (h : Spaced s.config.sequence.eventSpacing slots p) (he : 0 ≤ s.config.sequence.eventSpacing)
    (hstep : Step s count slots.length p slot p') :
    Spaced s.config.sequence.eventSpacing (slots ++ [slot]) p' := by
  have hcursor := hstep.cursor_le he h.cursor
  have hkept : ∀ y ∈ Slot.rows slots, 0 ≤ y ∧ y ≤ p'.cursor := fun y hy =>
    ⟨(h.rows y hy).1, Lengths.le_trans (h.rows y hy).2 hcursor⟩
  -- an event without a row leaves the rows as they are
  have hquiet : slot.isRow = false → Spaced s.config.sequence.eventSpacing
      (slots ++ [slot]) p' := by
    intro hrow
    have hrows : Slot.rows (slots ++ [slot]) = Slot.rows slots := by simp [Slot.rows, hrow]
    refine ⟨Lengths.le_trans h.cursor hcursor, hrows ▸ hkept, hrows ▸ h.apart, ?_⟩
    simp only [List.forall_mem_append, List.forall_mem_singleton, hrow]
    exact ⟨h.kinds, by simp⟩
  cases hstep with
  | @row above below kind habove hbelow hkind =>
      have hspace := Lengths.add_nonneg h.cursor he
      have hy := Lengths.add_nonneg hspace habove
      have hrows : ∀ y, Slot.rows (slots ++ [⟨y, true, kind⟩]) = Slot.rows slots ++ [y] :=
        fun y => by simp [Slot.rows]
      refine ⟨Lengths.le_trans h.cursor hcursor, ?_, ?_, ?_⟩
      · rw [hrows, List.forall_mem_append, List.forall_mem_singleton]
        exact ⟨hkept, hy, Lengths.le_add hy hbelow⟩
      · rw [hrows, List.pairwise_append]
        refine ⟨h.apart, List.pairwise_singleton _ _, fun y hmem row hrow => ?_⟩
        rw [List.mem_singleton] at hrow
        subst hrow
        exact Lengths.le_trans (Lengths.add_le_add_right (h.rows y hmem).1 (h.rows y hmem).2 he)
          (Lengths.le_add hspace habove)
      · simp only [List.forall_mem_append, List.forall_mem_singleton]
        exact ⟨h.kinds, fun _ => hkind⟩
  | nothing => exact hquiet rfl
  | opens => exact hquiet rfl
  | strayEnds => exact hquiet rfl
  | closes => exact hquiet rfl

end Progress

namespace State

lemma cursor_foldl {β : Type} {f : State α → β → State α}
    (hf : ∀ st x, 0 ≤ st.cursor → st.cursor ≤ (f st x).cursor) (xs : List β) {st : State α}
    (h : 0 ≤ st.cursor) : st.cursor ≤ (xs.foldl f st).cursor := by
  induction xs generalizing st with
  | nil => exact Lengths.le_refl h
  | cons x xs ih => exact Lengths.le_trans (hf st x h) (ih (Lengths.le_trans h (hf st x h)))

/-- Ending what is still open does not move the cursor up. -/
lemma cursor_finish (he : 0 ≤ s.config.sequence.eventSpacing) {st : State α} (h : 0 ≤ st.cursor) :
    st.cursor ≤ (st.finish s).cursor := by
  have hactivations : ∀ st : State α, 0 ≤ st.cursor →
      st.cursor ≤ (st.closeActivations s).cursor := by
    intro st h
    rw [closeActivations, ← Array.foldl_toList]
    refine cursor_foldl (fun st stack h => ?_) _ h
    refine cursor_foldl (fun st activation h => ?_) _ h
    have hcursor := Progress.cursor_ended (s := s) st.progress activation st.cursor none h
    rwa [← progress_closeActivation] at hcursor
  have hblocks : ∀ st : State α, 0 ≤ st.cursor → st.cursor ≤ (st.closeBlocks s).cursor := by
    intro st h
    rw [closeBlocks]
    refine cursor_foldl (fun st _ h => ?_) _ h
    have hcursor := congrArg Progress.cursor (progress_closeBlock
      { st with cursor := st.cursor + s.config.sequence.eventSpacing }
      (st.cursor + s.config.sequence.eventSpacing) none)
    exact (congrArg (st.cursor ≤ ·) hcursor).mpr (Lengths.le_add h he)
  have hbegun := hactivations
    { st with
      pending := []
      activations := st.pending.foldl
        (fun as a => as.modify a fun x => { x with startY := st.cursor }) st.activations } h
  exact Lengths.le_trans hbegun (hblocks _ (Lengths.le_trans h hbegun))

end State

namespace Timeline

omit [Scalar α] [Lengths α] in
lemma rows_settle (activations : Array (Activation α)) {slots : List (Slot α)}
    (h : ∀ slot ∈ slots, slot.isRow = true → slot.kind.ofActivation = false) :
    Slot.rows (slots.map (settle activations)) = Slot.rows slots := by
  induction slots with
  | nil => rfl
  | cons slot slots ih =>
      rw [List.forall_mem_cons] at h
      have hrow : (settle activations slot).isRow = slot.isRow := by
        rw [settle]
        split <;> rfl
      have hsame : slot.isRow = true → settle activations slot = slot := by
        intro hisRow
        have hkind := h.1 hisRow
        rw [settle]
        split
        · next heq => rw [heq] at hkind; cases hkind
        · next heq => rw [heq] at hkind; cases hkind
        · rfl
      have hrest := ih h.2
      simp only [Slot.rows, List.map_cons, List.filter_cons, hrow] at hrest ⊢
      split
      · next hisRow => rw [List.map_cons, List.map_cons, hsame hisRow, hrest]
      · exact hrest

/-- **Two rows are a spacing apart, and none lies below the end of the lifelines.** -/
lemma rows_apart (hs : s.config.sequence.Sensible) (ht : s.MeasuresLengths) (roster : Roster α)
    (m : Model) :
    (∀ y ∈ (ofModel s roster m).rows, 0 ≤ y ∧ y ≤ (ofModel s roster m).lifelineBottom) ∧
      (ofModel s roster m).rows.Pairwise fun a b => a + s.config.sequence.eventSpacing ≤ b := by
  have he := Lengths.le_of_lt hs.eventSpacing.2
  have hstart : Progress.Spaced s.config.sequence.eventSpacing [] (State.start roster).progress :=
    ⟨Lengths.le_maximum Lengths.zero_le_zero _, by simp [Slot.rows], by simp [Slot.rows], by simp⟩
  have hspaced := State.run_induction hs ht roster (fun done p slot p' h hstep => h.step he hstep)
    m.events hstart
  rw [List.nil_append, List.length_nil] at hspaced
  have hcursor := hspaced.cursor
  have hfinish := State.cursor_finish he hcursor
  have hbottom := Lengths.le_trans hfinish (Lengths.le_add (Lengths.le_trans hcursor hfinish) he)
  have hrows : (ofModel s roster m).rows =
      Slot.rows ((State.start roster).run s roster 0 m.events).2.1 := rows_settle _ hspaced.kinds
  rw [hrows]
  exact ⟨fun y hy => ⟨(hspaced.rows y hy).1, Lengths.le_trans (hspaced.rows y hy).2 hbottom⟩,
    hspaced.apart⟩

end Timeline

end Drafting.Sequence
