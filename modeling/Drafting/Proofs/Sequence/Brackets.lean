import Mathlib

/-!
Matching starts with stops.

* `Mark.Matched`, `Mark.Leaves`: a list of marks in which every start has its stop, and one that
  leaves some marks over.
* `Mark.looseStops`, `Mark.looseStarts`: how many marks are left over.
* `Mark.leaves_iff`: each list leaves these over and no others.
* `Mark.openAfter`: what is open after further marks.
-/

namespace Drafting.Sequence

/-- The start or the stop of something that can be nested. -/
inductive Mark where
  | start
  | stop
deriving Repr, DecidableEq

namespace Mark

/-- Every start has its stop. -/
inductive Matched : List Mark → Prop
  | nil : Matched []
  | nest {u v : List Mark} (hu : Matched u) (hv : Matched v) : Matched (start :: u ++ stop :: v)

/-- Some stops and then some starts are left over, with matched marks around them. -/
inductive Leaves : List Mark → Nat → Nat → Prop
  | matched {w : List Mark} (hw : Matched w) : Leaves w 0 0
  | stop {u v : List Mark} {stops starts : Nat} (hu : Matched u) (hv : Leaves v stops starts) :
      Leaves (u ++ Mark.stop :: v) (stops + 1) starts
  | start {u v : List Mark} {starts : Nat} (hu : Matched u) (hv : Leaves v 0 starts) :
      Leaves (u ++ Mark.start :: v) 0 (starts + 1)

/-- The number of stops that are left over: a start takes the first one after it. -/
def looseStops : List Mark → Nat
  | [] => 0
  | stop :: rest => looseStops rest + 1
  | start :: rest => looseStops rest - 1

/-- The number of starts that are left over: those that find no stop after them. -/
def looseStarts : List Mark → Nat
  | [] => 0
  | stop :: rest => looseStarts rest
  | start :: rest => if looseStops rest = 0 then looseStarts rest + 1 else looseStarts rest

/-! ### What is left over -/

lemma Matched.append {u v : List Mark} (hu : Matched u) (hv : Matched v) : Matched (u ++ v) := by
  induction hu with
  | nil => exact hv
  | nest ha _ _ ihb =>
      rw [List.append_assoc, List.cons_append]
      exact ha.nest ihb

lemma Matched.leaves_append {u v : List Mark} {stops starts : Nat} (hu : Matched u)
    (hv : Leaves v stops starts) : Leaves (u ++ v) stops starts := by
  cases hv with
  | matched hv => exact .matched (hu.append hv)
  | stop ha hb =>
      rw [← List.append_assoc]
      exact .stop (hu.append ha) hb
  | start ha hb =>
      rw [← List.append_assoc]
      exact .start (hu.append ha) hb

/-- Matched marks in front change nothing. -/
lemma Matched.loose_append {u : List Mark} (hu : Matched u) (v : List Mark) :
    looseStops (u ++ v) = looseStops v ∧ looseStarts (u ++ v) = looseStarts v := by
  induction hu generalizing v with
  | nil => exact ⟨rfl, rfl⟩
  | @nest a b _ _ iha ihb =>
      obtain ⟨hstops, hstarts⟩ := iha (stop :: (b ++ v))
      rw [List.append_assoc, List.cons_append, List.cons_append]
      simp only [looseStops, looseStarts, hstops, hstarts, ihb v]
      simp

/-- **What is left over is unique.** -/
lemma leaves_iff {w : List Mark} {stops starts : Nat} :
    Leaves w stops starts ↔ looseStops w = stops ∧ looseStarts w = starts := by
  constructor
  · intro h
    induction h with
    | matched hw =>
        have hloose := hw.loose_append []
        rwa [List.append_nil] at hloose
    | stop hu _ ih =>
        rw [(hu.loose_append _).1, (hu.loose_append _).2]
        exact ⟨congrArg (· + 1) ih.1, ih.2⟩
    | start hu _ ih =>
        rw [(hu.loose_append _).1, (hu.loose_append _).2]
        simp [looseStops, looseStarts, ih.1, ih.2]
  · rintro ⟨rfl, rfl⟩
    induction w with
    | nil => exact .matched .nil
    | cons mark w ih =>
        cases mark with
        | stop => exact .stop .nil ih
        | start =>
            -- the new start takes the first stop that is left over, if there is one
            generalize hstops : looseStops w = stops at ih
            generalize hstarts : looseStarts w = starts at ih
            cases ih with
            | matched hw =>
                simp only [looseStops, looseStarts, hstops, hstarts]
                exact .start .nil (.matched hw)
            | @stop u v stops _ hu hv =>
                simp only [looseStops, looseStarts, hstops, hstarts, Nat.add_sub_cancel,
                  Nat.add_eq_zero_iff, Nat.one_ne_zero, and_false, if_false]
                have hfront : Matched (Mark.start :: u ++ [Mark.stop]) := hu.nest .nil
                simpa using hfront.leaves_append hv
            | start hu hv =>
                simp only [looseStops, looseStarts, hstops, hstarts]
                exact .start .nil (.start hu hv)

lemma matched_iff {w : List Mark} : Matched w ↔ looseStops w = 0 ∧ looseStarts w = 0 := by
  rw [← leaves_iff]
  refine ⟨.matched, fun h => ?_⟩
  cases h with
  | matched hw => exact hw

/-! ### Marks one after the other -/

/-- The marks of a list begin with that of its first entry. -/
lemma filterMap_cons {β : Type} (f : β → Option Mark) (x : β) (xs : List β) :
    (x :: xs).filterMap f = (f x).toList ++ xs.filterMap f := by
  cases hx : f x with
  | none => exact List.filterMap_cons_none hx
  | some mark => exact List.filterMap_cons_some hx

/-- How many are open after a list of marks, when some are open before it. -/
def openAfter (before : Nat) (w : List Mark) : Nat := before - looseStops w + looseStarts w

@[simp]
lemma openAfter_nil (before : Nat) : openAfter before [] = before := rfl

lemma openAfter_start (before : Nat) (w : List Mark) :
    openAfter before (start :: w) = openAfter (before + 1) w := by
  simp only [openAfter, looseStops, looseStarts]
  split <;> omega

lemma openAfter_stop (before : Nat) (w : List Mark) :
    openAfter before (stop :: w) = openAfter (before - 1) w := by
  simp only [openAfter, looseStops, looseStarts]
  omega

lemma openAfter_append (before : Nat) (u v : List Mark) :
    openAfter before (u ++ v) = openAfter (openAfter before u) v := by
  induction u generalizing before with
  | nil => rfl
  | cons mark u ih =>
      cases mark with
      | start => rw [List.cons_append, openAfter_start, ih, openAfter_start]
      | stop => rw [List.cons_append, openAfter_stop, ih, openAfter_stop]

/-- Stops find what was open before them, or what was opened in between. -/
lemma looseStops_append_sub (before : Nat) (u v : List Mark) :
    looseStops (u ++ v) - before =
      (looseStops u - before) + (looseStops v - openAfter before u) := by
  induction u generalizing before with
  | nil => simp [looseStops]
  | cons mark u ih =>
      cases mark with
      | start =>
          have hrest := ih (before + 1)
          simp only [List.cons_append, looseStops, openAfter_start]
          omega
      | stop =>
          have hrest := ih (before - 1)
          simp only [List.cons_append, looseStops, openAfter_stop]
          cases before with
          | zero =>
              rw [Nat.zero_sub] at hrest ⊢
              omega
          | succ before =>
              rw [Nat.add_sub_cancel] at hrest ⊢
              omega

end Mark

end Drafting.Sequence
