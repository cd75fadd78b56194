import Drafting.Layout.Row
import Drafting.Sequence.Timeline

/-!
The horizontal order of a sequence diagram.

A column reserves room on both sides of its lifeline: for its header, its activation
bars, and all that is drawn beside the lifeline.  The texts of messages between two
columns keep their lifelines apart.

* `Columns.reach`: how far the activation bars of a column reach to the right.
* `Columns.ofTimeline`: the lifelines with their reserved room.
-/

namespace Drafting.Sequence

/-- The horizontal room reserved for a column. -/
structure ColumnRange (α : Type) where
  /-- The left end. -/
  minX : α
  /-- The right end. -/
  maxX : α
deriving Repr, BEq, DecidableEq

/-- The lifelines of a diagram with their reserved room. -/
structure Columns (α : Type) where
  /-- Where the lifelines are. -/
  centers : Array α
  /-- The room reserved on their two sides. -/
  extents : Array (Extent α)
  /-- How far activation bars reach to the right. -/
  reach : Array α
deriving Repr, DecidableEq

variable {α : Type} [Scalar α]

/-- Whether two ranges share interior points. -/
def ColumnRange.overlaps (r q : ColumnRange α) : Bool :=
  decide (r.minX < q.maxX) && decide (q.minX < r.maxX)

namespace Columns

/-- How far the activation bars of each column reach to the right of the lifeline. -/
def reachOf (s : Setting α) (count : Nat) (activations : Array (Activation α)) : Array α :=
  activations.foldl
    (fun reach a =>
      let right := Scalar.half s.config.sequence.activationWidth +
        Scalar.ofNat a.depth * s.config.sequence.activationIndent
      reach.modify a.column (max · right))
    (Array.replicate count 0)

/-- The room a column needs for its header and its activation bars. -/
def barExtent (s : Setting α) (header : Size α) (reach : α) : Extent α :=
  let own := Extent.symmetric header.width
  if 0 < reach then own.cover ⟨Scalar.half s.config.sequence.activationWidth, reach⟩ else own

/-- The length of an arrow with one end, which is at least that of its text. -/
def stubLength (s : Setting α) (label : Option (MeasuredText α)) : α :=
  max s.config.sequence.stubLength
    (MeasuredText.widthOf label + 2 * s.config.sequence.messageLabelPadding)

/-- The room a message needs beside a lifeline: the column and what is needed there. -/
def messageExtent? (s : Setting α) (reach : Array α) (m : MessageSlot α) :
    Option (Nat × Extent α) :=
  match m.kind, m.source, m.target with
  | .selfMessage, some column, _ =>
    let width := max s.config.sequence.selfMessageWidth
      (s.config.sequence.messageLabelPadding + MeasuredText.widthOf m.label)
    some (column, ⟨0, reach.getD column 0 + width⟩)
  | .normal, some _, some _ => none
  | _, some source, none => some (source, ⟨0, reach.getD source 0 + stubLength s m.label⟩)
  | _, none, some target => some (target, ⟨stubLength s m.label, 0⟩)
  | _, _, _ => none

/-- The room a note needs beside a lifeline: the column and what is needed there. -/
def noteExtent? (s : Setting α) (reach : Array α) (n : NoteSlot α) : Option (Nat × Extent α) :=
  let width := n.size.width
  let gap := s.config.sequence.noteGap
  match n.anchor with
  | .leftOf column => some (column, ⟨gap + width, 0⟩)
  | .rightOf column => some (column, ⟨0, reach.getD column 0 + gap + width⟩)
  | .spanning first last => if first = last then some (first, Extent.symmetric width) else none
  | .across => none

/-- The room an event needs beside a lifeline. -/
def slotExtent? (s : Setting α) (reach : Array α) (slot : Slot α) : Option (Nat × Extent α) :=
  match slot.kind with
  | .message m => messageExtent? s reach m
  | .note n => noteExtent? s reach n
  | _ => none

/-- The distance a message keeps between two lifelines. -/
def slotDistance? (s : Setting α) (slot : Slot α) : Option (MinDistance α) :=
  match slot.kind with
  | .message m =>
    match m.kind, m.source, m.target with
    | .normal, some source, some target =>
      let width := MeasuredText.widthOf m.label
      if 0 < width then
        some ⟨min source target, max source target,
          width + 2 * s.config.sequence.messageLabelPadding⟩
      else none
    | _, _, _ => none
  | _ => none

/-- The room each column reserves. -/
def extentsOf (s : Setting α) (roster : Roster α) (reach : Array α) (slots : List (Slot α)) :
    Array (Extent α) :=
  let own := (roster.zip reach.toList).map fun (c, r) => barExtent s c.header r
  (slots.filterMap (slotExtent? s reach)).foldl
    (fun extents (column, extent) => extents.modify column (·.cover extent))
    own.toArray

/-- The lifelines of a diagram with their reserved room. -/
def ofTimeline (s : Setting α) (roster : Roster α) (t : Timeline α) : Columns α :=
  let reach := reachOf s roster.length t.activations
  let extents := extentsOf s roster reach t.slots
  let centers := Row.distribute extents.toList s.config.sequence.participantSpacing
    (t.slots.filterMap (slotDistance? s))
  ⟨centers.toArray, extents, reach⟩

/-- Where the lifeline of a column is. -/
def center (c : Columns α) (column : Nat) : α := c.centers.getD column 0

/-- The room reserved for a column. -/
def range (c : Columns α) (column : Nat) : ColumnRange α :=
  let extent := c.extents.getD column ⟨0, 0⟩
  ⟨c.center column - extent.before, c.center column + extent.after⟩

/-- The left and right end of the room of all columns; nothing at the origin when there are none. -/
def span (c : Columns α) : α × α :=
  if c.centers.size = 0 then (0, 0)
  else ((c.range 0).minX, (c.range (c.centers.size - 1)).maxX)

end Columns

end Drafting.Sequence
