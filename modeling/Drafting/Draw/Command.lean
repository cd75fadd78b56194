import Drafting.Geometry.Bounds
import Drafting.Text.Style

/-!
Drawing commands: rectangles, lines, outlines and texts, independent of any device.

A command says what it depicts, its `Role`; colors and strokes are the business of whoever draws it.
-/

namespace Drafting.Draw

/-- What a command depicts. -/
inductive Role where
  | participantHeader | participantFooter | lifeline | activation | message | note
  | blockFrame | blockSeparator | divider | delay | destroyMark
  | node | cluster | edge | label | title | caption
deriving Repr, DecidableEq, Inhabited

/-- The name of a role. -/
def Role.name : Role → String
  | participantHeader => "participant_header"
  | participantFooter => "participant_footer"
  | lifeline => "lifeline"
  | activation => "activation"
  | message => "message"
  | note => "note"
  | blockFrame => "block_frame"
  | blockSeparator => "block_separator"
  | divider => "divider"
  | delay => "delay"
  | destroyMark => "destroy_mark"
  | node => "node"
  | cluster => "cluster"
  | edge => "edge"
  | label => "label"
  | title => "title"
  | caption => "caption"

/-- The roles. -/
def Role.all : List Role :=
  [participantHeader, participantFooter, lifeline, activation, message, note, blockFrame,
    blockSeparator, divider, delay, destroyMark, node, cluster, edge, label, title, caption]

/-- The head at the end of a line. -/
inductive ArrowHead where
  | none | filled | hollow
deriving Repr, DecidableEq, Inhabited

/-- The name of an arrow head. -/
def ArrowHead.name : ArrowHead → String
  | .none => "none"
  | .filled => "filled"
  | .hollow => "open"

/-- The arrow heads. -/
def ArrowHead.all : List ArrowHead := [.none, .filled, .hollow]

/-- How a text lies to its position. -/
inductive Anchor where
  | start | middle | finish
deriving Repr, DecidableEq, Inhabited

/-- The name of an anchor. -/
def Anchor.name : Anchor → String
  | .start => "start"
  | .middle => "middle"
  | .finish => "end"

/-- The anchors. -/
def Anchor.all : List Anchor := [.start, .middle, .finish]

/-- One step of an outline. -/
inductive Segment (α : Type) where
  /-- Moves the pen. -/
  | moveTo (p : Point α)
  /-- Draws a line. -/
  | lineTo (p : Point α)
  /-- Returns to where the outline began. -/
  | close
deriving Repr, DecidableEq

/-- A drawing command. -/
inductive Command (α : Type) where
  /-- A rectangle. -/
  | rectangle (bounds : Bounds α) (role : Role)
  /-- Connected lines, with a head at the last point. -/
  | polyline (points : List (Point α)) (role : Role) (arrow : ArrowHead) (dashed : Bool)
  /-- An outline. -/
  | path (segments : List (Segment α)) (role : Role)
  /-- A text whose lines are centered vertically on a position. -/
  | text (position : Point α) (anchor : Anchor) (content : String) (style : TextStyle) (role : Role)
deriving Repr, DecidableEq

variable {α : Type}

/-- The point a step of an outline ends in, if it names one. -/
def Segment.point? : Segment α → Option (Point α)
  | moveTo p => some p
  | lineTo p => some p
  | close => none

/-- The smallest box around a list of points, if there are any. -/
def pointsBounds? [Scalar α] : List (Point α) → Option (Bounds α)
  | [] => none
  | p :: rest => some (rest.foldl (fun b q => b.merge (Bounds.ofCorners q q))
    (Bounds.ofCorners p p))

namespace Command

/-- What a command depicts. -/
def role : Command α → Role
  | rectangle _ role => role
  | polyline _ role _ _ => role
  | path _ role => role
  | text _ _ _ _ role => role

/-- The smallest box around what is drawn, if anything is.  The extent of a text is not known here:
only its position counts. -/
def bounds? [Scalar α] : Command α → Option (Bounds α)
  | rectangle bounds _ => some bounds
  | polyline points _ _ _ => pointsBounds? points
  | path segments _ => pointsBounds? (segments.filterMap Segment.point?)
  | text position _ _ _ _ => some (Bounds.ofCorners position position)

end Command

end Drafting.Draw
