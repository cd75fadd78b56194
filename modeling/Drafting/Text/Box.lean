import Drafting.Config.Basic
import Drafting.Geometry.Bounds
import Drafting.Text.Wrap

/-!
Texts with the room they take.

* `Setting`: a configuration together with the way text is measured, which every layout works with.
* `MeasuredText`: a text split into lines, with its size.
* `TextBox`: a text with its place.
-/

namespace Drafting

/-- What a layout works with: a configuration and a measure of text. -/
structure Setting (α : Type) where
  /-- The configuration. -/
  config : Config α
  /-- How much room a text takes. -/
  measure : Measurer α

/-- A text split into lines, with the room it takes. -/
structure MeasuredText (α : Type) where
  /-- The lines. -/
  lines : List String
  /-- The room they take. -/
  size : Size α
deriving Repr, BEq, DecidableEq

/-- A text with its place. -/
structure TextBox (α : Type) where
  /-- The box of the text. -/
  bounds : Bounds α
  /-- The lines. -/
  lines : List String
deriving Repr, BEq, DecidableEq

variable {α : Type} [Scalar α]

/-- The room a text takes; none for the empty text. -/
def Setting.sizeOf (s : Setting α) (text : String) (style : TextStyle) : Size α :=
  if text.isEmpty then Size.zero else s.measure text style

/-- Wraps a text and measures the result. -/
def Setting.measured (s : Setting α) (text : String) (style : TextStyle) (limit : Option α) :
    MeasuredText α :=
  let lines := Text.wrap s.measure style limit text
  ⟨lines, s.sizeOf (Text.joinLines lines) style⟩

/-- The width of a text that may be absent. -/
def MeasuredText.widthOf (text : Option (MeasuredText α)) : α :=
  match text with
  | some t => t.size.width
  | none => 0

/-- The height of a text that may be absent. -/
def MeasuredText.heightOf (text : Option (MeasuredText α)) : α :=
  match text with
  | some t => t.size.height
  | none => 0

/-- Places a text with its top left corner at a point. -/
def MeasuredText.placeAt (t : MeasuredText α) (corner : Point α) : TextBox α :=
  ⟨Bounds.ofCorner corner t.size, t.lines⟩

/-- Places a text around a point. -/
def MeasuredText.placeAround (t : MeasuredText α) (center : Point α) : TextBox α :=
  ⟨Bounds.around center t.size, t.lines⟩

namespace TextBox

omit [Scalar α] in
/-- The lines as one text. -/
def content (t : TextBox α) : String := Text.joinLines t.lines

/-- Moves a text. -/
def translate (t : TextBox α) (v : Point α) : TextBox α := { t with bounds := t.bounds.translate v }

omit [Scalar α] in
/-- Exchanges the axes of the place of a text. -/
def swap (t : TextBox α) : TextBox α := { t with bounds := t.bounds.swap }

end TextBox

end Drafting
