import Drafting.Text.Box

/-!
A drawing on its sheet.

A title stands centered above the content of a drawing and a caption below it, and there is room on
every side.  The corner of the sheet is the origin.
-/

namespace Drafting

/-- A sheet around the content of a drawing. -/
structure Sheet (α : Type) where
  /-- The text above the content. -/
  title : Option (TextBox α)
  /-- The text below the content. -/
  caption : Option (TextBox α)
  /-- How far the content is moved. -/
  offset : Point α
  /-- The whole sheet. -/
  bounds : Bounds α
deriving Repr, DecidableEq

namespace Sheet

variable {α : Type} [Scalar α]

/-- Places a text with its middle at one coordinate and its top at another. -/
def centered (text : MeasuredText α) (center top : α) : TextBox α :=
  text.placeAt ⟨center - Scalar.half text.size.width, top⟩

/-- The gap between the content and the texts above and below it. -/
def gap (padding : α) : α := max padding 1

/-- The title above some content, in the coordinates of the content. -/
def titleOver (s : Setting α) (padding : α) (content : Bounds α) (title : String) : TextBox α :=
  let text := s.measured title s.config.styles.title none
  centered text content.center.x (content.minY - gap padding - text.size.height)

/-- The caption below some content, in the coordinates of the content. -/
def captionUnder (s : Setting α) (padding : α) (content : Bounds α) (caption : String) :
    TextBox α :=
  centered (s.measured caption s.config.styles.title none) content.center.x
    (content.maxY + gap padding)

/-- The sheet around some content. -/
def around (s : Setting α) (padding : α) (title caption : Option String) (content : Bounds α) :
    Sheet α :=
  let title := title.map (titleOver s padding content)
  let caption := caption.map (captionUnder s padding content)
  let whole := (title.toList ++ caption.toList).foldl (fun b text => b.merge text.bounds) content
  let offset : Point α := ⟨padding - whole.minX, padding - whole.minY⟩
  { title := title.map (·.translate offset)
    caption := caption.map (·.translate offset)
    offset := offset
    bounds := Bounds.ofCorner Point.origin (whole.size.pad (Insets.uniform padding)) }

end Sheet

end Drafting
