import Drafting.Geometry.Basic
import Drafting.Text.Style

/-!
Measuring text.

A layout asks a `Measurer` how much room a text takes in a style; it never looks at glyphs.

* `Measurer`: the room a text takes, as a function of text and style.
* `FixedWidth`: every character takes the same room.
-/

namespace Drafting

/-- The room a text takes in a style. -/
abbrev Measurer (α : Type) := String → TextStyle → Size α

namespace Text

/-- Splits at every line break; a text without one is a single line. -/
def splitLines : List Char → List (List Char)
  | [] => [[]]
  | c :: rest =>
    if c = '\n' then [] :: splitLines rest
    else
      match splitLines rest with
      | [] => [[c]]
      | line :: lines => (c :: line) :: lines

/-- The lines of a text. -/
def lines (text : String) : List String := (splitLines text.toList).map String.ofList

/-- The lines of a text joined by line breaks. -/
def joinLines (lines : List String) : String := "\n".intercalate lines

end Text

/-- Metrics in which every character of a style takes the same room. -/
structure FixedWidth (α : Type) where
  /-- The width of a character as a part of the font size. -/
  advance : α
  /-- The height of a line as a part of the font size. -/
  leading : α
  /-- By how much bold characters are wider. -/
  boldness : α
deriving Repr, DecidableEq

namespace FixedWidth

variable {α : Type} [Scalar α]

/-- Metrics with the usual widening of bold characters. -/
def of (advance leading : α) : FixedWidth α := ⟨advance, leading, 1.1⟩

/-- The usual metrics. -/
def standard : FixedWidth α := of 0.6 1.2

/-- The width of a character in a style. -/
def charWidth (m : FixedWidth α) (style : TextStyle) : α :=
  let width := Scalar.ofNat style.size * m.advance
  if style.bold then width * m.boldness else width

/-- Measures a text: its longest line times the character width, its number of lines times the line
height.  The empty text takes no room. -/
def measure (m : FixedWidth α) : Measurer α := fun text style =>
  if text.isEmpty then Size.zero
  else
    let lines := Text.splitLines text.toList
    let longest := lines.foldl (fun n line => max n line.length) 0
    ⟨Scalar.ofNat longest * m.charWidth style,
      Scalar.ofNat lines.length * Scalar.ofNat style.size * m.leading⟩

end FixedWidth

end Drafting
