import Drafting.Decimal.Shortest
import Drafting.Document
import Drafting.Scalar.Binary32
import Drafting.Text.Box

/-!
Points, boxes and texts as documents.  A coordinate is given by the fewest digits that read back.
-/

namespace Drafting.Export

/-- A coordinate. -/
def scalar (x : Float32) : Document := .number (Decimal.ofSingle x)

/-- A document of something that may be absent. -/
def optional {β : Type} (write : β → Document) (o : Option β) : Document :=
  Document.ofOption (o.map write)

/-- A list. -/
def list {β : Type} (write : β → Document) (items : List β) : Document := .array (items.map write)

/-- A point. -/
def point (p : Point Float32) : Document := .table [("x", scalar p.x), ("y", scalar p.y)]

/-- A box. -/
def bounds (b : Bounds Float32) : Document :=
  .table [("min_x", scalar b.minX), ("min_y", scalar b.minY), ("max_x", scalar b.maxX),
    ("max_y", scalar b.maxY)]

/-- A text with its place. -/
def textBox (t : TextBox Float32) : Document :=
  .table [("bounds", bounds t.bounds), ("lines", list .str t.lines)]

/-- A text style. -/
def textStyle (s : TextStyle) : Document :=
  .table [("font_family", .str s.family), ("font_size", .ofNat s.size), ("bold", .bool s.bold)]

end Drafting.Export
