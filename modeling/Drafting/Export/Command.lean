import Drafting.Draw.Command
import Drafting.Export.Geometry

/-!
Drawing commands as documents.
-/

namespace Drafting.Export

open Drafting.Draw

/-- A step of an outline. -/
def segment : Segment Float32 → Document
  | .moveTo p => .table [("MoveTo", point p)]
  | .lineTo p => .table [("LineTo", point p)]
  | .close => .str "Close"

/-- A drawing command. -/
def command : Command Float32 → Document
  | .rectangle b role =>
    .table [("type", .str "rectangle"), ("bounds", bounds b), ("role", .str role.name)]
  | .polyline points role arrow dashed =>
    .table
      [("type", .str "polyline"),
        ("points", list point points),
        ("role", .str role.name),
        ("arrow", .str arrow.name),
        ("dashed", .bool dashed)]
  | .path segments role =>
    .table [("type", .str "path"), ("segments", list segment segments), ("role", .str role.name)]
  | .text position anchor content style role =>
    .table
      [("type", .str "text"),
        ("position", point position),
        ("anchor", .str anchor.name),
        ("content", .str content),
        ("style", textStyle style),
        ("role", .str role.name)]

end Drafting.Export
