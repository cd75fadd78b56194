/-!
Text styles: the font properties that decide how much room a text takes.
-/

namespace Drafting

/-- The font properties that decide how much room a text takes. -/
structure TextStyle where
  /-- The name of the font family. -/
  family : String := "Arial"
  /-- The font size in points. -/
  size : Nat := 14
  /-- Whether the weight is bold. -/
  bold : Bool := false
deriving Repr, DecidableEq, Inhabited

end Drafting
