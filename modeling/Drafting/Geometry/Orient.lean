import Drafting.Config.Basic
import Drafting.Geometry.Bounds

/-!
The axes of a drawing.

A graph is laid out with ranks that follow each other downward.  A drawing from left to right is the
same layout with its axes exchanged; `orient` leads from the axes of the layout to those of the
drawing and, being its own inverse, back.
-/

namespace Drafting

variable {α : Type}

/-- A size in the axes of a drawing. -/
def Size.orient (d : Direction) (s : Size α) : Size α :=
  match d with
  | .topToBottom => s
  | .leftToRight => s.swap

/-- A point in the axes of a drawing. -/
def Point.orient (d : Direction) (p : Point α) : Point α :=
  match d with
  | .topToBottom => p
  | .leftToRight => p.swap

/-- A box in the axes of a drawing. -/
def Bounds.orient (d : Direction) (b : Bounds α) : Bounds α :=
  match d with
  | .topToBottom => b
  | .leftToRight => b.swap

@[simp]
theorem Size.orient_orient (d : Direction) (s : Size α) : (s.orient d).orient d = s := by
  cases d <;> rfl

@[simp]
theorem Point.orient_orient (d : Direction) (p : Point α) : (p.orient d).orient d = p := by
  cases d <;> rfl

@[simp]
theorem Bounds.orient_orient (d : Direction) (b : Bounds α) : (b.orient d).orient d = b := by
  cases d <;> rfl

end Drafting
