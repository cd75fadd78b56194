import Drafting.Draw.Graph
import Drafting.Draw.Sequence
import Drafting.Drawing

/-!
The drawing commands of a whole drawing: its content, then its title and its caption.
-/

namespace Drafting.Drawing

variable {α : Type} [Scalar α]

/-- The commands of the content of a drawing. -/
def pictureLayers (config : Config α) (d : Drawing α) : Draw.Layered α :=
  match d.picture with
  | .sequence layout => Draw.sequence config layout
  | .graph layout => Draw.graph config layout

/-- The commands of a drawing with their layers, in the order in which they arise. -/
def layered (config : Config α) (d : Drawing α) : Draw.Layered α :=
  d.pictureLayers config ++ Draw.label? .title config.styles.title d.title ++
    Draw.label? .caption config.styles.title d.caption

/-- The commands of a drawing from the bottom up. -/
def commands (config : Config α) (d : Drawing α) : List (Draw.Command α) :=
  (d.layered config).commands

end Drafting.Drawing
