import Drafting.Scalar
import Drafting.Text.Style

/-!
The configuration of a layout: distances, limits, text styles and the parameters of the algorithms.

* `SequenceConfig`: distances of sequence diagrams.
* `GraphConfig`: distances and parameters of graphs.
* `Limits`: how large a diagram may be.
* `Styles`: the text styles.
* `Config`: all of it, and `Config.standard` its usual values.
* `Adjustment`: single changes to a configuration.
-/

namespace Drafting

/-- Distances of sequence diagrams. -/
structure SequenceConfig (α : Type) where
  /-- Margin around the drawing. -/
  diagramPadding : α
  /-- Room between a participant's text and its box. -/
  participantPadding : α
  /-- Least distance between two columns. -/
  participantSpacing : α
  /-- Least distance between two rows. -/
  eventSpacing : α
  /-- Room around the text of a message. -/
  messageLabelPadding : α
  /-- Width at which the text of a message is wrapped. -/
  maxMessageWidth : Option α
  /-- Width of the loop of a message to oneself. -/
  selfMessageWidth : α
  /-- Height of the loop of a message to oneself. -/
  selfMessageHeight : α
  /-- Length of an arrow with only one end. -/
  stubLength : α
  /-- Width of an activation bar. -/
  activationWidth : α
  /-- Shift of an activation bar for each bar below it. -/
  activationIndent : α
  /-- Least height of an activation bar. -/
  activationMinHeight : α
  /-- Room around the text of a note. -/
  notePadding : α
  /-- Distance between a lifeline and a note beside it. -/
  noteGap : α
  /-- Room inside the frame of a block. -/
  blockPadding : α
  /-- Margin of a frame for each block in it. -/
  blockIndent : α
  /-- Least height of the head of a block. -/
  blockHeaderHeight : α
  /-- Least height of a divider. -/
  dividerHeight : α
  /-- Least height of a delay. -/
  delayHeight : α
  /-- Whether the participants are repeated below their lifelines. -/
  footbox : Bool
deriving Repr, BEq

/-- The direction in which ranks grow. -/
inductive Direction where
  /-- Downward. -/
  | topToBottom
  /-- To the right. -/
  | leftToRight
deriving Repr, DecidableEq, Inhabited

/-- The name of a direction. -/
def Direction.name : Direction → String
  | topToBottom => "top_to_bottom"
  | leftToRight => "left_to_right"

/-- The directions. -/
def Direction.all : List Direction := [topToBottom, leftToRight]

/-- The position a node of a rank is sorted by, taken from the positions of its neighbours. -/
inductive Heuristic where
  /-- Their weighted median. -/
  | median
  /-- Their mean. -/
  | barycenter
deriving Repr, DecidableEq, Inhabited

/-- The name of a heuristic. -/
def Heuristic.name : Heuristic → String
  | median => "median"
  | barycenter => "barycenter"

/-- The heuristics. -/
def Heuristic.all : List Heuristic := [median, barycenter]

/-- Distances and parameters of graphs. -/
structure GraphConfig (α : Type) where
  /-- The direction in which ranks grow. -/
  direction : Direction
  /-- Margin around the drawing. -/
  diagramPadding : α
  /-- Room between a node's text and its box. -/
  nodePadding : α
  /-- Least distance between neighbours of a rank. -/
  nodeSpacing : α
  /-- Width kept for an edge where it passes a rank. -/
  virtualNodeWidth : α
  /-- Least distance between two ranks. -/
  rankGap : α
  /-- Distance between parts that are not connected. -/
  componentGap : α
  /-- Room inside the frame of a cluster. -/
  clusterPadding : α
  /-- Number of passes that reduce crossings. -/
  orderingPasses : Nat
  /-- What nodes are sorted by in these passes. -/
  orderingHeuristic : Heuristic
  /-- Number of passes that straighten edges. -/
  relaxationPasses : Nat
  /-- Detour of an edge within a rank around the nodes between its ends. -/
  flatEdgeOffset : α
  /-- Size of the loop of an edge from a node to itself. -/
  selfLoopSize : α
  /-- Room around the text of an edge. -/
  edgeLabelPadding : α
deriving Repr, BEq

/-- How large a diagram may be. -/
structure Limits where
  /-- Largest number of elements. -/
  maxElements : Nat
  /-- Largest depth of nested clusters or blocks. -/
  maxNestingDepth : Nat
deriving Repr, DecidableEq

/-- The text styles of a drawing. -/
structure Styles where
  /-- Texts of participants. -/
  participant : TextStyle
  /-- Texts of messages, dividers, delays and blocks. -/
  message : TextStyle
  /-- Texts of notes. -/
  note : TextStyle
  /-- Texts of nodes and clusters. -/
  node : TextStyle
  /-- Texts of edges. -/
  edge : TextStyle
  /-- Titles and captions. -/
  title : TextStyle
deriving Repr, DecidableEq

/-- A configuration. -/
structure Config (α : Type) where
  /-- Distances of sequence diagrams. -/
  sequence : SequenceConfig α
  /-- Distances and parameters of graphs. -/
  graph : GraphConfig α
  /-- How large a diagram may be. -/
  limits : Limits
  /-- The text styles. -/
  styles : Styles
deriving Repr, BEq

variable {α : Type} [Scalar α]

/-- The usual distances of sequence diagrams. -/
def SequenceConfig.standard : SequenceConfig α where
  diagramPadding := 20
  participantPadding := 8
  participantSpacing := 40
  eventSpacing := 24
  messageLabelPadding := 4
  maxMessageWidth := none
  selfMessageWidth := 30
  selfMessageHeight := 16
  stubLength := 40
  activationWidth := 10
  activationIndent := 5
  activationMinHeight := 8
  notePadding := 6
  noteGap := 10
  blockPadding := 10
  blockIndent := 8
  blockHeaderHeight := 20
  dividerHeight := 20
  delayHeight := 30
  footbox := true

/-- The usual distances and parameters of graphs. -/
def GraphConfig.standard : GraphConfig α where
  direction := .topToBottom
  diagramPadding := 20
  nodePadding := 10
  nodeSpacing := 30
  virtualNodeWidth := 10
  rankGap := 50
  componentGap := 40
  clusterPadding := 15
  orderingPasses := 8
  orderingHeuristic := .median
  relaxationPasses := 4
  flatEdgeOffset := 15
  selfLoopSize := 20
  edgeLabelPadding := 4

/-- The usual limits. -/
def Limits.standard : Limits := ⟨10000, 64⟩

/-- The usual text styles. -/
def Styles.standard : Styles where
  participant := {}
  message := { size := 12 }
  note := { size := 12 }
  node := {}
  edge := { size := 12 }
  title := { size := 18, bold := true }

/-- The usual configuration. -/
def Config.standard : Config α := ⟨.standard, .standard, .standard, .standard⟩

/-- Whether a configuration is the usual one. -/
def Config.isStandard (c : Config α) : Bool := c == .standard

/-- A change to a configuration. -/
inductive Adjustment (α : Type) where
  | eventSpacing (v : α)
  | maxMessageWidth (v : Option α)
  | footbox (b : Bool)
  | direction (d : Direction)
  | orderingPasses (n : Nat)
  | orderingHeuristic (h : Heuristic)
  | relaxationPasses (n : Nat)
  | limits (limits : Limits)
  /-- All distances, parameters and limits back to the usual ones. -/
  | resetLayout
  /-- All text styles back to the usual ones. -/
  | resetStyles
deriving Repr

/-- The configuration after a change. -/
def Config.adjust (c : Config α) : Adjustment α → Config α
  | .eventSpacing v => { c with sequence := { c.sequence with eventSpacing := v } }
  | .maxMessageWidth v => { c with sequence := { c.sequence with maxMessageWidth := v } }
  | .footbox b => { c with sequence := { c.sequence with footbox := b } }
  | .direction d => { c with graph := { c.graph with direction := d } }
  | .orderingPasses n => { c with graph := { c.graph with orderingPasses := n } }
  | .orderingHeuristic h => { c with graph := { c.graph with orderingHeuristic := h } }
  | .relaxationPasses n => { c with graph := { c.graph with relaxationPasses := n } }
  | .limits limits => { c with limits := limits }
  | .resetLayout => { (Config.standard : Config α) with styles := c.styles }
  | .resetStyles => { c with styles := .standard }

end Drafting
