import Drafting.Config.Basic

/-!
Usable configurations.

Distances that separate things must be positive, those that add room may be zero, and both must
be finite; counts, limits and font sizes must not be zero.  `Config.validate` names the first
field that breaks its rule.
-/

namespace Drafting

/-- How a field of a configuration breaks its rule. -/
inductive Violation (α : Type) where
  /-- The value had to be positive. -/
  | notPositive (field : String) (value : α)
  /-- The value must not be negative. -/
  | negative (field : String) (value : α)
  /-- The count must not be zero. -/
  | zero (field : String)
deriving Repr, DecidableEq

/-- What went wrong with a configuration. -/
inductive ConfigError (α : Type) where
  /-- The document cannot be read as a configuration. -/
  | malformed
  /-- There is no file at the path. -/
  | missingFile (path : String)
  /-- The file cannot be read. -/
  | unreadable
  /-- A value is out of its range. -/
  | invalid (violation : Violation α)
deriving Repr, DecidableEq

variable {α : Type} [Scalar α]

/-- The wording of a broken rule. -/
def Violation.message : Violation α → String
  | .notPositive field value =>
    "`" ++ field ++ "` must be a positive number, got " ++ Scalar.text value
  | .negative field value =>
    "`" ++ field ++ "` must be a non-negative number, got " ++ Scalar.text value
  | .zero field => "`" ++ field ++ "` must be greater than zero"

/-- The wording of an error. -/
def ConfigError.message : ConfigError α → String
  | .malformed => "Failed to parse TOML configuration"
  | .missingFile path => "Missing configuration file: " ++ path
  | .unreadable => "I/O error"
  | .invalid violation => "Validation error: " ++ violation.message

/-! ### The rules -/

/-- A finite number above zero. -/
def IsPositive (value : α) : Prop := Scalar.isFinite value = true ∧ 0 < value

/-- A finite number, zero included. -/
def IsNonneg (value : α) : Prop := Scalar.isFinite value = true ∧ 0 ≤ value

instance (value : α) : Decidable (IsPositive value) := by unfold IsPositive; infer_instance

instance (value : α) : Decidable (IsNonneg value) := by unfold IsNonneg; infer_instance

/-- The rule of one field. -/
inductive Rule (α : Type) where
  /-- The value is a finite number above zero. -/
  | positive (field : String) (value : α)
  /-- The value is a finite number, zero included. -/
  | nonneg (field : String) (value : α)
  /-- The count is above zero. -/
  | nonzero (field : String) (count : Nat)

/-- How a rule is broken, if it is. -/
def Rule.check : Rule α → Option (Violation α)
  | .positive field value => if IsPositive value then none else some (.notPositive field value)
  | .nonneg field value => if IsNonneg value then none else some (.negative field value)
  | .nonzero field count => if 0 < count then none else some (.zero field)

/-- The rules of sequence diagrams. -/
def SequenceConfig.rules (c : SequenceConfig α) : List (Rule α) :=
  [.nonneg "sequence.diagram_padding" c.diagramPadding,
    .nonneg "sequence.participant_padding" c.participantPadding,
    .positive "sequence.participant_spacing" c.participantSpacing,
    .positive "sequence.event_spacing" c.eventSpacing,
    .nonneg "sequence.message_label_padding" c.messageLabelPadding] ++
  c.maxMessageWidth.toList.map (.positive "sequence.max_message_width") ++
  [.positive "sequence.self_message_width" c.selfMessageWidth,
    .positive "sequence.self_message_height" c.selfMessageHeight,
    .positive "sequence.stub_length" c.stubLength,
    .positive "sequence.activation_width" c.activationWidth,
    .nonneg "sequence.activation_indent" c.activationIndent,
    .positive "sequence.activation_min_height" c.activationMinHeight,
    .nonneg "sequence.note_padding" c.notePadding,
    .nonneg "sequence.note_gap" c.noteGap,
    .nonneg "sequence.block_padding" c.blockPadding,
    .nonneg "sequence.block_indent" c.blockIndent,
    .positive "sequence.block_header_height" c.blockHeaderHeight,
    .positive "sequence.divider_height" c.dividerHeight,
    .positive "sequence.delay_height" c.delayHeight]

/-- The rules of graphs. -/
def GraphConfig.rules (c : GraphConfig α) : List (Rule α) :=
  [.nonneg "graph.diagram_padding" c.diagramPadding,
    .nonneg "graph.node_padding" c.nodePadding,
    .positive "graph.node_spacing" c.nodeSpacing,
    .positive "graph.virtual_node_width" c.virtualNodeWidth,
    .positive "graph.rank_gap" c.rankGap,
    .positive "graph.component_gap" c.componentGap,
    .nonneg "graph.cluster_padding" c.clusterPadding,
    .nonzero "graph.ordering_passes" c.orderingPasses,
    .nonzero "graph.relaxation_passes" c.relaxationPasses,
    .positive "graph.flat_edge_offset" c.flatEdgeOffset,
    .positive "graph.self_loop_size" c.selfLoopSize,
    .nonneg "graph.edge_label_padding" c.edgeLabelPadding]

/-- The rules of the limits. -/
def Limits.rules (l : Limits) : List (Rule α) :=
  [.nonzero "limits.max_elements" l.maxElements,
    .nonzero "limits.max_nesting_depth" l.maxNestingDepth]

/-- The rules of the text styles. -/
def Styles.rules (s : Styles) : List (Rule α) :=
  [.nonzero "style.participant_text.font_size" s.participant.size,
    .nonzero "style.message_text.font_size" s.message.size,
    .nonzero "style.note_text.font_size" s.note.size,
    .nonzero "style.node_text.font_size" s.node.size,
    .nonzero "style.edge_text.font_size" s.edge.size,
    .nonzero "style.title_text.font_size" s.title.size]

namespace Config

/-- All rules, in the order in which they are checked. -/
def rules (c : Config α) : List (Rule α) :=
  c.sequence.rules ++ c.graph.rules ++ c.limits.rules ++ c.styles.rules

/-- The first broken rule, if any. -/
def violation? (c : Config α) : Option (Violation α) := c.rules.findSome? Rule.check

/-- Refuses a configuration that breaks a rule. -/
def validate (c : Config α) : Except (ConfigError α) Unit :=
  match c.violation? with
  | some violation => .error (.invalid violation)
  | none => .ok ()

end Config

end Drafting
