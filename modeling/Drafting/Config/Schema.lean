import Drafting.Config.Validate
import Drafting.Decimal.Read
import Drafting.Document
import Drafting.Scalar.Binary32
import Drafting.Toml.Parse

/-!
Configurations as documents.

Every entry may be absent and then has its usual value; entries with unknown names are passed over,
and an entry of the wrong type makes the document malformed.  A text style that is given in part is
completed from the plain style, not from the usual value of that style.  Entries may also be listed
in order, without their names.

The two dialects that configurations are written in differ in what they put up
with: `Dialect` says how.

* `Config.ofDocument?`: the configuration a document holds.
* `Config.ofToml`: reads and validates a configuration file's text.
* `Config.load`: the same for a file.
-/

namespace Drafting

/-- The languages that configurations are written in. -/
inductive Dialect where
  /-- JSON. -/
  | json
  /-- TOML. -/
  | toml
deriving Repr, DecidableEq

namespace Dialect

/-- Whether a section written as a list may have more items than there are entries; those at the end
are not even looked at. -/
def allowsSurplus : Dialect → Bool
  | json => false
  | toml => true

/-- Whether a document says nothing.  A choice may be written as a table with one entry, the chosen
name, which holds nothing. -/
def isNothing : Dialect → Document → Bool
  | json, .null => true
  | toml, .array [] => true
  | toml, .table [] => true
  | _, _ => false

end Dialect

namespace Schema

/-- Whether a whole number fits 64 bits, with a sign or without. -/
def isWord (n : Int) : Bool := -0x8000000000000000 ≤ n && n < 0x10000000000000000

/-- Whether a whole number fits 128 bits, with a sign or without. -/
def isDoubleWord (n : Int) : Bool :=
  -0x80000000000000000000000000000000 ≤ n && n < 0x100000000000000000000000000000000

/-- Whether a numeral is not too large for 64 bits; the name of an infinity is not. -/
def isBounded (d : Decimal) : Bool :=
  match d with
  | .finite .. => d.toDouble.isFinite
  | _ => true

mutual

/-- Whether all numbers of a document are in range: the whole ones in 128 bits, the others in 64. -/
def inRange : Document → Bool
  | .int n => isDoubleWord n
  | .number d => isBounded d
  | .array items => itemsInRange items
  | .table entries => entriesInRange entries
  | _ => true

/-- Whether all numbers of some documents are in range. -/
def itemsInRange : List Document → Bool
  | [] => true
  | d :: rest => inRange d && itemsInRange rest

/-- Whether all numbers of some entries are in range. -/
def entriesInRange : List (String × Document) → Bool
  | [] => true
  | (_, d) :: rest => inRange d && entriesInRange rest

end

/-- The named entries of a section.  The numbers of entries that are passed over must be in range
all the same.  A date or a time of day counts as a section without entries. -/
def section? (dialect : Dialect) (names : List String) :
    Document → Option (List (String × Document))
  | .table entries =>
    if entriesInRange (entries.filter fun entry => !names.contains entry.1) then some entries
    else none
  | .array items =>
    if items.length ≤ names.length ∨ dialect.allowsSurplus then some (names.zip items) else none
  | .moment _ => some []
  | _ => none

/-- Reads an entry, or takes its usual value when it is absent. -/
def entry {β : Type} (entries : List (String × Document)) (name : String) (usual : β)
    (read : Document → Option β) : Option β :=
  match Document.find? entries name with
  | some d => read d
  | none => some usual

/-- A whole number as a coordinate. -/
def ofInt (n : Int) : Float32 :=
  if n < 0 then -(Scalar.ofNat n.natAbs) else Scalar.ofNat n.natAbs

/-- A coordinate; a whole number has to fit 64 bits. -/
def scalar? : Document → Option Float32
  | .int n => if isWord n then some (ofInt n) else none
  | .number d => if isBounded d then some d.toSingle else none
  | _ => none

/-- A coordinate that may be absent. -/
def scalarOrNull? : Document → Option (Option Float32)
  | .null => some none
  | d => (scalar? d).map some

/-- A count below a bound. -/
def countBelow? (bound : Nat) : Document → Option Nat
  | .int n => if 0 ≤ n ∧ n < bound then some n.toNat else none
  | _ => none

/-- A count. -/
def count? : Document → Option Nat := countBelow? 0x10000000000000000

/-- One of several names. -/
def oneOf? {β : Type} (dialect : Dialect) (all : List β) (name : β → String) : Document → Option β
  | .str s => all.find? (name · == s)
  | .table [(s, d)] => if dialect.isNothing d then all.find? (name · == s) else none
  | _ => none

end Schema

open Schema

/-- The names of the entries of a text style. -/
def TextStyle.names : List String := ["font_family", "font_size", "bold"]

/-- Reads a text style. -/
def TextStyle.ofDocument? (dialect : Dialect) (d : Document) : Option TextStyle := do
  let e ← section? dialect TextStyle.names d
  let plain : TextStyle := {}
  some
    { family := ← entry e "font_family" plain.family Document.str?
      size := ← entry e "font_size" plain.size (countBelow? 0x10000)
      bold := ← entry e "bold" plain.bold Document.bool? }

/-- The names of the entries for sequence diagrams. -/
def SequenceConfig.names : List String :=
  ["diagram_padding", "participant_padding", "participant_spacing", "event_spacing",
    "message_label_padding", "max_message_width", "self_message_width", "self_message_height",
    "stub_length", "activation_width", "activation_indent", "activation_min_height",
    "note_padding", "note_gap", "block_padding", "block_indent", "block_header_height",
    "divider_height", "delay_height", "footbox"]

/-- Reads the distances of sequence diagrams. -/
def SequenceConfig.ofDocument? (dialect : Dialect) (d : Document) :
    Option (SequenceConfig Float32) := do
  let e ← section? dialect SequenceConfig.names d
  let u : SequenceConfig Float32 := .standard
  some
    { diagramPadding := ← entry e "diagram_padding" u.diagramPadding scalar?
      participantPadding := ← entry e "participant_padding" u.participantPadding scalar?
      participantSpacing := ← entry e "participant_spacing" u.participantSpacing scalar?
      eventSpacing := ← entry e "event_spacing" u.eventSpacing scalar?
      messageLabelPadding := ← entry e "message_label_padding" u.messageLabelPadding scalar?
      maxMessageWidth := ← entry e "max_message_width" u.maxMessageWidth scalarOrNull?
      selfMessageWidth := ← entry e "self_message_width" u.selfMessageWidth scalar?
      selfMessageHeight := ← entry e "self_message_height" u.selfMessageHeight scalar?
      stubLength := ← entry e "stub_length" u.stubLength scalar?
      activationWidth := ← entry e "activation_width" u.activationWidth scalar?
      activationIndent := ← entry e "activation_indent" u.activationIndent scalar?
      activationMinHeight := ← entry e "activation_min_height" u.activationMinHeight scalar?
      notePadding := ← entry e "note_padding" u.notePadding scalar?
      noteGap := ← entry e "note_gap" u.noteGap scalar?
      blockPadding := ← entry e "block_padding" u.blockPadding scalar?
      blockIndent := ← entry e "block_indent" u.blockIndent scalar?
      blockHeaderHeight := ← entry e "block_header_height" u.blockHeaderHeight scalar?
      dividerHeight := ← entry e "divider_height" u.dividerHeight scalar?
      delayHeight := ← entry e "delay_height" u.delayHeight scalar?
      footbox := ← entry e "footbox" u.footbox Document.bool? }

/-- The names of the entries for graphs. -/
def GraphConfig.names : List String :=
  ["direction", "diagram_padding", "node_padding", "node_spacing", "virtual_node_width",
    "rank_gap", "component_gap", "cluster_padding", "ordering_passes", "ordering_heuristic",
    "relaxation_passes", "flat_edge_offset", "self_loop_size", "edge_label_padding"]

/-- Reads the distances and parameters of graphs. -/
def GraphConfig.ofDocument? (dialect : Dialect) (d : Document) : Option (GraphConfig Float32) := do
  let e ← section? dialect GraphConfig.names d
  let u : GraphConfig Float32 := .standard
  some
    { direction := ← entry e "direction" u.direction (oneOf? dialect Direction.all Direction.name)
      diagramPadding := ← entry e "diagram_padding" u.diagramPadding scalar?
      nodePadding := ← entry e "node_padding" u.nodePadding scalar?
      nodeSpacing := ← entry e "node_spacing" u.nodeSpacing scalar?
      virtualNodeWidth := ← entry e "virtual_node_width" u.virtualNodeWidth scalar?
      rankGap := ← entry e "rank_gap" u.rankGap scalar?
      componentGap := ← entry e "component_gap" u.componentGap scalar?
      clusterPadding := ← entry e "cluster_padding" u.clusterPadding scalar?
      orderingPasses := ← entry e "ordering_passes" u.orderingPasses count?
      orderingHeuristic :=
        ← entry e "ordering_heuristic" u.orderingHeuristic
          (oneOf? dialect Heuristic.all Heuristic.name)
      relaxationPasses := ← entry e "relaxation_passes" u.relaxationPasses count?
      flatEdgeOffset := ← entry e "flat_edge_offset" u.flatEdgeOffset scalar?
      selfLoopSize := ← entry e "self_loop_size" u.selfLoopSize scalar?
      edgeLabelPadding := ← entry e "edge_label_padding" u.edgeLabelPadding scalar? }

/-- Reads the limits. -/
def Limits.ofDocument? (dialect : Dialect) (d : Document) : Option Limits := do
  let e ← section? dialect ["max_elements", "max_nesting_depth"] d
  let u := Limits.standard
  some
    { maxElements := ← entry e "max_elements" u.maxElements count?
      maxNestingDepth := ← entry e "max_nesting_depth" u.maxNestingDepth count? }

/-- Reads the text styles. -/
def Styles.ofDocument? (dialect : Dialect) (d : Document) : Option Styles := do
  let e ← section? dialect
    ["participant_text", "message_text", "note_text", "node_text", "edge_text", "title_text"] d
  let u := Styles.standard
  some
    { participant := ← entry e "participant_text" u.participant (TextStyle.ofDocument? dialect)
      message := ← entry e "message_text" u.message (TextStyle.ofDocument? dialect)
      note := ← entry e "note_text" u.note (TextStyle.ofDocument? dialect)
      node := ← entry e "node_text" u.node (TextStyle.ofDocument? dialect)
      edge := ← entry e "edge_text" u.edge (TextStyle.ofDocument? dialect)
      title := ← entry e "title_text" u.title (TextStyle.ofDocument? dialect) }

/-- What the section on layout holds: distances, parameters and limits. -/
structure LayoutSection where
  /-- Distances of sequence diagrams. -/
  sequence : SequenceConfig Float32 := .standard
  /-- Distances and parameters of graphs. -/
  graph : GraphConfig Float32 := .standard
  /-- How large a diagram may be. -/
  limits : Limits := .standard

/-- Reads the section on layout. -/
def LayoutSection.ofDocument? (dialect : Dialect) (d : Document) : Option LayoutSection := do
  let e ← section? dialect ["sequence", "graph", "limits"] d
  some
    { sequence := ← entry e "sequence" .standard (SequenceConfig.ofDocument? dialect)
      graph := ← entry e "graph" .standard (GraphConfig.ofDocument? dialect)
      limits := ← entry e "limits" .standard (Limits.ofDocument? dialect) }

namespace Config

/-- The configuration a document holds, not yet validated. -/
def ofDocument? (dialect : Dialect) (d : Document) : Option (Config Float32) := do
  let e ← section? dialect ["layout", "style"] d
  let layout ← entry e "layout" {} (LayoutSection.ofDocument? dialect)
  let styles ← entry e "style" .standard (Styles.ofDocument? dialect)
  some ⟨layout.sequence, layout.graph, layout.limits, styles⟩

/-- The configuration of a document, not yet validated. -/
def ofDocument (dialect : Dialect) (d : Document) :
    Except (ConfigError Float32) (Config Float32) :=
  match ofDocument? dialect d with
  | some c => .ok c
  | none => .error .malformed

/-- Reads and validates the text of a configuration file. -/
def ofToml (content : String) : Except (ConfigError Float32) (Config Float32) := do
  match Toml.parse? content with
  | none => .error .malformed
  | some d =>
    let c ← ofDocument .toml d
    c.validate
    .ok c

/-- What is found at the path of a configuration file. -/
inductive File where
  /-- Nothing. -/
  | missing
  /-- Something that is not a text. -/
  | unreadable
  /-- A text. -/
  | content (text : String)

/-- Reads and validates a configuration file. -/
def load (path : String) : File → Except (ConfigError Float32) (Config Float32)
  | .missing => .error (.missingFile path)
  | .unreadable => .error .unreadable
  | .content text => ofToml text

end Config

end Drafting
