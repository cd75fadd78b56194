import Drafting.Export.Geometry
import Drafting.Sequence.Geometry

/-!
The geometry of a sequence diagram as a document.
-/

namespace Drafting.Export

open Drafting.Sequence

/-- A piece of a lifeline. -/
def lifelineSegment (l : LifelineSegment Float32) : Document :=
  .table [("x", scalar l.x), ("start_y", scalar l.startY), ("end_y", scalar l.endY),
    ("dotted", .bool l.dotted)]

/-- The room of a column. -/
def columnRange (r : ColumnRange Float32) : Document :=
  .table [("min_x", scalar r.minX), ("max_x", scalar r.maxX)]

/-- A participant. -/
def participant (p : ParticipantGeometry Float32) : Document :=
  .table
    [("id", .str p.id),
      ("kind", .str p.kind.name),
      ("column", .ofNat p.column),
      ("center_x", scalar p.centerX),
      ("range", columnRange p.range),
      ("header", bounds p.header),
      ("label", textBox p.label),
      ("footer", optional bounds p.footer),
      ("lifeline", list lifelineSegment p.lifeline),
      ("destroy_mark", optional bounds p.destroyMark)]

/-- What is drawn for an event. -/
def eventShape : EventShape Float32 → Document
  | .message m =>
    .table
      [("type", .str "message"),
        ("kind", .str m.kind.name),
        ("style", .str m.style.name),
        ("points", list point m.points),
        ("label", optional textBox m.label)]
  | .activate activation =>
    .table [("type", .str "activation_start"), ("activation", optional .ofNat activation)]
  | .deactivate activation =>
    .table [("type", .str "activation_end"), ("activation", optional .ofNat activation)]
  | .note n =>
    .table [("type", .str "note"), ("bounds", bounds n.bounds), ("label", textBox n.label)]
  | .divider b =>
    .table [("type", .str "divider"), ("bounds", bounds b.bounds),
      ("label", optional textBox b.label)]
  | .delay b =>
    .table [("type", .str "delay"), ("bounds", bounds b.bounds),
      ("label", optional textBox b.label)]
  | .blockStart block => .table [("type", .str "block_start"), ("block", .ofNat block)]
  | .blockSection block =>
    .table [("type", .str "block_section"), ("block", optional .ofNat block)]
  | .blockEnd block => .table [("type", .str "block_end"), ("block", optional .ofNat block)]

/-- An event. -/
def event (e : EventGeometry Float32) : Document :=
  .table
    [("index", .ofNat e.index),
      ("y", scalar e.y),
      ("is_row", .bool e.isRow),
      ("kind", eventShape e.shape)]

/-- An activation. -/
def activation (a : ActivationGeometry Float32) : Document :=
  .table
    [("participant", .str a.participant),
      ("depth", .ofNat a.depth),
      ("bounds", bounds a.bounds),
      ("start_event", optional .ofNat a.startEvent),
      ("end_event", optional .ofNat a.endEvent)]

/-- A section of a block. -/
def blockPart (s : SectionGeometry Float32) : Document :=
  .table [("y", scalar s.y), ("label", optional textBox s.label)]

/-- A block. -/
def block (b : BlockGeometry Float32) : Document :=
  .table
    [("kind", .str b.kind),
      ("depth", .ofNat b.depth),
      ("bounds", bounds b.bounds),
      ("tab", textBox b.tab),
      ("label", optional textBox b.label),
      ("sections", list blockPart b.sections),
      ("start_event", .ofNat b.startEvent),
      ("end_event", optional .ofNat b.endEvent)]

/-- The geometry of a sequence diagram. -/
def sequence (l : Sequence.Layout Float32) : Document :=
  .table
    [("kind", .str "sequence"),
      ("participants", list participant l.participants),
      ("events", list event l.events),
      ("activations", list activation l.activations),
      ("blocks", list block l.blocks)]

end Drafting.Export
