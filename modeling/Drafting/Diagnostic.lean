import Drafting.Geometry.Basic
import Drafting.Sequence.Model

/-!
Diagnostics: what a layout had to mend in its diagram.

A diagram with dangling references, unmatched activations or blocks, or unusable sizes is still laid
out; each mended fault is reported by its cause.

* `Diagnostic`: the causes.
* `Diagnostic.kind`, `Diagnostic.message`, `Diagnostic.subject`: how a cause is shown.
-/

namespace Drafting

/-- A fault of a diagram that the layout mended. -/
inductive Diagnostic (α : Type) where
  /-- A participant is declared again. -/
  | duplicateParticipant (id : Ident)
  /-- A node is declared again. -/
  | duplicateNode (id : Ident)
  /-- A cluster is declared again. -/
  | duplicateCluster (id : Ident)
  /-- A lifetime is inverted or reaches past the events. -/
  | invalidLifetime (id : Ident) (lifetime : Sequence.Lifetime) (events : Nat)
  /-- An event refers to a participant that is not declared. -/
  | participantNotFound (event : Nat) (id : Ident)
  /-- An activation is ended where none is open. -/
  | activationUnderflow (event : Nat) (id : Ident)
  /-- An activation is open at the end. -/
  | unclosedActivation (id : Ident)
  /-- A section begins outside of any block. -/
  | strayBlockSection (event : Nat)
  /-- A block is ended where none is open. -/
  | strayBlockEnd (event : Nat)
  /-- A block is open at the end. -/
  | unclosedBlock
  /-- A cluster lies in a cluster that is not declared. -/
  | clusterParentNotFound (id parent : Ident)
  /-- A node lies in a cluster that is not declared. -/
  | nodeParentNotFound (id parent : Ident)
  /-- A cluster lies in itself. -/
  | clusterCycle (id : Ident)
  /-- An edge refers to a node that is not declared. -/
  | nodeNotFound (edge : Nat) (id : Ident)
  /-- The size of a node is negative or not finite. -/
  | invalidSize (id : Ident) (size : Size α)
deriving Repr, DecidableEq

namespace Diagnostic

/-- The categories of faults. -/
inductive Kind where
  | participantNotFound | activationUnderflow | unclosedActivation | unbalancedBlock
  | invalidLifetime | nodeNotFound | clusterNotFound | clusterCycle | duplicateId | invalidSize
deriving Repr, DecidableEq, Inhabited

/-- The name of a category. -/
def Kind.name : Kind → String
  | participantNotFound => "participant_not_found"
  | activationUnderflow => "activation_underflow"
  | unclosedActivation => "unclosed_activation"
  | unbalancedBlock => "unbalanced_block"
  | invalidLifetime => "invalid_lifetime"
  | nodeNotFound => "node_not_found"
  | clusterNotFound => "cluster_not_found"
  | clusterCycle => "cluster_cycle"
  | duplicateId => "duplicate_id"
  | invalidSize => "invalid_size"

variable {α : Type}

/-- The category of a fault. -/
def kind : Diagnostic α → Kind
  | duplicateParticipant _ => .duplicateId
  | duplicateNode _ => .duplicateId
  | duplicateCluster _ => .duplicateId
  | invalidLifetime _ _ _ => .invalidLifetime
  | participantNotFound _ _ => .participantNotFound
  | activationUnderflow _ _ => .activationUnderflow
  | unclosedActivation _ => .unclosedActivation
  | strayBlockSection _ => .unbalancedBlock
  | strayBlockEnd _ => .unbalancedBlock
  | unclosedBlock => .unbalancedBlock
  | clusterParentNotFound _ _ => .clusterNotFound
  | nodeParentNotFound _ _ => .clusterNotFound
  | clusterCycle _ => .clusterCycle
  | nodeNotFound _ _ => .nodeNotFound
  | invalidSize _ _ => .invalidSize

/-- The element a fault is about, if it is about one. -/
def subject : Diagnostic α → Option Ident
  | duplicateParticipant id => some id
  | duplicateNode id => some id
  | duplicateCluster id => some id
  | invalidLifetime id _ _ => some id
  | participantNotFound _ id => some id
  | activationUnderflow _ id => some id
  | unclosedActivation id => some id
  | strayBlockSection _ => none
  | strayBlockEnd _ => none
  | unclosedBlock => none
  | clusterParentNotFound _ parent => some parent
  | nodeParentNotFound _ parent => some parent
  | clusterCycle id => some id
  | nodeNotFound _ id => some id
  | invalidSize id _ => some id

/-- The text of an index that may be absent. -/
def indexText : Option Nat → String
  | some n => "Some(" ++ toString n ++ ")"
  | none => "None"

/-- A name in quotes. -/
def quoted (id : Ident) : String := "`" ++ id ++ "`"

/-- The wording of a fault. -/
def message [Scalar α] : Diagnostic α → String
  | duplicateParticipant id => "participant " ++ quoted id ++ " is declared more than once"
  | duplicateNode id => "node " ++ quoted id ++ " is declared more than once"
  | duplicateCluster id => "cluster " ++ quoted id ++ " is declared more than once"
  | invalidLifetime id lifetime events =>
    "lifetime of " ++ quoted id ++ " (" ++ indexText lifetime.createdAt ++ ".." ++
      indexText lifetime.destroyedAt ++ ") does not fit " ++ toString events ++ " events"
  | participantNotFound event id =>
    "event " ++ toString event ++ " refers to unknown participant " ++ quoted id
  | activationUnderflow event id =>
    "event " ++ toString event ++ " deactivates " ++ quoted id ++ " which has no open activation"
  | unclosedActivation id => "activation of " ++ quoted id ++ " is never closed"
  | strayBlockSection event =>
    "event " ++ toString event ++ " starts a section outside of any block"
  | strayBlockEnd event => "event " ++ toString event ++ " closes a block that was never opened"
  | unclosedBlock => "block is never closed"
  | clusterParentNotFound id parent =>
    "cluster " ++ quoted id ++ " is nested in unknown cluster " ++ quoted parent
  | nodeParentNotFound id parent =>
    "node " ++ quoted id ++ " is placed in unknown cluster " ++ quoted parent
  | clusterCycle id => "cluster " ++ quoted id ++ " is nested in itself"
  | nodeNotFound edge id => "edge " ++ toString edge ++ " refers to unknown node " ++ quoted id
  | invalidSize id size =>
    "node " ++ quoted id ++ " has unusable size " ++ Scalar.text size.width ++ " x " ++
      Scalar.text size.height ++ "; using its label size"

/-- A fault on one line: its category in brackets, then its wording. -/
def describe [Scalar α] (d : Diagnostic α) : String := "[" ++ d.kind.name ++ "] " ++ d.message

end Diagnostic

end Drafting
