import Drafting.Config.Validate
import Drafting.Ident

/-!
Failures: why a diagram gets no layout at all.

A diagram may exceed a limit, or the configuration may be unusable.  The remaining failures are
checks of the layout on itself.
-/

namespace Drafting

/-- A check of a layout on itself that did not hold. -/
inductive Inconsistency (α : Type) where
  /-- The row of an event does not lie below the row before it. -/
  | rowOrder (event : Nat) (y : α)
  /-- Two neighbouring columns overlap. -/
  | columnOverlap (left right : Ident)
  /-- A node of a rank graph lies on a cycle. -/
  | cycle (node : Nat)
  /-- An edge spans fewer ranks than its length. -/
  | rankOrder (edge source target length : Nat)
  /-- An edge was given no route. -/
  | unrouted (edge : Nat)
deriving Repr, DecidableEq

/-- Why a diagram gets no layout. -/
inductive Failure (α : Type) where
  /-- The diagram has too many elements. -/
  | sizeLimit (elements limit : Nat)
  /-- Clusters or blocks are nested too deeply. -/
  | nestingLimit (depth limit : Nat)
  /-- The layout failed a check on itself. -/
  | inconsistent (cause : Inconsistency α)
  /-- The configuration is unusable. -/
  | config (error : ConfigError α)
deriving Repr, DecidableEq

variable {α : Type} [Scalar α]

/-- The wording of a check that did not hold. -/
def Inconsistency.message : Inconsistency α → String
  | .rowOrder event y =>
    "row of event " ++ toString event ++ " at y=" ++ Scalar.text y ++
      " does not follow the previous row"
  | .columnOverlap left right => "columns of `" ++ left ++ "` and `" ++ right ++ "` overlap"
  | .cycle node =>
    "graph still has a cycle through node " ++ toString node ++ " after cycle breaking"
  | .rankOrder edge source target length =>
    "edge " ++ toString edge ++ " goes from rank " ++ toString source ++ " to rank " ++
      toString target ++ " against its length " ++ toString length
  | .unrouted edge => "edge " ++ toString edge ++ " was not routed in any scope"

namespace Failure

/-- The wording of a failure. -/
def message : Failure α → String
  | sizeLimit elements limit =>
    "Diagram has " ++ toString elements ++ " elements, exceeding the limit of " ++ toString limit
  | nestingLimit depth limit =>
    "Nesting depth " ++ toString depth ++ " exceeds the limit of " ++ toString limit
  | inconsistent cause => "Internal layout invariant violated: " ++ cause.message
  | config error => "Configuration error: " ++ error.message

omit [Scalar α] in
/-- Whether a limit was exceeded. -/
def isLimit : Failure α → Bool
  | sizeLimit _ _ => true
  | nestingLimit _ _ => true
  | _ => false

end Failure

end Drafting
