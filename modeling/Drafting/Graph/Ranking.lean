import Drafting.Failure
import Drafting.Graph.Digraph

/-!
Ranks of the vertices of a graph.

Arcs that close a cycle are reversed; then each vertex takes the largest length
of a path that ends there.
-/

namespace Drafting.Graph

/-- A graph with ranks along which every arc, some of them reversed, spans at least its length. -/
structure Ranking where
  /-- The numbers of the reversed arcs. -/
  reversed : List Nat
  /-- The graph with these arcs reversed. -/
  oriented : Digraph
  /-- The rank of each vertex. -/
  ranks : Array Nat
deriving Repr, DecidableEq

namespace Ranking

/-- The ranks of an acyclic graph. -/
def ranksOf {α : Type} (g : Digraph) : Except (Inconsistency α) (Array Nat) :=
  match g.topologicalOrder with
  | .error v => .error (.cycle v)
  | .ok order => .ok (g.longestPaths order)

/-- Ranks must rise along every arc by at least its length. -/
def check {α : Type} (g : Digraph) (ranks : Array Nat) : Except (Inconsistency α) Unit :=
  match Digraph.firstShort ranks 0 g.arcs with
  | some (arc, a) =>
    .error (.rankOrder arc (ranks.getD a.source 0) (ranks.getD a.target 0) a.length)
  | none => .ok ()

/-- Breaks the cycles of a graph and ranks its vertices. -/
def ofDigraph {α : Type} (g : Digraph) : Except (Inconsistency α) Ranking := do
  let reversed := g.backArcs
  let oriented := g.orient reversed
  let ranks ← ranksOf oriented
  check oriented ranks
  .ok ⟨reversed, oriented, ranks⟩

end Ranking

end Drafting.Graph
