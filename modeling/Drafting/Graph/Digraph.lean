import Drafting.Graph.Marks

/-!
Directed multigraphs and depth-first search.

Vertices are numbered; arcs are kept in the order in which they were added and may be parallel.

* `Digraph.search`: depth-first search with an explicit stack.  It finds the arcs that lead back to
  a vertex on the stack, and the order in which vertices are left.
* `Digraph.backArcs`: the arcs whose reversal makes a graph acyclic.
* `Digraph.orient`: a graph with some arcs reversed.
* `Digraph.topologicalOrder?`: an order in which every arc points forward, if there is one.
* `Digraph.longestPaths`: for each vertex the largest length of a path that ends there.
-/

namespace Drafting.Graph

/-- An arc with the least number of ranks it spans. -/
structure Arc where
  /-- Where it starts. -/
  source : Nat
  /-- Where it ends. -/
  target : Nat
  /-- The least number of ranks between its ends. -/
  length : Nat
deriving Repr, DecidableEq, Inhabited

/-- The arc in the other direction. -/
def Arc.flip (a : Arc) : Arc := ⟨a.target, a.source, a.length⟩

/-- A directed multigraph on the vertices below `size`. -/
structure Digraph where
  /-- The number of vertices. -/
  size : Nat
  /-- The arcs in the order in which they were added. -/
  arcs : List Arc
deriving Repr, DecidableEq, Inhabited

namespace Digraph

/-- The arcs of a list that leave a vertex, with their numbers counted from an index. -/
def outgoingFrom (index : Nat) (v : Nat) : List Arc → List (Nat × Nat)
  | [] => []
  | a :: rest =>
    if a.source = v then (index, a.target) :: outgoingFrom (index + 1) v rest
    else outgoingFrom (index + 1) v rest

/-- The arcs that leave a vertex: their numbers and ends, in order. -/
def outgoing (g : Digraph) (v : Nat) : List (Nat × Nat) := outgoingFrom 0 v g.arcs

/-! ### Depth-first search -/

/-- A vertex on the stack of the search with the arcs that are still to be followed. -/
abbrev Frame := Nat × List (Nat × Nat)

/-- What a search has found. -/
structure Found where
  /-- Which vertices have been entered. -/
  visited : Array Bool
  /-- The arcs that lead back to a vertex on the stack, the latest first. -/
  back : List Nat
  /-- The vertices that have been left, the latest first. -/
  finished : List Nat
deriving Repr, DecidableEq

/-- The amount of work that a stack still holds. -/
def work : List Frame → Nat
  | [] => 0
  | frame :: rest => frame.2.length + 1 + work rest

/-- Depth-first search from a stack of vertices. -/
def search (g : Digraph) (found : Found) : List Frame → Found
  | [] => found
  | (v, []) :: rest => search g { found with finished := v :: found.finished } rest
  | (v, (arc, w) :: more) :: rest =>
    if w = v then search g found ((v, more) :: rest)
    else if rest.any fun frame => frame.1 == w then
      search g { found with back := arc :: found.back } ((v, more) :: rest)
    else if _h : found.visited[w]? = some false then
      search g { found with visited := found.visited.setIfInBounds w true }
        ((w, g.outgoing w) :: (v, more) :: rest)
    else search g found ((v, more) :: rest)
termination_by frames => (found.visited.count false, work frames)
decreasing_by
  · simp only [work]; apply Prod.Lex.right; simp
  · simp only [work]; apply Prod.Lex.right; simp
  · simp only [work]; apply Prod.Lex.right; simp
  · apply Prod.Lex.left; exact Marks.count_mark_lt (by assumption)
  · simp only [work]; apply Prod.Lex.right; simp

/-- Searches from a vertex unless it has been visited. -/
def searchFrom (g : Digraph) (found : Found) (v : Nat) : Found :=
  if found.visited[v]? = some false then
    search g { found with visited := found.visited.setIfInBounds v true } [(v, g.outgoing v)]
  else found

/-- Searches from every vertex in turn. -/
def searchAll (g : Digraph) : Found :=
  (List.range g.size).foldl (searchFrom g) ⟨Array.replicate g.size false, [], []⟩

/-! ### Acyclic graphs -/

/-- The arcs that close a cycle of the search. -/
def backArcs (g : Digraph) : List Nat := g.searchAll.back

/-- The arcs of a list, those with numbers in a set reversed. -/
def orientFrom (reversed : List Nat) (index : Nat) : List Arc → List Arc
  | [] => []
  | a :: rest =>
    (if reversed.contains index then a.flip else a) :: orientFrom reversed (index + 1) rest

/-- The graph with the arcs of a set reversed. -/
def orient (g : Digraph) (reversed : List Nat) : Digraph :=
  { g with arcs := orientFrom reversed 0 g.arcs }

/-- An order in which every arc points forward; a vertex on a cycle when there is none. -/
def topologicalOrder (g : Digraph) : Except Nat (List Nat) :=
  let found := g.searchAll
  match g.arcs.find? fun a => a.source == a.target with
  | some loop => .error loop.source
  | none =>
    match found.back with
    | [] => .ok found.finished
    | arc :: _ => .error ((g.arcs[arc]?.map (·.source)).getD 0)

/-! ### Longest paths -/

/-- Raises the ends of the arcs that leave a vertex to at least its own rank plus their length. -/
def relaxVertex (arcs : List Arc) (ranks : Array Nat) (v : Nat) : Array Nat :=
  let own := ranks.getD v 0
  arcs.foldl
    (fun ranks a => if a.source = v then ranks.modify a.target (max · (own + a.length)) else ranks)
    ranks

/-- For each vertex the largest length of a path that ends there, given an order of the vertices in
which every arc points forward. -/
def longestPaths (g : Digraph) (order : List Nat) : Array Nat :=
  order.foldl (relaxVertex g.arcs) (Array.replicate g.size 0)

/-- The first arc that spans fewer ranks than its length, with its number. -/
def firstShort (ranks : Array Nat) (index : Nat) : List Arc → Option (Nat × Arc)
  | [] => none
  | a :: rest =>
    if ranks.getD a.target 0 < ranks.getD a.source 0 + a.length then some (index, a)
    else firstShort ranks (index + 1) rest

end Digraph

end Drafting.Graph
