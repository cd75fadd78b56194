import Drafting.Declared
import Drafting.Diagnostic
import Drafting.Failure
import Drafting.Graph.Model

/-!
Which element lies in which cluster.

The interior of each cluster, and the diagram as a whole, is a scope.  A scope holds its direct
members and the edges that run inside it.  An edge that crosses the frames of clusters belongs to
the innermost scope around both ends; there it connects the outermost clusters that contain them.

* `Clusters.breakCycles`: cuts every cycle of clusters that lie in each other.
* `Containment.ofModel`: the distinct nodes and clusters, what they lie in, and what edges connect.
* `Containment.scopes`: the members and edges of every scope.
* `Containment.order`: all scopes, inner ones before outer ones.
* `Containment.diagnostics`: repeated names and dangling references.
-/

namespace Drafting.Graph

/-! ### Nested clusters -/

namespace Clusters

/-- Whether the walk from a cluster outward meets `start`. -/
def leadsTo (parents : Array (Option Nat)) (start : Nat) : Nat → Option Nat → Bool
  | 0, _ => false
  | _, none => false
  | fuel + 1, some c => c == start || leadsTo parents start fuel (parents.getD c none)

/-- Makes a cluster that lies in itself an outermost one; the clusters found so are collected. -/
def breakCycle (state : Array (Option Nat) × List Nat) (start : Nat) :
    Array (Option Nat) × List Nat :=
  let (parents, broken) := state
  if leadsTo parents start (parents.size + 1) (parents.getD start none) then
    (parents.setIfInBounds start none, broken ++ [start])
  else state

/-- Cuts every cycle at its first cluster; returns what clusters then lie in, and where it cut. -/
def breakCycles (parents : Array (Option Nat)) : Array (Option Nat) × List Nat :=
  (List.range parents.size).foldl breakCycle (parents, [])

/-- The clusters from a given one outward.  As many steps as there are clusters are enough. -/
def outwardFrom (parents : Array (Option Nat)) : Nat → Option Nat → List Nat
  | 0, _ => []
  | _, none => []
  | fuel + 1, some c => c :: outwardFrom parents fuel (parents.getD c none)

/-- The clusters from a given one outward. -/
def outward (parents : Array (Option Nat)) (cluster : Option Nat) : List Nat :=
  outwardFrom parents parents.size cluster

/-- The number of clusters around a cluster, itself included. -/
def depth (parents : Array (Option Nat)) (cluster : Nat) : Nat :=
  (outward parents (some cluster)).length

/-- The clusters directly in a container, the last one first. -/
def directlyIn (parents : Array (Option Nat)) (container : Option Nat) : List Nat :=
  ((List.range parents.size).filter fun c => parents.getD c none == container).reverse

/-- A container and the clusters in it, each after those inside it.  As many steps inward as there
are clusters are enough. -/
def inwardFrom (parents : Array (Option Nat)) : Nat → Option Nat → List (Option Nat)
  | 0, container => [container]
  | fuel + 1, container =>
    (directlyIn parents container).flatMap (fun c =>
      inwardFrom parents fuel (some c)) ++ [container]

end Clusters

/-! ### Scopes -/

/-- A direct member of a scope. -/
inductive Member where
  /-- A node, by its number. -/
  | node (index : Nat)
  /-- A cluster, by its number. -/
  | cluster (index : Nat)
deriving Repr, DecidableEq, Inhabited

/-- An edge inside a scope, between two of its members. -/
structure ScopeEdge where
  /-- The number of the edge. -/
  edge : Nat
  /-- The position of the member it leaves. -/
  source : Nat
  /-- The position of the member it enters. -/
  target : Nat
deriving Repr, DecidableEq, Inhabited

/-- The interior of a cluster, or of the whole diagram. -/
structure Scope where
  /-- The cluster it is the interior of. -/
  container : Option Nat
  /-- Its direct members. -/
  members : List Member
  /-- Its edges. -/
  edges : List ScopeEdge
deriving Repr, DecidableEq, Inhabited

/-- The nodes an edge connects; absent when they are not declared. -/
structure Ends where
  /-- The node it leaves. -/
  source : Option Nat
  /-- The node it enters. -/
  target : Option Nat
deriving Repr, DecidableEq, Inhabited

/-- Which element lies in which cluster. -/
structure Containment (α : Type) where
  /-- The distinct nodes in the order of declaration. -/
  nodes : List (Node α)
  /-- The cluster each node lies in. -/
  nodeCluster : Array (Option Nat)
  /-- The distinct clusters in the order of declaration. -/
  clusters : List Cluster
  /-- The cluster each cluster lies in, without cycles. -/
  clusterParent : Array (Option Nat)
  /-- The nodes each edge connects. -/
  ends : List Ends

variable {α : Type}

/-- The distinct nodes. -/
def Model.distinctNodes (m : Model α) : List (Node α) := Declared.firsts Node.id m.nodes

/-- The distinct clusters. -/
def Model.distinctClusters (m : Model α) : List Cluster := Declared.firsts Cluster.id m.clusters

/-- The number of the cluster of a name. -/
def Model.clusterIndex? (m : Model α) (id : Ident) : Option Nat :=
  Declared.indexOf? Cluster.id m.distinctClusters id

/-- The clusters that clusters are declared to lie in, which may form cycles. -/
def Model.declaredParents (m : Model α) : Array (Option Nat) :=
  let clusters := m.distinctClusters
  (clusters.map fun c => c.parent.bind (Declared.indexOf? Cluster.id clusters)).toArray

namespace Containment

/-- Which element of a graph lies in which cluster. -/
def ofModel (m : Model α) : Containment α :=
  let nodes := m.distinctNodes
  let clusters := m.distinctClusters
  let nodeIndex? := Declared.indexOf? Node.id nodes
  { nodes := nodes
    nodeCluster := (nodes.map fun n => n.parent.bind
      (Declared.indexOf? Cluster.id clusters)).toArray
    clusters := clusters
    clusterParent := (Clusters.breakCycles m.declaredParents).1
    ends := m.edges.map fun e => ⟨nodeIndex? e.source, nodeIndex? e.target⟩ }

/-- How deeply clusters are nested. -/
def depth (c : Containment α) : Nat :=
  (List.range c.clusterParent.size).foldl (fun d i => max d (Clusters.depth c.clusterParent i)) 0

/-- The clusters around a node, from the innermost outward. -/
def chain (c : Containment α) (node : Nat) : List Nat :=
  Clusters.outward c.clusterParent (c.nodeCluster.getD node none)

/-! ### Members -/

/-- What members of a scope are ordered by: the first node they contain, a node before the clusters
around it; clusters without nodes come last. -/
structure Key where
  /-- Whether there is no node. -/
  empty : Bool
  /-- The first node. -/
  first : Nat
  /-- Zero for a node; clusters are counted from one. -/
  second : Nat
deriving Repr, DecidableEq

/-- Whether a key comes before another or is equal to it. -/
def Key.le (k l : Key) : Bool :=
  if k.empty != l.empty then l.empty
  else if k.first ≠ l.first then decide (k.first < l.first)
  else decide (k.second ≤ l.second)

/-- An element with the scope it belongs to and the key it is ordered by. -/
structure Entry where
  /-- What it is ordered by. -/
  key : Key
  /-- The cluster it lies in. -/
  container : Option Nat
  /-- The element. -/
  member : Member
deriving Repr, DecidableEq

/-- The key of a cluster, given the clusters around each node. -/
def clusterKey (chains : List (List Nat)) (cluster : Nat) : Key :=
  match chains.findIdx? (·.contains cluster) with
  | some node => ⟨false, node, 1 + cluster⟩
  | none => ⟨true, 0, cluster⟩

/-- All elements in the order in which scopes list them. -/
def entries (c : Containment α) : List Entry :=
  let chains := c.nodeCluster.toList.map (Clusters.outward c.clusterParent)
  let nodes := c.nodeCluster.toList.mapIdx fun i container => ⟨⟨false, i, 0⟩, container, .node i⟩
  let clusters := c.clusterParent.toList.mapIdx fun i container =>
    ⟨clusterKey chains i, container, .cluster i⟩
  (nodes ++ clusters).mergeSort fun a b => Key.le a.key b.key

/-! ### Edges -/

/-- An edge with the innermost scope around both ends and the members it connects there. -/
structure Lifted where
  /-- The number of the edge. -/
  edge : Nat
  /-- The cluster that is the innermost around both ends. -/
  container : Option Nat
  /-- The member that contains its start. -/
  source : Member
  /-- The member that contains its end. -/
  target : Member
deriving Repr, DecidableEq

/-- The member of a scope that a node is in: the node itself, or the outermost cluster around it. -/
def representative (c : Containment α) (container : Option Nat) (node : Nat) : Member :=
  if c.nodeCluster.getD node none = container then .node node
  else
    match (c.chain node).find? fun k => c.clusterParent.getD k none == container with
    | some k => .cluster k
    | none => .node node

/-- The innermost cluster around two nodes. -/
def common (c : Containment α) (source target : Nat) : Option Nat :=
  let around := c.chain target
  (c.chain source).find? around.contains

/-- The edges with both ends, each in its scope; edges are numbered from an index. -/
def liftFrom (c : Containment α) (index : Nat) : List Ends → List Lifted
  | [] => []
  | e :: rest =>
    match e.source, e.target with
    | some s, some t =>
      let container := c.common s t
      ⟨index, container, c.representative container s, c.representative container t⟩ ::
        liftFrom c (index + 1) rest
    | _, _ => liftFrom c (index + 1) rest

/-- A scope, given all elements and all lifted edges. -/
def scope (entries : List Entry) (lifted : List Lifted) (container : Option Nat) : Scope :=
  let members := (entries.filter fun e => e.container == container).map (·.member)
  { container := container
    members := members
    edges := (lifted.filter fun l => l.container == container).filterMap fun l =>
      match members.findIdx? (· == l.source), members.findIdx? (· == l.target) with
      | some s, some t => some ⟨l.edge, s, t⟩
      | _, _ => none }

/-- All scopes: the whole diagram first, then the interiors of the clusters in order. -/
def scopes (c : Containment α) : List Scope :=
  let entries := c.entries
  let lifted := c.liftFrom 0 c.ends
  scope entries lifted none ::
    (List.range c.clusterParent.size).map fun i => scope entries lifted (some i)

/-- The scopes in the order in which a depth-first walk from the whole diagram leaves them: each
before the one around it. -/
def order (c : Containment α) : List (Option Nat) :=
  Clusters.inwardFrom c.clusterParent c.clusterParent.size none

/-- The position of a scope among all scopes. -/
def scopeIndex : Option Nat → Nat
  | none => 0
  | some cluster => cluster + 1

/-- All scopes, each before the one around it. -/
def orderedScopes (c : Containment α) : List Scope :=
  let scopes := c.scopes.toArray
  c.order.filterMap fun container => scopes[scopeIndex container]?

/-! ### Faults -/

/-- The ends of edges that name no node; edges are numbered from an index. -/
def danglingFrom (nodes : List (Node α)) (index : Nat) : List Edge → List (Diagnostic α)
  | [] => []
  | e :: rest =>
    ([e.source, e.target].filter fun id => (Declared.indexOf? Node.id nodes id).isNone).map
        (.nodeNotFound index) ++
      danglingFrom nodes (index + 1) rest

/-- The faults of a graph: repeated nodes and clusters, clusters in unknown clusters, cycles, nodes
in unknown clusters, and ends of edges that name no node. -/
def diagnostics (m : Model α) : List (Diagnostic α) :=
  let nodes := m.distinctNodes
  let clusters := m.distinctClusters
  let unknown (parent : Ident) : Bool := (Declared.indexOf? Cluster.id clusters parent).isNone
  (Declared.repeats Node.id m.nodes).map (.duplicateNode ·.id) ++
    (Declared.repeats Cluster.id m.clusters).map (.duplicateCluster ·.id) ++
    clusters.flatMap (fun c =>
      (c.parent.toList.filter unknown).map (.clusterParentNotFound c.id)) ++
    (Clusters.breakCycles m.declaredParents).2.map (fun i =>
      .clusterCycle ((clusters[i]?.map (·.id)).getD "")) ++
    nodes.flatMap (fun n => (n.parent.toList.filter unknown).map (.nodeParentNotFound n.id)) ++
    danglingFrom nodes 0 m.edges

/-- Which element lies in which cluster; refused when clusters are nested too deeply. -/
def build (limit : Nat) (m : Model α) : Except (Failure α) (Containment α) :=
  let c := ofModel m
  if limit < c.depth then .error (.nestingLimit c.depth limit) else .ok c

end Containment

end Drafting.Graph
