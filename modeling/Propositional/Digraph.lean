/-
Finite directed graphs.

* `Digraph`: nodes and edges, each listed once in the order of insertion.
* `Digraph.ofLists`, `Digraph.ofRelation`: graphs from listed edges and from a
  relation between the nodes.
* `Digraph.successors`, `Digraph.predecessors`: the neighbours of a node.
* `Digraph.order?`: the nodes in an order in which every edge goes forwards,
  which there is just when the graph has no cycle.
-/

namespace Propositional

/-- A finite directed graph. -/
structure Digraph (α : Type) where
  nodes : List α := []
  edges : List (α × α) := []
  deriving DecidableEq, Repr

namespace Digraph

variable {α : Type} [DecidableEq α]

/-! ### Building a graph -/

/-- Adds a node unless it is there. -/
def addNode (g : Digraph α) (v : α) : Digraph α :=
  if v ∈ g.nodes then g else { g with nodes := g.nodes ++ [v] }

/-- Adds an edge and those of its ends that are missing. -/
def addEdge (g : Digraph α) (e : α × α) : Digraph α :=
  let g := (g.addNode e.1).addNode e.2
  if e ∈ g.edges then g else { g with edges := g.edges ++ [e] }

/-- The graph with the listed nodes, then the listed edges. -/
def ofLists (nodes : List α) (edges : List (α × α)) : Digraph α :=
  edges.foldl addEdge (nodes.foldl addNode {})

/-- The graph of a relation on some nodes. -/
def ofRelation (nodes : List α) (r : α → α → Bool) : Digraph α where
  nodes := nodes
  edges := nodes.flatMap fun u => (nodes.filter (r u)).map fun v => (u, v)

omit [DecidableEq α] in
theorem mem_edges_ofRelation {nodes : List α} {r : α → α → Bool} {u v : α} :
    (u, v) ∈ (ofRelation nodes r).edges ↔ u ∈ nodes ∧ v ∈ nodes ∧ r u v := by
  simp only [ofRelation, List.mem_flatMap, List.mem_map, List.mem_filter, Prod.mk.injEq]
  grind

/-! ### Neighbours -/

/-- The targets of the edges from a node. -/
def successors (g : Digraph α) (u : α) : List α :=
  (g.edges.filter fun e => e.1 = u).map Prod.snd

/-- The sources of the edges to a node. -/
def predecessors (g : Digraph α) (v : α) : List α :=
  (g.edges.filter fun e => e.2 = v).map Prod.fst

theorem mem_successors {g : Digraph α} {u v : α} : v ∈ g.successors u ↔ (u, v) ∈ g.edges := by
  simp [successors]

theorem mem_predecessors {g : Digraph α} {u v : α} :
    u ∈ g.predecessors v ↔ (u, v) ∈ g.edges := by
  simp [predecessors]

/-! ### The order of an acyclic graph -/

/-- Takes nodes that no remaining edge points to, one by one, until none is left.
The steps are counted down; each takes one node. -/
def peel : Nat → List α → List (α × α) → Option (List α)
  | _, [], _ => some []
  | 0, _ :: _, _ => none
  | steps + 1, nodes, edges =>
    match nodes.find? fun v => edges.all fun e => e.2 ≠ v with
    | none => none
    | some v =>
      (peel steps (nodes.erase v) (edges.filter fun e => e.1 ≠ v)).map (v :: ·)

/-- The nodes in an order in which every edge goes forwards, if there is one. -/
def order? (g : Digraph α) : Option (List α) := peel g.nodes.length g.nodes g.edges

end Digraph

end Propositional
