/-
The reduction of an acyclic graph: the fewest edges with the same paths.

* `Digraph.descendants`: what can be reached from each node, found from the end
  of an order in which every edge goes forwards.
* `Digraph.reduction?`: drops every edge from whose source another successor
  leads to its target.
* `Digraph.Library`: what is asked of a library of graphs.  Here it is `order?`
  and `reduction?`, and it may as well be another order and another list of the
  same edges.
-/
import Propositional.Digraph

namespace Propositional.Digraph

variable {α : Type} [DecidableEq α]

/-- The nodes of an order with the nodes that can be reached from each by one
edge or more.  Of a node that is its successors, and what can be reached from
them. -/
def descendants (g : Digraph α) : List α → List (α × List α)
  | [] => []
  | u :: later =>
    let below := g.descendants later
    let next := g.successors u
    let reached := later.filter fun v =>
      next.contains v || below.any fun entry => next.contains entry.1 && entry.2.contains v
    (u, reached) :: below

/-- Whether a path of two edges or more leads from `u` to `v`. -/
def hasDetour (g : Digraph α) (below : List (α × List α)) (u v : α) : Bool :=
  (g.successors u).any fun w => (below.lookup w).any fun reached => reached.contains v

/-- The graph without the edges that a longer path replaces, if the graph has no
cycle. -/
def reduction? (g : Digraph α) : Option (Digraph α) :=
  g.order?.map fun order =>
    let below := g.descendants order
    { g with edges := g.edges.filter fun e => !g.hasDetour below e.1 e.2 }

/-- A library of graphs.  For a graph without a cycle it finds an order in which
every edge goes forwards, and the fewest edges with the same paths. -/
class Library (α : Type) where
  sort? : Digraph α → Option (List α)
  reduce? : Digraph α → Option (Digraph α)

instance : Library α := ⟨order?, reduction?⟩

end Propositional.Digraph
