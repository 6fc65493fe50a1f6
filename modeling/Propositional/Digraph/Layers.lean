/-
The layers of an acyclic graph: a node lies above everything that leads to it.

* `Digraph.levels`: the length of the longest path that ends at each node, found
  along an order in which every edge goes forwards.
* `Digraph.layered`: each level is a row of the unit square, spread evenly from
  left to right; the levels are spread evenly from bottom to top.
-/
import Propositional.Digraph

namespace Propositional.Digraph

variable {α : Type} [DecidableEq α]

/-- One more than the highest level of some nodes, and zero for none. -/
def levelAbove (levels : List (α × Nat)) (below : List α) : Nat :=
  below.foldl (fun level u => max level ((levels.lookup u).getD 0 + 1)) 0

/-- The nodes of an order with their levels, after those whose levels are
known. -/
def levelsAfter (g : Digraph α) : List (α × Nat) → List α → List (α × Nat)
  | known, [] => known
  | known, v :: rest =>
    g.levelsAfter (known ++ [(v, levelAbove known (g.predecessors v))]) rest

/-- The nodes of an order with their levels. -/
def levels (g : Digraph α) (order : List α) : List (α × Nat) := g.levelsAfter [] order

/-- The highest level. -/
def height (levels : List (α × Nat)) : Nat := levels.foldl (fun h entry => max h entry.2) 0

/-- The place of a node in the unit square, by its level and by how many nodes of
that level come before it.  A node alone on its level is in the middle. -/
def place [LE α] [DecidableLE α] (levels : List (α × Nat)) (v : α) (level : Nat) : Rat × Rat :=
  let row := (levels.filter fun entry => entry.2 = level).map Prod.fst
  let before := (row.filter fun u => u ≤ v ∧ u ≠ v).length
  let x : Rat := if row.length ≤ 1 then 1 / 2 else (before : Rat) / ((row.length - 1 : Nat) : Rat)
  let y : Rat := (level : Rat) / ((max (height levels) 1 : Nat) : Rat)
  (x, y)

/-- The places of the nodes, for an order in which every edge goes forwards. -/
def layered [LE α] [DecidableLE α] (g : Digraph α) (order : List α) : List (α × Rat × Rat) :=
  let levels := g.levels order
  levels.map fun (v, level) => (v, place levels v level)

end Propositional.Digraph
