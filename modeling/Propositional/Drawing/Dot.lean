/-
The entailments of a table in the DOT language of graph drawing.

* `Entailment.dotLines`: a line per class and a line per edge between the head
  and the end of a graph that grows from the bottom to the top.
-/
import Propositional.Entailment

namespace Propositional.Entailment

/-- The line of a class: its number and its label. -/
def nodeLine (node : Nat) (k : EquivalenceClass) : String :=
  "  n" ++ toString node ++ " [label=\"" ++ k.label ++ "\"];"

/-- The line of an edge. -/
def edgeLine (edge : Nat × Nat) : String :=
  "  n" ++ toString edge.1 ++ " -> n" ++ toString edge.2 ++ ";"

/-- The lines of the graph. -/
def dotLines (e : Entailment) : List String :=
  ["digraph G \x7b", "  rankdir = BT;"]
    ++ e.classes.zipIdx.map (fun (k, node) => nodeLine node k)
    ++ e.graph.edges.map edgeLine
    ++ ["\x7d"]

/-- The text of the graph. -/
def dot (e : Entailment) : String := "\n".intercalate e.dotLines

end Propositional.Entailment
