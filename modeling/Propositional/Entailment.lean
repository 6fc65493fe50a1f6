/-
The columns of a table ordered by entailment.

* `Bits.entails`: every row where the first vector is true makes the second true.
* `EquivalenceClass`: columns with the same vector; `EquivalenceClass.ofColumns`
  lists the classes in the order of their first columns.
* `Entailment`: the classes, numbered from zero, with an edge from each to every
  other that it entails.
* `Entailment.reduction`: the same classes with the edges that no longer path
  replaces.
-/
import Propositional.Table
import Propositional.Digraph.Reduction

namespace Propositional

/-- Whether the second vector is true wherever the first is.  Only the rows that
both have count. -/
def Bits.entails (a b : Bits) : Bool := (a.zip b).all fun (p, q) => q || !p

/-- The columns of a table that have a vector in common. -/
structure EquivalenceClass where
  bits : Bits
  members : List Column
  deriving DecidableEq, Repr

namespace EquivalenceClass

/-- Adds a column to the class with its vector, or begins a class with it. -/
def insert (c : Column) : List EquivalenceClass → List EquivalenceClass
  | [] => [⟨c.bits, [c]⟩]
  | k :: rest =>
    if k.bits = c.bits then ⟨k.bits, k.members ++ [c]⟩ :: rest else k :: insert c rest

/-- The classes of some columns in the order of their first members. -/
def ofColumns (columns : List Column) : List EquivalenceClass :=
  columns.foldl (fun classes c => insert c classes) []

/-- The headers of the members, with the sign of equivalence between them. -/
def label (k : EquivalenceClass) : String := " ≡ ".intercalate (k.members.map Column.header)

end EquivalenceClass

/-- The classes of a table and the entailments between them. -/
structure Entailment where
  table : Table
  classes : List EquivalenceClass
  graph : Digraph Nat
  deriving DecidableEq, Repr

namespace Entailment

/-- Whether a class entails another one. -/
def related (classes : List EquivalenceClass) (i j : Nat) : Bool :=
  i != j &&
    match classes[i]?, classes[j]? with
    | some a, some b => Bits.entails a.bits b.bits
    | _, _ => false

/-- The entailments between the columns of a table. -/
def ofTable (t : Table) : Entailment :=
  let classes := EquivalenceClass.ofColumns t.columns
  { table := t
    classes
    graph := .ofRelation (List.range classes.length) (related classes) }

/-- The same classes, with the fewest edges that lead to the same classes. -/
def reduction [Digraph.Library Nat] (e : Entailment) : Except Failure Entailment :=
  match Digraph.Library.reduce? e.graph with
  | some graph => .ok { e with graph }
  | none => .error .cyclic

/-- What there is to say about the size of the order. -/
def summary (e : Entailment) : List String :=
  ["Building entailment poset...",
   "Poset built: " ++ toString e.classes.length ++ " nodes, "
     ++ toString e.graph.edges.length ++ " edges"]

end Entailment

end Propositional
