/-
What is shown when the pointer rests on a class.

* `Entailment.hover`: the headers of the members, their common vector, a word on
  constant vectors, and how many classes lead to this one and from it.
-/
import Propositional.Entailment
import Propositional.Glyphs

namespace Propositional

/-- A word on a vector that is constant.  The empty vector counts as true. -/
def constancy (bits : Bits) : List String :=
  if bits.all (·) then ["✓ Tautology"]
  else if !bits.any (·) then ["✓ Contradiction"]
  else []

namespace Entailment

/-- The lines that are shown for a class. -/
def hoverLines (e : Entailment) (g : Glyphs) (node : Nat) (k : EquivalenceClass) : List String :=
  k.members.map (fun c => "<b>" ++ c.header ++ "</b>")
    ++ ["", "Values: " ++ String.join (k.bits.toList.map g.glyph)]
    ++ constancy k.bits
    ++ ["", "Entailed by: " ++ toString (e.graph.predecessors node).length,
        "Entails: " ++ toString (e.graph.successors node).length]

/-- The texts that are shown for the classes. -/
def hover (e : Entailment) (g : Glyphs) : List String :=
  e.classes.zipIdx.map fun (k, node) => "<br>".intercalate (e.hoverLines g node k)

end Entailment

end Propositional
