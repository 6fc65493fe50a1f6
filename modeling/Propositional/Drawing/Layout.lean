/-
Where the nodes of a graph are drawn.

* `Layout`: the layouts by name, and the decimal places that each keeps.
* `Point`: an exact place in the plane.
* `Point.units`: the coordinates rounded to decimal places.
* `Digraph.points?`: the places of all nodes.  A layout by forces settles
  nowhere in particular, so it has none; a graph with a cycle has no layers and
  is left to the forces too.
-/
import Propositional.Digraph.Layers
import Propositional.Digraph.Reduction
import Propositional.Decimal
import Propositional.Failure

namespace Propositional

/-- A way to draw a graph. -/
inductive Layout where
  | layers
  | circle
  | forces
  deriving DecidableEq, Repr

/-- The layout of a name. -/
def Layout.ofName (name : String) : Except Failure Layout :=
  if name = "hierarchical" then .ok .layers
  else if name = "circular" then .ok .circle
  else if name = "force" then .ok .forces
  else .error (.unknownLayout name)

/-- The decimal places of the coordinates. -/
def Layout.places : Layout → Nat
  | .circle => 3
  | _ => 6

/-- A place in the plane. -/
inductive Point where
  /-- Coordinates that are not negative. -/
  | exact (x y : Rat)
  /-- The part of a full turn on the circle about the origin. -/
  | onCircle (turn : Rat)
  deriving DecidableEq, Repr

namespace Point

/-- A coordinate on the circle in units of the last place. -/
def circleUnits (places : Nat) (coordinate : Float) : Int :=
  let units := (coordinate.abs * Float.ofNat (Nat.pow 10 places)).round.toUInt64.toNat
  if coordinate < 0 then -units else units

/-- The coordinates in units of the last decimal place. -/
def units (places : Nat) : Point → Int × Int
  | exact x y =>
    (Decimal.scaled places x.num.toNat x.den, Decimal.scaled places y.num.toNat y.den)
  | onCircle turn =>
    let angle := 2 * 3.141592653589793 * (Float.ofInt turn.num / Float.ofNat turn.den)
    (circleUnits places angle.cos, circleUnits places angle.sin)

end Point

namespace Digraph

variable {α : Type} [DecidableEq α]

/-- The places of nodes spread over the circle in the order of insertion.  A
single node is in the centre. -/
def circular (g : Digraph α) : List (α × Point) :=
  if g.nodes.length = 1 then g.nodes.map fun v => (v, .exact 0 0)
  else g.nodes.zipIdx.map fun (v, i) => (v, .onCircle ((i : Rat) / (g.nodes.length : Rat)))

/-- The places of the nodes, where the layout fixes them. -/
def points? [LE α] [DecidableLE α] [Library α] (g : Digraph α) :
    Layout → Option (List (α × Point))
  | .layers =>
    (Library.sort? g).map fun order => (g.layered order).map fun (v, x, y) => (v, .exact x y)
  | .circle => some g.circular
  | .forces => none

end Digraph

end Propositional
