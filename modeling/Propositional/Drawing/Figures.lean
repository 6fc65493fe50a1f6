/-
The figures of a table and of its entailments.

* `TableFigure`: headers, cells and their colours, with the styling that all
  such figures share.
* `GraphFigure`: a marker per class, larger for more members and greener for
  more true rows, and a segment per edge, at the places of a layout.
* `Picture`: a figure, or a blank space with a message.
-/
import Propositional.Drawing.Hover
import Propositional.Drawing.Layout

namespace Propositional

/-! ### Tables -/

/-- Space around a figure. -/
structure Margin where
  bottom : Nat
  left : Nat
  right : Nat
  top : Nat
  deriving DecidableEq, Repr

/-- A title, or the default where none is given. -/
def titleOr (default : String) (title : Option String) : String :=
  match title with
  | some text => if text = "" then default else text
  | none => default

/-- A table as it is drawn. -/
structure TableFigure where
  title : String
  header : List String
  cells : List (List String)
  colours : List (List String)
  deriving DecidableEq, Repr

namespace TableFigure

/-- What does not depend on the table. -/
structure Style where
  titleSize : Nat := 16
  margin : Margin := ⟨10, 5, 5, 40⟩
  headerFill : String := "#e9ecef"
  headerSize : Nat := 13
  headerAlign : String := "center"
  cellsAlign : String := "center"
  cellsFont : String := "monospace"
  cellsSize : Nat := 12

/-- The styling of every table. -/
def style : Style := {}

/-- The background of a truth value. -/
def colour (b : Bool) : String := if b then "#d4edda" else "#f8d7da"

/-- The figure of a table. -/
def ofTable (t : Table) (g : Glyphs) (title : Option String) : TableFigure where
  title := titleOr ("Truth table (" ++ toString t.rows ++ " rows)") title
  header := t.headers
  cells := t.columns.map fun c => c.bits.toList.map g.glyph
  colours := t.columns.map fun c => c.bits.toList.map colour

end TableFigure

/-! ### Entailments -/

/-- A drawing of the entailments of a table.  A layout that does not fix the
places leaves out the markers' places and the segments. -/
structure GraphFigure where
  title : String
  edgeCount : Nat
  labels : List String
  hover : List String
  sizes : List Nat
  shades : List Rat
  places : Nat
  nodes : Option (List Point)
  segments : Option (List (Point × Point))
  deriving DecidableEq, Repr

namespace GraphFigure

/-- The share of rows in which a vector is true. -/
def shade (bits : Bits) : Rat :=
  if bits.size = 0 then 0 else (bits.count true : Rat) / (bits.size : Rat)

/-- The size of the marker of a class. -/
def size (k : EquivalenceClass) : Nat := 12 + 2 * k.members.length

/-- The ends of an edge, where both have a place. -/
def segment (points : List (Nat × Point)) (edge : Nat × Nat) : Option (Point × Point) :=
  match points.lookup edge.1, points.lookup edge.2 with
  | some p, some q => some (p, q)
  | _, _ => none

/-- The drawing of entailments in a layout. -/
def ofEntailment [Digraph.Library Nat] (e : Entailment) (layout : Layout) (g : Glyphs)
    (title : Option String) : GraphFigure :=
  let points := e.graph.points? layout
  { title := titleOr ("Entailment (" ++ toString e.classes.length ++ " classes)") title
    edgeCount := e.graph.edges.length
    labels := e.classes.map EquivalenceClass.label
    hover := e.hover g
    sizes := e.classes.map size
    shades := e.classes.map fun k => shade k.bits
    places := layout.places
    nodes := points.map fun points => e.graph.nodes.filterMap fun node => points.lookup node
    segments := points.map fun points => e.graph.edges.filterMap (segment points) }

end GraphFigure

/-! ### Pictures -/

/-- A figure, or a blank space with a message, which may be empty. -/
inductive Picture (α : Type) where
  | blank (message : String)
  | drawn (figure : α)
  deriving DecidableEq, Repr

namespace Picture

/-- The space around a blank picture. -/
def blankMargin : Margin := ⟨10, 5, 5, 10⟩

/-- The background of a blank picture. -/
def blankBackground : String := "white"

/-- What is written in a blank space. -/
def annotations (message : String) : List String := if message = "" then [] else [message]

end Picture

end Propositional
