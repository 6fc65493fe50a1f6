/-
A table as a grid of characters.

* `Table.grid`: a rule, the headers between bars, a rule, a line per row and a
  rule.  A truth value stands under the middle of its header.
-/
import Propositional.Table
import Propositional.Glyphs

namespace Propositional

/-- A run of spaces. -/
def spaces (n : Nat) : String := String.ofList (List.replicate n ' ')

/-- A glyph under the middle of a header of the given width, which is right of
the middle where the width is even. -/
def centred (width : Nat) (glyph : String) : String :=
  spaces (width / 2) ++ glyph ++ spaces (width - 1 - width / 2)

namespace Table

/-- The line of headers without its last bar. -/
def headerLine (t : Table) : String := String.join (t.headers.map fun header => "|" ++ header)

/-- The line between the parts of the grid. -/
def rule (t : Table) : String := String.ofList (List.replicate (t.headerLine.length + 1) '-')

/-- The line of a row. -/
def rowLine (t : Table) (g : Glyphs) (bits : List Bool) : String :=
  String.join ((t.columns.zip bits).map fun (c, b) => "|" ++ centred c.header.length (g.glyph b))
    ++ "|"

/-- The lines of the grid. -/
def gridLines (t : Table) (g : Glyphs) : Except Fault (List String) :=
  t.rowList.map fun rows =>
    [t.rule, t.headerLine ++ "|", t.rule] ++ rows.map (t.rowLine g) ++ [t.rule]

/-- The grid, each line ended by a line feed. -/
def grid (t : Table) (g : Glyphs) : Except Fault String :=
  (t.gridLines g).map fun lines => String.join (lines.map fun line => line ++ "\n")

end Table

end Propositional
