/-
A table as comma-separated records.

* `Record.field`, `Record.line`: quotation marks enclose a field that holds a
  comma, a mark or a line break, and a field that is empty and alone; a mark
  inside is written twice.  Every record ends with a carriage return and a line
  feed.
* `Table.records`: the headers, then the rows.
-/
import Propositional.Table
import Propositional.Glyphs

namespace Propositional

namespace Record

/-- The characters that a field may not hold outside quotation marks. -/
def isSpecial (c : Char) : Bool := c == ',' || c == '\x22' || c == '\r' || c == '\n'

/-- A field between quotation marks. -/
def enclose (cs : List Char) : List Char :=
  '\x22' :: cs.flatMap (fun c => if c = '\x22' then ['\x22', '\x22'] else [c]) ++ ['\x22']

/-- A field of a record. -/
def field (cs : List Char) : List Char := if cs.any isSpecial then enclose cs else cs

/-- The characters of a record.  Marks keep a single empty field apart from a
record without fields. -/
def body : List (List Char) → List Char
  | [[]] => enclose []
  | fields => [','].intercalate (fields.map field)

/-- A record with its end. -/
def line (fields : List (List Char)) : List Char := body fields ++ ['\r', '\n']

/-- Records one after the other. -/
def lines (records : List (List (List Char))) : List Char := records.flatMap line

end Record

/-- The headers and the rows of a table as records. -/
def Table.records (t : Table) (g : Glyphs) : Except Fault String :=
  t.rowList.map fun rows =>
    let records := t.headers :: rows.map fun bits => bits.map g.glyph
    String.ofList (Record.lines (records.map fun record => record.map String.toList))

end Propositional
