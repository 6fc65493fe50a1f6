/-
Truth tables.

* `Column`: a proposition with its header and its vector.
* `Table`: columns and a number of rows.  Tables are also built by hand, so the
  vectors need not have that length.
* `Table.column`, `Table.columnAt`, `Table.row`, `Table.rowList`,
  `Table.byHeader`: what a table holds, by name, by place, by row and by header.
* `Request.table`, `Table.ofText`: the table of a request, the simple
  propositions first.
-/
import Propositional.Failure
import Propositional.Request

namespace Propositional

/-! ### Columns -/

/-- Where a column comes from. -/
inductive Column.Kind where
  | simple
  | named
  | anonymous
  deriving DecidableEq, Repr

/-- A column of a table. -/
structure Column where
  name : String
  header : String
  bits : Bits
  kind : Column.Kind := .simple
  deriving DecidableEq, Repr

namespace Column

/-- Whether the column is true in every row. -/
def isTautology (c : Column) : Bool := c.bits.all (·)

/-- Whether the column is true in no row. -/
def isContradiction (c : Column) : Bool := !c.bits.any (·)

/-- Columns that agree in name, header and vector, wherever they come from. -/
def agrees (c d : Column) : Bool := c.name == d.name && c.header == d.header && c.bits == d.bits

end Column

/-! ### Tables -/

/-- A truth table.  The rows are in the order of the enumeration, or in the
reverse one. -/
structure Table where
  columns : List Column
  rows : Nat
  numeric : Bool := true
  ordered : Bool := true
  deriving DecidableEq, Repr

namespace Table

/-- Tables with the same number of rows whose columns agree one by one. -/
def agrees (t u : Table) : Bool :=
  t.rows == u.rows && t.columns.length == u.columns.length
    && (t.columns.zip u.columns).all fun (c, d) => c.agrees d

/-- The first column with the given name or header. -/
def column (t : Table) (name : String) : Except Fault Column :=
  match t.columns.find? fun c => c.name == name || c.header == name with
  | some c => .ok c
  | none => .error (.unknownName name)

/-- The column at a place, counted from the end where the index is negative. -/
def columnAt (t : Table) (i : Int) : Except Fault Column :=
  match (signedIndex t.columns.length i).bind (t.columns[·]?) with
  | some c => .ok c
  | none => .error .outOfRange

/-- The headers of the columns. -/
def headers (t : Table) : List String := t.columns.map Column.header

/-- The truth values of a row, which counts from the end of each vector where the
index is negative. -/
def row (t : Table) (i : Int) : Except Fault (List Bool) :=
  t.columns.mapM fun c =>
    match (signedIndex c.bits.size i).bind (c.bits[·]?) with
    | some b => .ok b
    | none => .error .outOfRange

/-- All rows in order. -/
def rowList (t : Table) : Except Fault (List (List Bool)) :=
  (List.range t.rows).mapM fun (i : Nat) => t.row i

/-- The vectors by header.  Where a header occurs again, its first place and its
last vector count. -/
def byHeader (t : Table) : List (String × Bits) :=
  t.columns.foldl (fun vectors c => put c.header c.bits vectors) []
where
  /-- Replaces the vector of a header, or adds it at the end. -/
  put (header : String) (bits : Bits) : List (String × Bits) → List (String × Bits)
    | [] => [(header, bits)]
    | entry :: rest =>
      if entry.1 = header then (header, bits) :: rest else entry :: put header bits rest

/-- The columns that are true in every row. -/
def tautologies (t : Table) : List Column := t.columns.filter Column.isTautology

/-- The columns that are true in no row. -/
def contradictions (t : Table) : List Column := t.columns.filter Column.isContradiction

end Table

/-! ### The table of a request -/

/-- The table of evaluated propositions: the simple ones by name, then the
compounds in the order of the request. -/
def Evaluation.table (e : Evaluation) (numeric ordered : Bool) : Table :=
  let arrange (bits : Bits) : Bits := if ordered then bits else bits.reverse
  { columns :=
      (e.simple.map fun (name, bits) => ⟨name, name, arrange bits, .simple⟩) ++
      (e.compounds.map fun (c, bits) =>
        ⟨c.name, c.header, arrange bits, if c.anonymous then .anonymous else .named⟩)
    rows := e.rows
    numeric
    ordered }

/-- The table of a request. -/
def Request.table (r : Request) (ordered : Bool) : Except Fault Table :=
  r.evaluate.map fun e => e.table r.numeric ordered

/-- The table of the request in a text. -/
def Table.ofText (numeric ordered : Bool) (text : String) : Except Failure Table :=
  match Request.ofText numeric text with
  | .error r => .error (.rejected r)
  | .ok request =>
    match request.table ordered with
    | .error f => .error (.fault f)
    | .ok table => .ok table

end Propositional
