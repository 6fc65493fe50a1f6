/-
An interactive panel: a text box, two options, a table and a diagram of its
entailments.

* `Session.present`: what the panel shows for a text under its options.  A blank
  text does not reach the session.
* `Panel`: the parts of the page, and what they hold at first and after each
  change.
-/
import Propositional.Drawing.Figures
import Propositional.Session
import Propositional.Text.Category

namespace Propositional

/-- What the panel shows. -/
structure Display where
  table : Picture TableFigure
  graph : Picture GraphFigure
  status : String
  errorLine : String
  deriving DecidableEq, Repr

namespace Display

/-- The display while there is no text. -/
def prompt : Display := ⟨.blank "Enter a proposition", .blank "", "", ""⟩

/-- The display of a rejected request. -/
def rejection (r : Rejection) : Display where
  table := .blank ""
  graph := .blank ""
  status := ""
  errorLine := "Error: " ++ r.message ++ " at line " ++ toString r.token.start.line
    ++ ", column " ++ toString r.token.start.column

/-- The size of a table and its tautologies. -/
def statusOf (t : Table) : String :=
  let size := toString t.columns.length ++ " columns, " ++ toString t.rows ++ " rows"
  match t.tautologies with
  | [] => size
  | columns => size ++ " | tautologies: " ++ ", ".intercalate (columns.map Column.header)

/-- The display of a table: its figure, and the reduced diagram of its
entailments. -/
def ofTable [Digraph.Library Nat] (t : Table) (g : Glyphs) : Except Failure Display :=
  (Entailment.ofTable t).reduction.map fun e =>
    { table := .drawn (.ofTable t g none)
      graph := .drawn (.ofEntailment e .layers g none)
      status := statusOf t
      errorLine := "" }

/-- The display of an answer. -/
def ofAnswer [Digraph.Library Nat] (a : Answer) : Except Failure Display :=
  match a.outcome with
  | .ok t => ofTable t a.glyphs
  | .error r => .ok (.rejection r)

end Display

/-- Whether a text holds nothing but white space. -/
def isBlankText (text : String) : Bool := text.toList.all Text.isBlank

/-- What the panel shows for a text under its options, and the session after
it. -/
def Session.present [Digraph.Library Nat] (s : Session) (text : Option String)
    (numeric ordered : Setting) : Except Failure Display × Session :=
  match text with
  | none => (.ok .prompt, s)
  | some text =>
    if isBlankText text then (.ok .prompt, s)
    else
      match ((s.setMode numeric.truthy).setOrdered ordered.truthy).compute text with
      | (.error f, s') => (.error (.fault f), s')
      | (.ok answer, s') => (Display.ofAnswer answer, s')

namespace Panel

/-- The text that the panel starts with. -/
def defaultExpression : String := "A = p v q, B = p ^ q, A v ¬B"

/-- The parts of the page. -/
def ids : List String :=
  ["table-graph", "entailment-graph", "status-msg", "error-msg", "expression-input", "options"]

/-- What a change of the display depends on. -/
def inputs : List String := ["expression-input.value", "options.value"]

/-- The options with their descriptions. -/
def choices : List (String × String) :=
  [("numeric", " Numeric values (0/1)"), ("ordered", " Enumeration order")]

/-- The options that are chosen at first. -/
def chosen : List String := ["numeric", "ordered"]

/-- What the panel shows at first. -/
def initial [Digraph.Library Nat] (s : Session) (text : Option String) :
    Except Failure Display × Session :=
  s.present text (.bool true) (.bool true)

/-- What the panel shows after a change of the text or of the chosen options. -/
def update [Digraph.Library Nat] (s : Session) (text : Option String) (options : List String) :
    Except Failure Display × Session :=
  s.present text (.bool (options.contains "numeric")) (.bool (options.contains "ordered"))

end Panel

end Propositional
