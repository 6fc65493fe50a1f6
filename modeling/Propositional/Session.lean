/-
A session: requests under options that last, with a memory of the last ones.

* `Session`: the options, the row count of the last table and the rejection of
  the last request.
* `Answer`: a table with the glyphs in force, or the rejection of the request.
* `Session.compute`: the answer to a request, and the session after it.
* `Session.Command`, `Session.perform`: everything that a session can be asked
  for.  The mode and its glyphs change together, or not at all.
-/
import Propositional.Drawing.Grid
import Propositional.Setting

namespace Propositional

/-! ### Answers -/

/-- The answer to a request, and the lines that a verbose session prints.  An
answer without a table has the glyphs of numbers. -/
structure Answer where
  outcome : Except Rejection Table
  glyphs : Glyphs := {}
  log : List String := []

namespace Answer

/-- Whether there is a table. -/
def isOk (a : Answer) : Bool := a.outcome.isOk

/-- The table, if there is one. -/
def table (a : Answer) : Option Table := a.outcome.toOption

/-- The text of the rejection. -/
def errorText (a : Answer) : Option String :=
  match a.outcome with
  | .ok _ => none
  | .error r => some r.text

/-- The answer in one line. -/
def outline (a : Answer) : String :=
  match a.outcome with
  | .ok t =>
    "TableResult(" ++ toString t.columns.length ++ " columns, " ++ toString t.rows ++ " rows)"
  | .error r => "TableResult(error=" ++ r.text ++ ")"

/-- The table as a grid, which is empty for a rejected request. -/
def grid (a : Answer) : Except Fault String :=
  match a.outcome with
  | .ok t => t.grid a.glyphs
  | .error _ => .ok ""

end Answer

/-! ### Sessions -/

/-- The options in force and what is remembered of earlier requests. -/
structure Session where
  locale : String
  numeric : Bool
  glyphs : Glyphs
  /-- Whether the rows are in order.  A value that was given for this option is
  read as a truth value at each request; since that of a `Setting` is fixed, it
  is kept in its place. -/
  ordered : Bool
  /-- Whether progress is told, kept in the same way. -/
  verbose : Bool
  lastError : Option Rejection := none
  rowCount : Nat := 0
  deriving DecidableEq, Repr

namespace Session

/-- A new session. -/
def new (numeric ordered verbose : Bool) (locale : String) : Session :=
  { locale, numeric, glyphs := .forMode numeric locale, ordered, verbose }

/-- A new session under any options, of which the mode has to be a truth value. -/
def start (numeric ordered verbose : Setting) (locale : String) : Except Failure Session :=
  numeric.bool?.map fun numeric => new numeric ordered.truthy verbose.truthy locale

/-- Chooses numbers or letters, with the glyphs that go with them. -/
def setMode (s : Session) (numeric : Bool) : Session :=
  { s with numeric, glyphs := .forMode numeric s.locale }

/-- Chooses numbers or letters by a value that has to be a truth value. -/
def setNumeric (s : Session) (v : Setting) : Except Failure Session := v.bool?.map s.setMode

/-- Chooses the order of the rows. -/
def setOrdered (s : Session) (ordered : Bool) : Session := { s with ordered }

/-- Chooses whether progress is told. -/
def setVerbose (s : Session) (verbose : Bool) : Session := { s with verbose }

/-- Lines that only a verbose session prints. -/
def tell (s : Session) (lines : List String) : List String := if s.verbose then lines else []

/-- Answers a request. -/
def compute (s : Session) (text : String) : Except Fault Answer × Session :=
  match Request.ofText s.numeric text with
  | .error r =>
    (.ok { outcome := .error r, log := s.tell ["Syntax error: " ++ r.text] },
     { s with lastError := some r })
  | .ok request =>
    match request.table s.ordered with
    | .error f => (.error f, { s with lastError := none })
    | .ok table =>
      (.ok { outcome := .ok table, glyphs := s.glyphs, log := s.tell request.summary },
       { s with lastError := none, rowCount := table.rows })

end Session

/-! ### Commands -/

/-- What a session can be asked for. -/
inductive Session.Command where
  /-- The whole answer to a request. -/
  | compute (text : String)
  /-- The table alone. -/
  | table (text : String)
  /-- The table as a grid. -/
  | grid (text : String)
  | setNumeric (v : Setting)
  | setOrdered (v : Setting)
  | setVerbose (v : Setting)
  deriving DecidableEq, Repr

/-- What a session gives back. -/
inductive Session.Reply where
  | answer (a : Answer)
  | table (t : Option Table)
  | grid (text : String)
  | done

/-- A reply with the lines that a verbose session prints. -/
structure Session.Outcome where
  reply : Except Failure Session.Reply
  log : List String := []

namespace Session

/-- Answers a request, of which `view` is asked for. -/
def request (s : Session) (text : String) (view : Answer → Except Fault Reply) :
    Outcome × Session :=
  match s.compute text with
  | (.error f, s') => ({ reply := .error (.fault f) }, s')
  | (.ok a, s') =>
    match view a with
    | .error f => ({ reply := .error (.fault f), log := a.log }, s')
    | .ok reply => ({ reply := .ok reply, log := a.log }, s')

/-- Carries out a command. -/
def perform (s : Session) : Command → Outcome × Session
  | .compute text => s.request text fun a => .ok (.answer a)
  | .table text => s.request text fun a => .ok (.table a.table)
  | .grid text => s.request text fun a => a.grid.map .grid
  | .setNumeric v =>
    match s.setNumeric v with
    | .ok s' => ({ reply := .ok .done }, s')
    | .error f => ({ reply := .error f }, s)
  | .setOrdered v => ({ reply := .ok .done }, s.setOrdered v.truthy)
  | .setVerbose v => ({ reply := .ok .done }, s.setVerbose v.truthy)

end Session

end Propositional
