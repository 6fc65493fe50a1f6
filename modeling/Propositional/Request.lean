/-
A request with its names, and its evaluation.

* `Scope.enter`: the atoms of a proposition become simple propositions before
  its own name is reserved, so that a name inside its own definition is taken.
* `Draft.next`: reading and registering go hand in hand.  A name is checked as
  soon as its `=` is read, before the formula; a proposition is entered as soon
  as it ends, before anything is made of the token behind it.
* `Request.ofText`: the propositions of a text under checked names, or the first
  fault that this meets, of naming or of syntax.
* `Request.compounds`: what gets a column besides the simple propositions.  A
  named proposition always does; one without a name does unless its text is a
  name that is known.
* `Request.evaluate`: the vectors of all columns, each compound from those
  before it.
-/
import Propositional.Reading
import Propositional.Scope
import Propositional.Program

namespace Propositional

/-! ### Names -/

/-- A list of propositions whose names fit together. -/
structure Request where
  numeric : Bool
  propositions : List Proposition
  scope : Scope
  deriving DecidableEq, Repr

/-- Registers the atoms of a proposition, then its name. -/
def Scope.enter (s : Scope) (p : Proposition) : Except Rejection Scope :=
  let known := p.formula.atoms.foldl (fun s name => (s.addSimple name).2) s
  match p.label with
  | none => .ok known
  | some t => known.declare t

/-- A request in the making: how far it has been read, and the names known so
far. -/
structure Draft where
  state : State := {}
  scope : Scope := {}
  deriving DecidableEq, Repr

namespace Draft

/-- Checks the name in front of a token, if the token shows that it is one. -/
def checkName (d : Draft) (t : Token) : Except Rejection Unit :=
  match d.state.phase with
  | .word name => if t.kind = .assign then d.scope.check name else .ok ()
  | _ => .ok ()

/-- Ends the current proposition in front of a token and enters it. -/
def close (d : Draft) (t : Token) : Except Rejection Draft :=
  match d.state.phase.tree with
  | .error cause => .error ⟨cause, t⟩
  | .ok tree =>
    let p : Proposition := ⟨d.state.label, tree⟩
    (d.scope.enter p).map fun scope => ⟨{ read := d.state.read ++ [p] }, scope⟩

/-- Reads a token.  A token that cannot belong to the current proposition ends
it; only then does it matter whether it is a comma. -/
def next (numeric : Bool) (d : Draft) (t : Token) : Except Rejection Draft :=
  match d.state.accept numeric t with
  | some state => (d.checkName t).map fun _ => { d with state }
  | none =>
    match d.close t with
    | .error r => .error r
    | .ok d' => if t.kind = .comma then .ok d' else .error ⟨.endExpected, t⟩

/-- Reads tokens up to the end of the text, or up to the first fault. -/
def run (numeric : Bool) (d : Draft) (tokens : List Token) (eof : Token) :
    Except Rejection Draft :=
  match tokens with
  | [] => d.close eof
  | t :: rest =>
    match d.next numeric t with
    | .ok d' => d'.run numeric rest eof
    | .error r => .error r

end Draft

/-! ### Compounds -/

/-- A proposition that gets a column of its own. -/
structure Compound where
  name : String
  text : String
  formula : Formula
  anonymous : Bool
  deriving DecidableEq, Repr

/-- The header of the column: the text alone, or the definition of the name. -/
def Compound.header (c : Compound) : String :=
  if c.anonymous then c.text else c.name ++ " = " ++ c.text

/-- The name of the `k`-th compound without a name of its own.  No identifier
starts with this sign. -/
def anonymousName (k : Nat) : String := "$p" ++ toString k

/-- The compounds of a list of propositions, when `k` of them without a name came
before, and the names known after them. -/
def Compound.gather : List Proposition → Nat → Scope → List Compound × Scope
  | [], _, s => ([], s)
  | p :: rest, k, s =>
    let text := p.formula.text
    match p.name with
    | some name =>
      let (compounds, s') := gather rest k s
      (⟨name, text, p.formula, false⟩ :: compounds, s')
    | none =>
      if s.knows text then gather rest k s
      else
        let name := anonymousName k
        let (compounds, s') := gather rest (k + 1) (s.reserve name)
        (⟨name, text, p.formula, true⟩ :: compounds, s')

/-- The vector of a compound over the given number of rows. -/
def Compound.evaluate (c : Compound) (s : Scope) (rows : Nat) : Except Fault Bits :=
  let program := c.formula.compile
  (Array.range rows).mapM fun (row : Nat) => Program.evaluate (s.bit row) program

/-- The vectors of compounds, in order.  Each vector is known to those after. -/
def Compound.evaluateAll (rows : Nat) :
    List Compound → Scope → Except Fault (List (Compound × Bits))
  | [], _ => .ok []
  | c :: rest, s =>
    match c.evaluate s rows with
    | .error fault => .error fault
    | .ok bits => (evaluateAll rows rest (s.fill c.name bits)).map ((c, bits) :: ·)

/-! ### Requests -/

/-- The vectors of all propositions of a request. -/
structure Evaluation where
  rows : Nat
  simple : List (String × Bits)
  compounds : List (Compound × Bits)
  deriving DecidableEq, Repr

namespace Request

/-- Reads a request and registers its names. -/
def ofSource (numeric : Bool) (source : Source) : Except Rejection Request :=
  (({} : Draft).run numeric source.tokens source.eof).map fun d =>
    ⟨numeric, d.state.read, d.scope⟩

/-- Reads a request from a text. -/
def ofText (numeric : Bool) (text : String) : Except Rejection Request :=
  ofSource numeric (.ofText text)

/-- The number of rows of the table. -/
def rows (r : Request) : Nat := r.scope.rows

/-- The names with the vectors of the simple propositions. -/
def enumerated (r : Request) : Scope := r.scope.enumerate r.numeric

/-- The compounds in the order of the request, and all names with those of the
compounds without a name of their own. -/
def gathered (r : Request) : List Compound × Scope :=
  Compound.gather r.propositions 0 r.enumerated

/-- The propositions that get a column besides the simple ones. -/
def compounds (r : Request) : List Compound := r.gathered.1

/-- Evaluates every proposition in every row. -/
def evaluate (r : Request) : Except Fault Evaluation :=
  let (compounds, scope) := r.gathered
  match Compound.evaluateAll r.rows compounds scope with
  | .error fault => .error fault
  | .ok vectors =>
    .ok ⟨r.rows, Bits.enumerate r.numeric r.scope.sortedNames, vectors⟩

/-- What there is to say about the size of a request. -/
def summary (r : Request) : List String :=
  [toString r.scope.simple.length ++ " simple propositions, " ++ toString r.rows ++ " rows",
   toString r.compounds.length ++ " compound propositions"]

end Request

end Propositional
