/-
Reading a request from left to right, one token at a time.

A request lists propositions between commas.  While a formula is read, a stack
holds what surrounds the operand at hand: the negations, left operands and open
brackets that still wait for it, the innermost on top.

* `Frame`, `Phase`, `State`: what has been read so far.
* `Frame.reduce`: completes what binds at least as tightly as the connective to
  come, so that equal connectives group to the left.
* `State.next`: one token on, or the end of the reading.
* `Reading`: the propositions read to their end, the name of an unfinished one,
  and the reason why the reading stopped short.
-/
import Propositional.Formula
import Propositional.Rejection
import Propositional.Token.Source

namespace Propositional

/-! ### Within a formula -/

/-- Something that waits for the operand that is being read. -/
inductive Frame where
  | negation
  | left (c : Connective) (operand : Tree)
  | opened (b : Bracket)
  deriving DecidableEq, Repr

/-- Completes the negations and compounds on top of a stack, as far as they bind
at least as tightly as the given rank.  An open bracket ends it. -/
def Frame.reduce (rank : Nat) : List Frame → Tree → List Frame × Tree
  | .negation :: rest, f => reduce rank rest (.neg f)
  | .left c l :: rest, f =>
    if rank ≤ c.rank then reduce rank rest (.binary c l f) else (.left c l :: rest, f)
  | stack, f => (stack, f)

/-- How far the current proposition has been read. -/
inductive Phase where
  /-- Nothing of it. -/
  | start
  /-- A single identifier, which is an atom or the name of what follows. -/
  | word (t : Token)
  /-- An operand has to come. -/
  | awaiting (stack : List Frame)
  /-- An operand is complete. -/
  | complete (stack : List Frame) (operand : Tree)
  deriving DecidableEq, Repr

/-- The connective that a token is where a formula may go on.  The name `v` is a
disjunction there. -/
def Token.connective? (t : Token) : Option Connective :=
  match t.kind with
  | .binary c => some c
  | .ident => if t.lexeme = "v" then some .or else none
  | _ => none

/-- Whether a number is a constant: only `0` and `1`, and only where numbers
stand for truth values. -/
def Token.isDigitConstant (numeric : Bool) (t : Token) : Bool :=
  numeric && (t.lexeme == "0" || t.lexeme == "1")

namespace Phase

/-- Reads a token where an operand has to start. -/
def operand (numeric : Bool) (stack : List Frame) (t : Token) : Option Phase :=
  match t.kind with
  | .ident | .top | .bottom => some (.complete stack (.atom t))
  | .number =>
    if t.isDigitConstant numeric then some (.complete stack (.atom t)) else none
  | .negation => some (.awaiting (.negation :: stack))
  | .opening b => some (.awaiting (.opened b :: stack))
  | _ => none

/-- Reads a token that goes on with a formula whose last operand is complete. -/
def continuation (stack : List Frame) (f : Tree) (t : Token) : Option Phase :=
  match t.connective? with
  | some c =>
    let (rest, l) := Frame.reduce c.rank stack f
    some (.awaiting (.left c l :: rest))
  | none =>
    match t.kind, Frame.reduce 0 stack f with
    | .closing b, (.opened b' :: rest, g) =>
      if b = b' then some (.complete rest (.group b g)) else none
    | _, _ => none

/-- The tree of the formula that ends here, if one does; else what is missing. -/
def tree : Phase → Except Rejection.Cause Tree
  | .start | .awaiting _ => .error .operandExpected
  | .word t => .ok (.atom t)
  | .complete stack f =>
    match Frame.reduce 0 stack f with
    | (.opened b :: _, _) => .error (.closerExpected b)
    | (_, g) => .ok g

end Phase

/-! ### Within a request -/

/-- A request read in part: the propositions before the current one, and the
name and the phase of that one. -/
structure State where
  read : List Proposition := []
  label : Option Token := none
  phase : Phase := .start
  deriving DecidableEq, Repr

/-- How far a request could be read. -/
structure Reading where
  /-- The propositions that were read to their end. -/
  propositions : List Proposition
  /-- The name of a proposition that was begun and not read to its end. -/
  pending : Option Token
  /-- Why the request was not read to its end. -/
  fault : Option Rejection
  deriving DecidableEq, Repr

namespace State

/-- Reads a token that belongs to the current proposition, if it can. -/
def accept (numeric : Bool) (s : State) (t : Token) : Option State :=
  match s.phase with
  | .start =>
    if t.kind = .ident then some { s with phase := .word t }
    else (Phase.operand numeric [] t).map fun phase => { s with phase }
  | .word name =>
    if t.kind = .assign then some { s with label := some name, phase := .awaiting [] }
    else (Phase.continuation [] (.atom name) t).map fun phase => { s with phase }
  | .awaiting stack => (Phase.operand numeric stack t).map fun phase => { s with phase }
  | .complete stack f => (Phase.continuation stack f t).map fun phase => { s with phase }

/-- Ends the current proposition in front of a token. -/
def close (s : State) (t : Token) : Except Rejection (List Proposition) :=
  match s.phase.tree with
  | .ok tree => .ok (s.read ++ [⟨s.label, tree⟩])
  | .error cause => .error ⟨cause, t⟩

/-- Reads a token.  A token that cannot belong to the current proposition ends
it; a comma then begins the next one, and anything else ends the reading. -/
def next (numeric : Bool) (s : State) (t : Token) : Except Reading State :=
  match s.accept numeric t with
  | some s' => .ok s'
  | none =>
    match s.close t with
    | .error r => .error ⟨s.read, s.label, some r⟩
    | .ok read =>
      if t.kind = .comma then .ok { read } else .error ⟨read, none, some ⟨.endExpected, t⟩⟩

/-- Ends the reading at the end of the text. -/
def conclude (s : State) (eof : Token) : Reading :=
  match s.close eof with
  | .error r => ⟨s.read, s.label, some r⟩
  | .ok read => ⟨read, none, none⟩

/-- Reads tokens up to the end of the text, or up to the first that does not
fit. -/
def run (numeric : Bool) (s : State) (tokens : List Token) (eof : Token) : Reading :=
  match tokens with
  | [] => s.conclude eof
  | t :: rest =>
    match s.next numeric t with
    | .ok s' => s'.run numeric rest eof
    | .error reading => reading

end State

namespace Reading

/-- Reads a request.  In numeric mode `0` and `1` are atoms. -/
def ofSource (numeric : Bool) (source : Source) : Reading :=
  ({} : State).run numeric source.tokens source.eof

/-- The propositions of a request that was read to its end. -/
def result (r : Reading) : Except Rejection (List Proposition) :=
  match r.fault with
  | some rejection => .error rejection
  | none => .ok r.propositions

end Reading

/-- The propositions of a text, their names unchecked. -/
def Proposition.parse (numeric : Bool) (text : String) : Except Rejection (List Proposition) :=
  (Reading.ofSource numeric (.ofText text)).result

end Propositional
