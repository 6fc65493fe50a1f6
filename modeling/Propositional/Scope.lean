/-
The names of a request and their truth vectors.

* `Scope`: the simple and the compound propositions, each in the order of their
  first mention.  A vector is there once the name has been evaluated.
* `Scope.addSimple`: registers an atom unless its name is known.
* `Scope.check`, `Scope.declare`: whether a name is free to be defined, and its
  reservation.
* `Scope.enumerate`: gives the simple propositions their vectors.
* `Scope.bit`: the truth value of a name in a row; a simple proposition comes
  before a compound one of the same name.
-/
import Propositional.Enumeration
import Propositional.Fault
import Propositional.Rejection

namespace Propositional

/-- The names of a request, with the vectors of those that were evaluated. -/
structure Scope where
  simple : List (String × Option Bits) := []
  compound : List (String × Option Bits) := []
  deriving DecidableEq, Repr

namespace Scope

/-- Whether a name is that of a simple proposition. -/
def isSimple (s : Scope) (name : String) : Bool := (s.simple.map Prod.fst).contains name

/-- Whether a name is that of a compound proposition. -/
def isCompound (s : Scope) (name : String) : Bool := (s.compound.map Prod.fst).contains name

/-- Whether a name is known at all. -/
def knows (s : Scope) (name : String) : Bool := s.isSimple name || s.isCompound name

/-- Registers the name of an atom unless it is known, and says whether it was
new. -/
def addSimple (s : Scope) (name : String) : Bool × Scope :=
  if s.knows name then (false, s) else (true, { s with simple := s.simple ++ [(name, none)] })

/-- Checks that the name in a token is free to be defined. -/
def check (s : Scope) (t : Token) : Except Rejection Unit :=
  if s.isCompound t.lexeme then .error ⟨.alreadyDefined t.lexeme, t⟩
  else if s.isSimple t.lexeme then .error ⟨.alreadySimple t.lexeme, t⟩
  else .ok ()

/-- Reserves a name for a compound proposition. -/
def reserve (s : Scope) (name : String) : Scope :=
  { s with compound := s.compound ++ [(name, none)] }

/-- Reserves the name in a token if it is free. -/
def declare (s : Scope) (t : Token) : Except Rejection Scope :=
  (s.check t).map fun _ => s.reserve t.lexeme

/-- The names of the simple propositions in increasing order. -/
def sortedNames (s : Scope) : List String := sortNames (s.simple.map Prod.fst)

/-- The number of assignments to the simple propositions. -/
def rows (s : Scope) : Nat := Nat.pow 2 s.simple.length

/-- Gives every simple proposition its vector over all assignments. -/
def enumerate (numeric : Bool) (s : Scope) : Scope :=
  let vectors := Bits.enumerate numeric s.sortedNames
  { s with simple := s.simple.map fun (name, _) => (name, vectors.lookup name) }

/-- Gives a compound proposition its vector. -/
def fill (s : Scope) (name : String) (bits : Bits) : Scope :=
  { s with
    compound := s.compound.map fun entry => if entry.1 = name then (name, some bits) else entry }

/-- The vector of a name, if it has been evaluated. -/
def vector (s : Scope) (name : String) : Except Fault (Option Bits) :=
  match s.simple.lookup name with
  | some bits => .ok bits
  | none =>
    match s.compound.lookup name with
    | some bits => .ok bits
    | none => .error (.unknownName name)

/-- The truth value of a name in a row. -/
def bit (s : Scope) (row : Int) (name : String) : Except Fault Bool :=
  match s.vector name with
  | .error fault => .error fault
  | .ok none => .error (.unfilled name)
  | .ok (some bits) =>
    match (signedIndex bits.size row).bind (bits[·]?) with
    | some b => .ok b
    | none => .error .outOfRange

end Scope

end Propositional
