/-
Formulas and the propositions that a request lists.

* `Formula`: atoms, negations, compounds and bracketed formulas; brackets are
  kept because the text of a formula shows them as they were written.
* `Formula.eval`: the truth value of a formula from those of its atoms.
* `Formula.text`: the text of a formula with one spelling per connective.
* `Formula.atoms`: the names that occur, from left to right.
* `Tree`: a formula as it was read, where every atom keeps its token.
* `Tree.formula`: what is left of a tree when the places are forgotten.
* `Proposition`: a tree, perhaps with a name of its own.
-/
import Propositional.Token

namespace Propositional

/-- A formula of propositional logic.  An atom is a simple proposition, a
constant or the name of a proposition defined before. -/
inductive Formula where
  | atom (name : String)
  | neg (operand : Formula)
  | binary (c : Connective) (left right : Formula)
  | group (b : Bracket) (inner : Formula)
  deriving DecidableEq, Repr

/-- The spelling of a connective in the text of a formula. -/
def Connective.text : Connective → String
  | .and => " ∧ "
  | .or => " ∨ "
  | .xor => " ⊻ "
  | .implies => " -> "
  | .iff => " <-> "

namespace Formula

/-- The truth value of a formula where the atoms have the given ones.  Brackets
only group. -/
def eval (v : String → Bool) : Formula → Bool
  | atom name => v name
  | neg f => !f.eval v
  | binary c l r => c.apply (l.eval v) (r.eval v)
  | group _ f => f.eval v

/-- The text of a formula.  No brackets are added: those that the formula needs
are part of it. -/
def text : Formula → String
  | atom name => name
  | neg f => "¬" ++ f.text
  | binary c l r => l.text ++ c.text ++ r.text
  | group b f => b.opener ++ f.text ++ b.closer

/-- The names of the atoms from left to right, with repetitions. -/
def atoms : Formula → List String
  | atom name => [name]
  | neg f => f.atoms
  | binary _ l r => l.atoms ++ r.atoms
  | group _ f => f.atoms

end Formula

/-- A formula as it was read.  The atoms keep their tokens, and with them their
places in the text. -/
inductive Tree where
  | atom (t : Token)
  | neg (operand : Tree)
  | binary (c : Connective) (left right : Tree)
  | group (b : Bracket) (inner : Tree)
  deriving DecidableEq, Repr

/-- The formula of a tree: an atom is as good as its name. -/
def Tree.formula : Tree → Formula
  | atom t => .atom t.lexeme
  | neg f => .neg f.formula
  | binary c l r => .binary c l.formula r.formula
  | group b f => .group b f.formula

/-- An element of a request: a tree, and the token that names it if it has a
name. -/
structure Proposition where
  label : Option Token
  tree : Tree
  deriving DecidableEq, Repr

namespace Proposition

/-- The formula of the proposition. -/
def formula (p : Proposition) : Formula := p.tree.formula

/-- The name that the proposition defines. -/
def name (p : Proposition) : Option String := p.label.map Token.lexeme

/-- The text of a proposition, with its name in front. -/
def text (p : Proposition) : String :=
  match p.name with
  | some name => name ++ " = " ++ p.formula.text
  | none => p.formula.text

end Proposition

end Propositional
