/-
The vocabulary of the notation: connectives, brackets, the kinds of token, and
tokens with their place in a text.

* `Connective`: the five binary connectives, ordered by `Connective.rank` from
  the loosest to the tightest.
* `Bracket`: the three pairs of brackets.
* `Token.Kind`: what a piece of text is, whatever its spelling, and the word for
  it.
* `Position`: a place in a text, by line and column and by offset.
* `Token`: a piece of text with its kind and the place where it starts.
-/

namespace Propositional

/-! ### Connectives and brackets -/

/-- A connective between two propositions. -/
inductive Connective where
  | and
  | or
  | xor
  | implies
  | iff
  deriving DecidableEq, Repr

/-- How tightly a connective binds its operands, the biconditional the least and
the conjunction the most. -/
def Connective.rank : Connective → Nat
  | .iff => 0
  | .implies => 1
  | .or => 2
  | .xor => 3
  | .and => 4

/-- The truth value of a compound from those of its two sides. -/
def Connective.apply : Connective → Bool → Bool → Bool
  | .and, p, q => p && q
  | .or, p, q => p || q
  | .xor, p, q => p != q
  | .implies, p, q => !p || q
  | .iff, p, q => (!p || q) && (!q || p)

/-- A pair of brackets. -/
inductive Bracket where
  | round
  | square
  | curly
  deriving DecidableEq, Repr

/-- The opening bracket of a pair. -/
def Bracket.opener : Bracket → String
  | .round => "("
  | .square => "["
  | .curly => "\x7b"

/-- The closing bracket of a pair. -/
def Bracket.closer : Bracket → String
  | .round => ")"
  | .square => "]"
  | .curly => "\x7d"

/-! ### Kinds of token -/

/-- What a token is.  The connectives and the negation have many spellings each,
which all give the same kind. -/
inductive Token.Kind where
  | ident
  | number
  | binary (c : Connective)
  | negation
  | top
  | bottom
  | assign
  | comma
  | opening (b : Bracket)
  | closing (b : Bracket)
  | unknown
  | eof
  deriving DecidableEq, Repr

/-- The connective that a kind of token stands for, if any. -/
def Token.Kind.connective? : Token.Kind → Option Connective
  | .binary c => some c
  | _ => none

/-- The words for the kinds of token in a description. -/
def Token.Kind.label : Token.Kind → String
  | .ident => "IDENT"
  | .number => "NUMBER"
  | .binary .iff => "BICOND"
  | .binary .implies => "IMPLIES"
  | .binary .or => "OR"
  | .binary .xor => "XOR"
  | .binary .and => "AND"
  | .negation => "NOT"
  | .top => "TOP"
  | .bottom => "BOTTOM"
  | .assign => "ASSIGN"
  | .comma => "COMMA"
  | .opening .round => "LPAREN"
  | .closing .round => "RPAREN"
  | .opening .square => "LBRACKET"
  | .closing .square => "RBRACKET"
  | .opening .curly => "LBRACE"
  | .closing .curly => "RBRACE"
  | .unknown => "UNKNOWN"
  | .eof => "EOF"

/-! ### Places and tokens -/

/-- A place in a text.  Lines and columns count from one, offsets from zero, all
in characters. -/
structure Position where
  line : Nat
  column : Nat
  offset : Nat
  deriving DecidableEq, Repr

/-- The place of the first character. -/
def Position.start : Position := ⟨1, 1, 0⟩

/-- A classified piece of a text.  The end of a text counts as a token whose
lexeme is empty. -/
structure Token where
  kind : Token.Kind
  lexeme : String
  start : Position
  deriving DecidableEq, Repr

/-- The number of characters of a token. -/
def Token.length (t : Token) : Nat := t.lexeme.length

end Propositional
