/-
Values in one line, for inspection: tokens, propositions as trees, compounds,
columns.
-/
import Propositional.Table
import Propositional.Text.Quoted

namespace Propositional

open Text

/-- A token: its kind, its lexeme and its place. -/
def Token.outline (t : Token) : String :=
  "Token(" ++ t.kind.label ++ ", " ++ quoted t.lexeme ++ ", " ++ toString t.start.line ++ ":"
    ++ toString t.start.column ++ ")"

/-- A tree with its constructors. -/
def Tree.outline : Tree → String
  | atom t => "Atom(" ++ t.lexeme ++ ")"
  | neg f => "Negation(" ++ f.outline ++ ")"
  | binary c l r =>
    "BinaryOp(" ++ (Token.Kind.binary c).label ++ ", " ++ l.outline ++ ", " ++ r.outline ++ ")"
  | group b f => "Group(" ++ b.opener ++ f.outline ++ b.closer ++ ")"

/-- A proposition: its name and its tree. -/
def Proposition.outline (p : Proposition) : String :=
  "Proposition(" ++ p.name.getD "None" ++ ", " ++ p.tree.outline ++ ")"

/-- A compound: its name and the text of its formula. -/
def Compound.outline (c : Compound) : String :=
  "ExpressionRecord(" ++ quoted c.name ++ ", " ++ quoted c.text ++ ")"

/-- A column: its header and its vector. -/
def Column.outline (c : Column) : String :=
  "Column(" ++ quoted c.header ++ ", ["
    ++ ", ".intercalate (c.bits.toList.map fun b => if b then "1" else "0") ++ "])"

end Propositional
