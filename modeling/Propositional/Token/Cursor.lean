/-
A cursor over the tokens of a text.

* `Cursor.advance`: one token on; the cursor stays on the end of the text.
* `Cursor.restore?`: back to a place that was noted earlier.  The place may lie
  beyond the tokens when the cursor has been given another text since.
-/
import Propositional.Token.Source

namespace Propositional

/-- A text and the index of the current token, which is never beyond the end of
the text. -/
structure Cursor where
  source : Source
  index : Nat := 0
  index_le : index ≤ source.tokens.length := by omega

namespace Cursor

/-- A cursor on the first token of a text. -/
def ofText (text : String) : Cursor := { source := .ofText text }

/-- The current token. -/
def token (c : Cursor) : Token := c.source.tokens.getD c.index c.source.eof

/-- The number of tokens, the end of the text included. -/
def size (c : Cursor) : Nat := c.source.tokens.length + 1

/-- Moves to the next token, or stays on the end of the text. -/
def advance (c : Cursor) : Cursor :=
  if h : c.index < c.source.tokens.length then { c with index := c.index + 1, index_le := h }
  else c

/-- Moves to the token of the given index, if there is one. -/
def restore? (c : Cursor) (index : Nat) : Option Cursor :=
  if h : index ≤ c.source.tokens.length then some { c with index, index_le := h } else none

end Cursor

end Propositional
