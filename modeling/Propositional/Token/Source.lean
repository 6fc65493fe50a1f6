/-
A text cut into tokens.

* `Line`: the line that has been reached.  Only white space leads to another one, and
  of it only the line feeds: `Line.pass` counts them and looks for the last.
* `Token.scan`: one pass over the characters.  It carries the line and the offset
  reached and the number of characters still to pass over that belong to the piece
  last found.
* `Source.ofText`: the tokens of a text and the place where it ends.
* `Source.toList`: the tokens followed by the end of the text.
-/
import Propositional.Token.Spelling

namespace Propositional

/-! ### Lines -/

/-- A line of a text: its number, and the offset of its first character. -/
structure Line where
  number : Nat := 1
  start : Nat := 0
  deriving DecidableEq, Repr

/-- The index of the last occurrence of a character that occurs. -/
def Text.lastIndex (c : Char) (cs : List Char) : Nat := cs.length - 1 - cs.reverse.idxOf c

namespace Line

/-- The place of an offset on a line. -/
def place (l : Line) (offset : Nat) : Position := ⟨l.number, offset - l.start + 1, offset⟩

/-- The line behind white space that begins at an offset. -/
def pass (l : Line) (offset : Nat) (blanks : List Char) : Line :=
  let feeds := blanks.count '\n'
  if feeds = 0 then l else ⟨l.number + feeds, offset + Text.lastIndex '\n' blanks + 1⟩

end Line

/-! ### Tokens -/

/-- The tokens of the characters from an offset on, the first `n` of which belong to a
piece that was taken before, and the line on which the characters end. -/
def Token.scan (l : Line) (offset : Nat) : Nat → List Char → List Token × Line
  | _, [] => ([], l)
  | n + 1, _ :: cs => scan l (offset + 1) n cs
  | 0, c :: cs =>
    let (kind, n) := munch c cs
    let piece := c :: cs.take n
    match kind with
    | none => scan (l.pass offset piece) (offset + 1) n cs
    | some k =>
      let (rest, last) := scan l (offset + 1) n cs
      (⟨k, String.ofList piece, l.place offset⟩ :: rest, last)

/-- A text cut into tokens, white space left out. -/
structure Source where
  tokens : List Token
  stop : Position
  deriving DecidableEq, Repr

namespace Source

/-- Cuts a text into tokens. -/
def ofText (text : String) : Source :=
  let chars := text.toList
  let (tokens, last) := Token.scan {} 0 0 chars
  { tokens, stop := last.place chars.length }

/-- The token that stands for the end of the text. -/
def eof (s : Source) : Token := ⟨.eof, "", s.stop⟩

/-- All tokens, the end of the text included. -/
def toList (s : Source) : List Token := s.tokens ++ [s.eof]

/-- The first token, which is the end of the text where there is no other. -/
def first (s : Source) : Token := s.tokens.headD s.eof

end Source

end Propositional
