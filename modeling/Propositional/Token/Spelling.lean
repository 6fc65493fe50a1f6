/-
The spellings of the tokens, and the longest piece at the head of a text.

* `operators`: every spelling that is made of signs, the longer ones first, so
  that `<->` is found before `->` and `||` before `|`.
* `keywords`: the six operators that are words, in any letter case.
* `munch`: how far the first piece of a text reaches, and what it is.  Of the
  pieces that start there it takes the longest; a character that starts no
  piece at all is a piece of its own.
-/
import Propositional.Token
import Propositional.Text.Category

namespace Propositional.Token

open Text

/-- The operators written with signs, longer spellings before their beginnings. -/
def operators : List (List Char × Kind) :=
  [(['<', '-', '>'], .binary .iff), (['<', '=', '>'], .binary .iff),
   (['-', '>'], .binary .implies), (['=', '>'], .binary .implies),
   (['|', '|'], .binary .or), (['&', '&'], .binary .and),
   (['≡'], .binary .iff), (['↔'], .binary .iff), (['⇔'], .binary .iff),
   (['⟶'], .binary .implies), (['⟹'], .binary .implies), (['⊃'], .binary .implies),
   (['→'], .binary .implies), (['⇒'], .binary .implies),
   (['∨'], .binary .or), (['+'], .binary .or), (['|'], .binary .or),
   (['⊕'], .binary .xor), (['⊻'], .binary .xor),
   (['•'], .binary .and), (['∧'], .binary .and), (['&'], .binary .and),
   (['⋀'], .binary .and), (['^'], .binary .and),
   (['!'], .negation), (['˜'], .negation), (['∼'], .negation), (['~'], .negation),
   (['∽'], .negation), (['¬'], .negation), (['⌝'], .negation), (['┐'], .negation),
   (['⊤'], .top), (['⊥'], .bottom), (['='], .assign), ([','], .comma),
   (['('], .opening .round), ([')'], .closing .round),
   (['['], .opening .square), ([']'], .closing .square),
   (['\x7b'], .opening .curly), (['\x7d'], .closing .curly)]

/-- The operators written as words, in lower case. -/
def keywords : List (List Char × Kind) :=
  [(['e', 'q', 'v'], .binary .iff), (['i', 'm', 'p'], .binary .implies),
   (['o', 'r'], .binary .or), (['x', 'o', 'r'], .binary .xor),
   (['a', 'n', 'd'], .binary .and), (['n', 'o', 't'], .negation)]

/-- The kind of a word: a keyword in any letter case, else a name.  No letter
outside the Latin alphabet has a lower case that occurs in a keyword, so
folding the case of the Latin letters decides it. -/
def wordKind (word : List Char) : Kind :=
  (keywords.lookup (word.map Char.toLower)).getD .ident

/-- The number of characters that follow the first digit of a number: digits,
and perhaps a point with at least one digit after it. -/
def numberLength (cs : List Char) : Nat :=
  let whole := (cs.takeWhile isDecimal).length
  match cs.drop whole with
  | '.' :: fraction =>
    let digits := (fraction.takeWhile isDecimal).length
    if digits = 0 then whole else whole + 1 + digits
  | _ => whole

/-- The first piece of the text `c :: cs`: its kind, or nothing for white space,
and how many characters of `cs` belong to it. -/
def munch (c : Char) (cs : List Char) : Option Kind × Nat :=
  if isBlank c then (none, (cs.takeWhile isBlank).length)
  else if startsName c then
    let tail := cs.takeWhile continuesName
    (some (wordKind (c :: tail)), tail.length)
  else if isDecimal c then (some .number, numberLength cs)
  else match operators.find? fun op => op.1.isPrefixOf (c :: cs) with
    | some (spelling, kind) => (some kind, spelling.length - 1)
    | none => (some .unknown, 0)

end Propositional.Token
