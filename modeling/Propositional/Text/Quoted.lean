/-
Texts between quotation marks, in one line of printable characters.

* `quoteMark`: apostrophes enclose a text, unless it holds an apostrophe and no
  double quotation mark.
* `escape`: the enclosing mark and the backslash take a backslash; a character
  without a glyph is written by its code point.
* `quoted`: the whole text between its marks.
-/
import Propositional.Text.Printable

namespace Propositional.Text

/-- A number in base sixteen, filled up with zeros to the given width. -/
def hexadecimal (width n : Nat) : List Char :=
  let digits := Nat.toDigits 16 n
  List.replicate (width - digits.length) '0' ++ digits

/-- The mark that encloses a text. -/
def quoteMark (cs : List Char) : Char :=
  if cs.contains '\x27' && !cs.contains '\x22' then '\x22' else '\x27'

/-- One character between two marks.  Code points below 256 take two digits,
those of the basic plane four and the others eight. -/
def escape (mark c : Char) : List Char :=
  if c = mark || c = '\\' then ['\\', c]
  else if c = '\n' then ['\\', 'n']
  else if c = '\r' then ['\\', 'r']
  else if c = '\t' then ['\\', 't']
  else if isPrintable c then [c]
  else if c.toNat < 0x100 then '\\' :: 'x' :: hexadecimal 2 c.toNat
  else if c.toNat < 0x10000 then '\\' :: 'u' :: hexadecimal 4 c.toNat
  else '\\' :: 'U' :: hexadecimal 8 c.toNat

/-- A text between its marks. -/
def quoted (text : String) : String :=
  let cs := text.toList
  let mark := quoteMark cs
  String.ofList (mark :: cs.flatMap (escape mark) ++ [mark])

end Propositional.Text
