/-
The glyphs that stand for true and false.

* `Glyphs.forMode`: `1` and `0` for numbers; for letters `F`, and for true the
  initial of the word for it in the language of the locale, `V` in Spanish and
  `T` otherwise.
-/

namespace Propositional

/-- The texts that stand for the truth values. -/
structure Glyphs where
  whenTrue : String := "1"
  whenFalse : String := "0"
  deriving DecidableEq, Repr

/-- The text of a truth value. -/
def Glyphs.glyph (g : Glyphs) (b : Bool) : String := if b then g.whenTrue else g.whenFalse

/-- Whether a locale is of the Spanish family, by the first two characters of its
name. -/
def isSpanish (locale : String) : Bool := (locale.toList.take 2).map Char.toLower == ['e', 's']

/-- The glyphs for numbers or letters in a locale. -/
def Glyphs.forMode (numeric : Bool) (locale : String) : Glyphs :=
  if numeric then ⟨"1", "0"⟩ else ⟨if isSpanish locale then "V" else "T", "F"⟩

end Propositional
