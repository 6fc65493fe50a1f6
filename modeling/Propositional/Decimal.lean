/-
Numbers with a fixed count of decimal places.

* `roundDiv`: the nearest whole number to a quotient; a half goes to the even
  neighbour.
* `binary`: a quotient with fifty-three binary digits, the precision to which
  coordinates and shares are held before they are written.
* `scaled`, `fixedText`: a quotient as a whole number of units of the last place,
  and its text.
-/

namespace Propositional.Decimal

/-- The whole number nearest to `num / den`; a half goes to the even one. -/
def roundDiv (num den : Nat) : Nat :=
  let q := num / den
  let r := num % den
  if 2 * r < den then q else if den < 2 * r then q + 1 else q + q % 2

/-- The multiple of a power of two that is nearest to `num / den`, with
fifty-three digits: the factor, and the exponent of the power that divides it. -/
def binary (num den : Nat) : Nat × Nat :=
  let shift := 52 + den.log2 - num.log2
  let shift := if num * Nat.pow 2 shift < den * Nat.pow 2 52 then shift + 1 else shift
  (roundDiv (num * Nat.pow 2 shift) den, shift)

/-- The number of units of the last place that is nearest to a quotient. -/
def scaled (places num den : Nat) : Nat :=
  let (factor, shift) := binary num den
  roundDiv (factor * Nat.pow 10 places) (Nat.pow 2 shift)

/-- The text of a whole number of units of the last place.  Zero has no sign. -/
def fixedText (places : Nat) (units : Int) : String :=
  let digits := Nat.toDigits 10 units.natAbs
  let padded := List.replicate (places + 1 - digits.length) '0' ++ digits
  let whole := padded.take (padded.length - places)
  let fraction := padded.drop (padded.length - places)
  (if units < 0 then "-" else "") ++ String.ofList whole ++ "." ++ String.ofList fraction

end Propositional.Decimal
