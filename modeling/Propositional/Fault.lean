/-
What can go wrong when truth values are looked up and combined.

* `Fault`: a name without truth values, a row outside a vector, an operand that
  is missing.
* `signedIndex`: an index that counts from the end where it is negative.
-/
import Propositional.Token

namespace Propositional

/-- A failed look-up or step. -/
inductive Fault where
  /-- The name is not known. -/
  | unknownName (name : String)
  /-- The name is known but has no truth values yet. -/
  | unfilled (name : String)
  /-- There is no such place in a list or vector. -/
  | outOfRange
  /-- An operand is missing on the stack. -/
  | stackUnderflow
  /-- The kind of token is no connective. -/
  | noConnective (kind : Token.Kind)
  deriving DecidableEq, Repr

/-- The fault in words. -/
def Fault.message : Fault → String
  | unknownName name => name
  | unfilled name => "no truth values for '" ++ name ++ "'"
  | outOfRange => "list index out of range"
  | stackUnderflow => "pop from empty list"
  | noConnective kind => "TokenKind." ++ kind.label

/-- The place that an index names among `size` places: from the front where it
is not negative, from the end where it is. -/
def signedIndex (size : Nat) (i : Int) : Option Nat :=
  let place := if 0 ≤ i then i else size + i
  if 0 ≤ place ∧ place < size then some place.toNat else none

theorem signedIndex_ofNat {size i : Nat} (h : i < size) :
    signedIndex size (i : Int) = some i := by
  simp [signedIndex, h]

theorem signedIndex_lt {size : Nat} {i : Int} {k : Nat} (h : signedIndex size i = some k) :
    k < size := by
  unfold signedIndex at h
  grind

end Propositional
