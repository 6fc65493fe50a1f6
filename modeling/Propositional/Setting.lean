/-
Loosely typed values for options.

* `Setting`: a value of any type, as far as an option can tell it from others.
  Truth values are settings.
* `Setting.truthy`: its reading as a truth value; zero, nothing and what is empty
  are false.
* `Setting.bool?`: the truth value itself, for options that take no other type.
-/
import Propositional.Failure

namespace Propositional

/-- A value given for an option.  Only values with a fixed truth value are meant:
one that cannot be read as a truth value, or that is read differently from one
request to the next, is no setting. -/
inductive Setting where
  | null
  | bool (b : Bool)
  | integer (n : Int)
  /-- A number with a fractional part, by its digits without the point. -/
  | fraction (digits : Int)
  | text (s : String)
  | list (length : Nat)
  | object (size : Nat)
  deriving DecidableEq, Repr

instance : Coe Bool Setting := ⟨.bool⟩

namespace Setting

/-- The value read as a truth value. -/
def truthy : Setting → Bool
  | null => false
  | bool b => b
  | integer n => n != 0
  | fraction digits => digits != 0
  | text s => s != ""
  | list length => length != 0
  | object size => size != 0

/-- The name of the type of the value. -/
def typeName : Setting → String
  | null => "NoneType"
  | bool _ => "bool"
  | integer _ => "int"
  | fraction _ => "float"
  | text _ => "str"
  | list _ => "list"
  | object _ => "dict"

/-- The truth value, if the value is one. -/
def bool? : Setting → Except Failure Bool
  | bool b => .ok b
  | v => .error (.notBoolean v.typeName)

end Setting

end Propositional
