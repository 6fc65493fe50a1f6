/-
Everything that can keep an operation of the library from its answer.

* `Failure`: a rejected request, a fault of evaluation, or an option or graph
  that an operation cannot take.
* `Failure.message`: each of them in words.
-/
import Propositional.Fault
import Propositional.Rejection

namespace Propositional

/-- Why an operation has no answer. -/
inductive Failure where
  /-- The request is not well formed. -/
  | rejected (r : Rejection)
  /-- Truth values could not be looked up or combined. -/
  | fault (f : Fault)
  /-- A graph that has to be acyclic has a cycle. -/
  | cyclic
  /-- No layout has this name. -/
  | unknownLayout (name : String)
  /-- An option that has to be true or false is of another type. -/
  | notBoolean (type : String)
  deriving DecidableEq, Repr

/-- The failure in words. -/
def Failure.message : Failure → String
  | rejected r => r.message
  | fault f => f.message
  | cyclic => "Directed Acyclic Graph required for transitive_reduction"
  | unknownLayout name => "Unknown layout type: " ++ name
  | notBoolean type => "Expected bool, got <class '" ++ type ++ "'>"

end Propositional
