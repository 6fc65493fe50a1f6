/-
Why a request is rejected, and where.

* `Rejection.Cause`: the three faults of syntax and the two of naming.
* `Cause.title`, `Cause.message`: the fault in a few words and in a sentence.
* `Rejection`: a cause at the token that gave rise to it.
-/
import Propositional.Token

namespace Propositional

/-- What is wrong with a request. -/
inductive Rejection.Cause where
  /-- Something else stands where a formula should start. -/
  | operandExpected
  /-- A formula ends while a bracket is open. -/
  | closerExpected (b : Bracket)
  /-- Something follows the last proposition. -/
  | endExpected
  /-- A name is defined for the second time. -/
  | alreadyDefined (name : String)
  /-- A name is defined after it was used as a simple proposition. -/
  | alreadySimple (name : String)
  deriving DecidableEq, Repr

namespace Rejection.Cause

/-- The cause in a few words. -/
def title : Cause → String
  | operandExpected => "unexpected token"
  | closerExpected _ => "unmatched bracket"
  | endExpected => "trailing input"
  | alreadyDefined _ => "duplicate compound name"
  | alreadySimple _ => "name collision"

/-- The cause in a sentence. -/
def message : Cause → String
  | operandExpected => "Expected identifier, '(', '[' or '\x7b'"
  | closerExpected b => "Expected symbol '" ++ b.closer ++ "'"
  | endExpected => "Expected end of input"
  | alreadyDefined name => "'" ++ name ++ "' is already defined"
  | alreadySimple name => "'" ++ name ++ "' already exists as a simple proposition"

end Rejection.Cause

/-- A cause and the token where it shows. -/
structure Rejection where
  cause : Rejection.Cause
  token : Token
  deriving DecidableEq, Repr

namespace Rejection

/-- The message alone. -/
def message (r : Rejection) : String := r.cause.message

/-- The message with its place. -/
def text (r : Rejection) : String :=
  r.message ++ " (line " ++ toString r.token.start.line ++ ", column "
    ++ toString r.token.start.column ++ ")"

end Rejection

end Propositional
