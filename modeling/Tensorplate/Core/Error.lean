import Mathlib.Algebra.GroupWithZero.Nat
import Mathlib.Data.List.Basic

/-!
# Typed errors

The error value every fallible operation of the serving runtime returns:
a stable code, a message, and the stable reason its context carries.
-/

namespace Tensorplate

/-- `Error::Code`. -/
inductive ErrorCode
  | configInvalid
  | loadFailed
  | notReady
  | shapeMismatch
  | unsupported
  | oomError
  | timeout
  | inferenceFailed
  | internal
  | cancelled
  | unavailable
  | resourceExhausted
  deriving DecidableEq, Repr

/-- `Error`: a code, a message and an optional context. -/
structure Error where
  code : ErrorCode
  message : String
  context : Option String
  deriving DecidableEq, Repr

/-- `Error::make` with a context. -/
def Error.make (code : ErrorCode) (message context : String) : Error :=
  ⟨code, message, some context⟩

end Tensorplate
