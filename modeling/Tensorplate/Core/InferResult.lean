import Tensorplate.Core.Error

/-!
# Inference results

`InferResult` as the serving pipeline, the async store and the router pass
it on. A buffer is named by a number; a result is told apart from every
other by the number the store gives it.
-/

namespace Tensorplate

/-- `NamedOutput`. -/
structure NamedOutput where
  name : String
  buffer : ℕ
  deriving DecidableEq, Repr

/-- `InferResult`: outputs, or the error of an adapter. -/
structure InferResult where
  requestId : String
  payload : Except Error (List NamedOutput)
  number : ℕ := 0
  deriving DecidableEq, Repr

namespace InferResult

/-- `is_success`. -/
def isSuccess (r : InferResult) : Bool :=
  match r.payload with
  | .ok _ => true
  | .error _ => false

/-- `outputs`: none of a failure. -/
def outputs (r : InferResult) : List NamedOutput :=
  match r.payload with
  | .ok outputs => outputs
  | .error _ => []

end InferResult

end Tensorplate
