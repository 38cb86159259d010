import Mathlib.Data.Int.Notation
import Tensorplate.Core.Error

/-!
# Inference requests

`InferRequest` as the scheduler and the serving pipeline read it. A buffer
is named by a number, an instant is a count of nanoseconds.
-/

namespace Tensorplate

/-- `RequestMetadata`. -/
structure RequestMetadata where
  correlationId : Option String := none
  actionChunkId : Option String := none
  actionChunkSequence : Option ℤ := none
  staleAfterSequence : Option ℤ := none
  deriving DecidableEq, Repr

/-- `NamedInput`. -/
structure NamedInput where
  name : String
  buffer : ℕ
  deriving DecidableEq, Repr

/-- `InferRequest`. -/
structure InferRequest where
  requestId : String
  endpoint : String
  inputs : List NamedInput
  metadata : RequestMetadata := {}
  deadline : Option ℤ := none
  deriving DecidableEq, Repr

/-- `validate_inputs`. -/
def validateInputs (inputs : List NamedInput) : Except Error Unit :=
  if inputs = [] then
    .error ⟨.configInvalid, "InferRequest.inputs must contain at least one named input", none⟩
  else check [] inputs
where
  /-- Its loop, with the names it has seen. -/
  check (seen : List String) : List NamedInput → Except Error Unit
    | [] => .ok ()
    | input :: rest =>
      if input.name = "" then
        .error ⟨.configInvalid, "InferRequest.inputs entry has empty `name`", none⟩
      else if input.buffer = 0 then
        .error ⟨.configInvalid, "InferRequest.inputs entry has a released or missing buffer", none⟩
      else if input.name ∈ seen then
        .error ⟨.configInvalid, "InferRequest.inputs has duplicate name `" ++ input.name ++ "`",
          none⟩
      else check (input.name :: seen) rest

/-- `validate_metadata`. -/
def validateMetadata (metadata : RequestMetadata) : Except Error Unit :=
  if metadata.correlationId = some "" then
    .error ⟨.configInvalid, "InferRequest.metadata.correlation_id, if present, must be non-empty",
      none⟩
  else if metadata.actionChunkId = some "" then
    .error ⟨.configInvalid, "InferRequest.metadata.action_chunk_id, if present, must be non-empty",
      none⟩
  else .ok ()

namespace InferRequest

/-- `InferRequest::create`, at its reading of the clock. -/
def create (requestId endpoint : String) (inputs : List NamedInput) (metadata : RequestMetadata)
    (deadline : Option ℤ) (now : ℤ) : Except Error InferRequest := do
  if requestId = "" then
    throw ⟨.configInvalid, "InferRequest.request_id must be non-empty", none⟩
  if endpoint = "" then
    throw ⟨.configInvalid, "InferRequest.endpoint must be non-empty", none⟩
  validateInputs inputs
  validateMetadata metadata
  if deadline.any (fun d => now ≥ d) then
    throw ⟨.timeout, "InferRequest.deadline has already expired", none⟩
  return ⟨requestId, endpoint, inputs, metadata, deadline⟩

/-- `create_with_relative_deadline`, a deadline in milliseconds from the
first reading of the clock. -/
def createWithRelativeDeadline (requestId endpoint : String) (inputs : List NamedInput)
    (metadata : RequestMetadata) (relativeDeadline : Option ℤ) (started now : ℤ) :
    Except Error InferRequest :=
  match relativeDeadline with
  | none => create requestId endpoint inputs metadata none now
  | some relative =>
    if relative ≤ 0 then
      .error ⟨.configInvalid, "InferRequest relative deadline must be > 0 ms", none⟩
    else create requestId endpoint inputs metadata (some (started + relative * 1000000)) now

end InferRequest

end Tensorplate
