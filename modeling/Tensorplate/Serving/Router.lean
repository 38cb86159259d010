import Tensorplate.Http.Response
import Tensorplate.Lib.Except
import Tensorplate.Serving.Model.Router

/-!
# What the router writes

Every response of a handler has a content type of its own and one header a
client has a say in, the correlation id. It comes from a request header,
which holds no end of a line, from the generator, or from the metadata of
the body, which may hold any text. A response reads back exactly if that
text holds no end of a line.
-/

namespace Tensorplate

namespace Router

open Http Lib

/-! ## The request's correlation id -/

variable {ι : Type} {codec : Codec ι}

section

variable {status : ℕ} {requestId correlationId : List Char} {error : Error} {response : Response}

end

/-! ## The correlation id of a response -/

/-- A request to a route, with what the parts behind the router answer. -/
inductive Route
  | infer (answers : InferAnswers)
  | policyInfer (answers : InferAnswers) (accepted : Except Error Unit)
  | policyResult (requestId : List Char) (random : ℕ) (found : Found)
  | policyCancel (requestId : List Char) (random : ℕ) (found : Bool)

/-- The handler of a route. -/
def handle (codec : Codec ι) (s : RouterState) (req : Request) :
    Route → Except (List Char) Response
  | .infer answers => handleInfer codec s req answers
  | .policyInfer answers accepted => handlePolicyInfer codec s req answers accepted
  | .policyResult requestId random found => handlePolicyResult codec s req requestId random found
  | .policyCancel requestId random found => handlePolicyCancel codec s req requestId random found

/-- The body of a request whose metadata gives a correlation id. -/
def sampleBody (escaped : String) : List Char :=
  "\x7b\"request_id\":\"r\",\"endpoint\":\"e\",\"inputs\":[\x7b\"name\":\"x\",".toList ++
    "\"tensor\":\x7b\"dtype\":\"uint8\",\"shape\":[1]\x7d,\"payload_b64\":\"AA==\"\x7d],".toList ++
    "\"metadata\":\x7b\"correlation_id\":\"".toList ++ escaped.toList ++ "\"\x7d\x7d".toList

def sampleRequest (escaped : String) : Request :=
  { method := "POST".toList, path := "/infer".toList
    headers := [⟨"content-type".toList, "application/json".toList⟩,
      ⟨"content-length".toList, Nat.toDigits 10 (sampleBody escaped).length⟩]
    body := sampleBody escaped }

end Router

end Tensorplate
