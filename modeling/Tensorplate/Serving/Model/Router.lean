import Tensorplate.Http.Model.Server

/-!
# The request router

The handlers of `RequestRouter` as functions of the request and of what the
parts they call answer: the JSON library's parser and writer, the decoding
of one input, the buffer plane, the pipeline, the scheduler and the async
store. A text is the list of its bytes. A handler ends with a response, or
with the exception the JSON writer throws.
-/

namespace Tensorplate

namespace Router

open Http Lib

/-! ## JSON documents -/

/-- A JSON value, as the JSON library holds it. -/
inductive Document
  | null
  | bool (b : Bool)
  | integer (i : ℤ)
  | float
  | string (text : List Char)
  | array (items : List Document)
  | object (members : List (List Char × Document))

namespace Document

/-- `find` in an object; nothing in any other value. -/
def find : Document → List Char → Option Document
  | .object members, key => (members.find? fun m => m.1 = key).map Prod.snd
  | _, _ => none

def isObject : Document → Bool
  | .object _ => true
  | _ => false

/-- `is_string`, with the text. -/
def string? : Document → Option (List Char)
  | .string text => some text
  | _ => none

/-- `is_number_integer`, with the number. -/
def integer? : Document → Option ℤ
  | .integer i => some i
  | _ => none

/-- `is_array`, with the items. -/
def array? : Document → Option (List Document)
  | .array items => some items
  | _ => none

end Document

/-- The value of a field that is a string. -/
def stringField (root : Document) (key : String) : Option (List Char) :=
  (root.find key.toList).bind Document.string?

/-- The value of a field that is an integer. -/
def integerField (root : Document) (key : String) : Option ℤ :=
  (root.find key.toList).bind Document.integer?

/-- `to_string` of an error code. -/
def codeName : ErrorCode → String
  | .configInvalid => "config_invalid"
  | .loadFailed => "load_failed"
  | .notReady => "not_ready"
  | .shapeMismatch => "shape_mismatch"
  | .unsupported => "unsupported"
  | .oomError => "oom_error"
  | .timeout => "timeout"
  | .inferenceFailed => "inference_failed"
  | .internal => "internal"
  | .cancelled => "cancelled"
  | .unavailable => "unavailable"
  | .resourceExhausted => "resource_exhausted"

/-- `http_status_for_error`. -/
def httpStatusForError : ErrorCode → ℕ
  | .configInvalid => 400
  | .shapeMismatch => 400
  | .unsupported => 415
  | .oomError => 429
  | .resourceExhausted => 429
  | .timeout => 504
  | .notReady => 503
  | .unavailable => 503
  | .cancelled => 499
  | .loadFailed => 500
  | .inferenceFailed => 500
  | .internal => 500

/-! ## Decoding -/

/-- `RequestMetadata`, but for `extra`. -/
structure Metadata where
  correlationId : Option (List Char) := none
  actionChunkId : Option (List Char) := none
  actionChunkSequence : Option ℤ := none
  staleAfterSequence : Option ℤ := none
  deriving DecidableEq, Repr

/-- `DecodedInferRequest`, its inputs of a type `ι`. -/
structure DecodedInferRequest (ι : Type) where
  requestId : List Char
  endpoint : List Char
  metadata : Metadata := {}
  relativeDeadline : Option ℤ := none
  inputs : List ι := []

/-- A refusal of the decoder. -/
def decodeError (code : ErrorCode) (message : String) : Error := ⟨code, message, none⟩

/-- One optional text of the metadata, which may not be empty. -/
def optionalMetadataString (metadata : Document) (field : String) :
    Except Error (Option (List Char)) :=
  match stringField metadata field with
  | none => .ok none
  | some [] => .error (decodeError .configInvalid ("infer request: metadata." ++ field ++ " empty"))
  | some text => .ok (some text)

/-- The values of `metadata.extra` are strings. -/
def checkExtra (metadata : Document) : Except Error Unit :=
  match metadata.find "extra".toList with
  | some (.object members) =>
    if members.all (fun m => m.2.string?.isSome) then .ok ()
    else .error (decodeError .configInvalid "infer request: metadata.extra values must be strings")
  | _ => .ok ()

/-- `parse_metadata_object`, and the metadata part of `decode_infer_request`. -/
def parseMetadataObject (metadata : Document) : Except Error Metadata := do
  let correlationId ← optionalMetadataString metadata "correlation_id"
  let actionChunkId ← optionalMetadataString metadata "action_chunk_id"
  checkExtra metadata
  return { correlationId := correlationId
           actionChunkId := actionChunkId
           actionChunkSequence := integerField metadata "action_chunk_sequence"
           staleAfterSequence := integerField metadata "stale_after_sequence" }

/-- The metadata of a document, if it has an object of them. -/
def parseMetadata (root : Document) : Except Error Metadata :=
  match root.find "metadata".toList with
  | some metadata => if metadata.isObject then parseMetadataObject metadata else .ok {}
  | none => .ok {}

/-- `deadline_ms`. -/
def parseDeadline (root : Document) : Except Error (Option ℤ) :=
  match integerField root "deadline_ms" with
  | none => .ok none
  | some ms =>
    if ms ≤ 0 then .error (decodeError .configInvalid "infer request: deadline_ms must be > 0")
    else .ok (some ms)

/-- A text that must be there and not empty. -/
def requiredString (root : Document) (field : String) : Except Error (List Char) :=
  match stringField root field with
  | some (c :: text) => .ok (c :: text)
  | _ => .error (decodeError .configInvalid ("infer request: " ++ field ++ " missing or empty"))

/-- The root is an object. -/
def checkRoot (root : Document) : Except Error Unit :=
  if root.isObject then .ok ()
  else .error (decodeError .configInvalid "infer request: JSON root must be an object")

/-- The schema version, if it is a text, is known. -/
def checkSchemaVersion (root : Document) : Except Error Unit :=
  match stringField root "schema_version" with
  | none => .ok ()
  | some version =>
    if version = "0.1".toList then .ok ()
    else .error (decodeError .unsupported
      ("infer request: unsupported schema_version " ++ String.ofList version))

/-- The items of `inputs`, of which there is one. -/
def inputItems (root : Document) : Except Error (List Document) :=
  match (root.find "inputs".toList).bind Document.array? with
  | some (item :: items) => .ok (item :: items)
  | _ => .error (decodeError .configInvalid "infer request: inputs must be a non-empty array")

/-- `decode_infer_request` behind the parser, and the same checks of
`parse_request_metadata_root` with the loop behind them. -/
def decodeEnvelope {ι : Type} (decodeInput : Document → Except Error ι) (root : Document) :
    Except Error (DecodedInferRequest ι) := do
  checkRoot root
  checkSchemaVersion root
  let requestId ← requiredString root "request_id"
  let endpoint ← requiredString root "endpoint"
  let items ← inputItems root
  let metadata ← parseMetadata root
  let relativeDeadline ← parseDeadline root
  let inputs ← items.mapM decodeInput
  return { requestId := requestId, endpoint := endpoint, metadata := metadata
           relativeDeadline := relativeDeadline, inputs := inputs }

/-- `kBinaryInferMagic`. -/
def kBinaryInferMagic : List Char := "TPINFER1".toList

/-- `read_u32_le`. -/
def readU32Le : List Char → ℕ
  | a :: b :: c :: d :: _ =>
    a.toNat % 256 + 256 * (b.toNat % 256) + 65536 * (c.toNat % 256) + 16777216 * (d.toNat % 256)
  | _ => 0

/-- The JSON library and the input decoders, as the router calls them. -/
structure Codec (ι : Type) where
  /-- `json::parse`: a value, or the text of its error. -/
  parse : List Char → Except (List Char) Document
  /-- `dump`: a text, or the text of the exception it throws. -/
  dump : Document → Except (List Char) (List Char)
  decodeInput : Document → Except Error ι
  decodeBinaryInput : List Char → Document → Except Error ι

variable {ι : Type}

/-- `decode_infer_request`. -/
def decodeInferRequest (codec : Codec ι) (body : List Char) :
    Except Error (DecodedInferRequest ι) :=
  match codec.parse body with
  | .error what => .error (decodeError .configInvalid
      ("infer request: JSON parse error: " ++ String.ofList what))
  | .ok root => decodeEnvelope codec.decodeInput root

/-- `decode_binary_infer_request`. -/
def decodeBinaryInferRequest (codec : Codec ι) (body : List Char) :
    Except Error (DecodedInferRequest ι) :=
  let headerSize := kBinaryInferMagic.length + 4
  if body.length < headerSize then
    .error (decodeError .configInvalid "binary infer request: truncated header")
  else if body.take kBinaryInferMagic.length ≠ kBinaryInferMagic then
    .error (decodeError .configInvalid "binary infer request: bad magic")
  else
    let metadataLen := readU32Le (body.drop kBinaryInferMagic.length)
    if metadataLen > body.length - headerSize then
      .error (decodeError .configInvalid "binary infer request: truncated metadata")
    else
      match codec.parse ((body.drop headerSize).take metadataLen) with
      | .error what => .error (decodeError .configInvalid
          ("binary infer request: metadata JSON parse error: " ++ String.ofList what))
      | .ok root => decodeEnvelope
          (codec.decodeBinaryInput ((body.drop headerSize).drop metadataLen)) root

/-! ## Responses -/

/-- A text member. -/
def member (key : String) (text : List Char) : List Char × Document := (key.toList, .string text)

/-- The error object of a response. -/
def errorDocument (error : Error) : Document :=
  .object ([member "schema_version" "0.1".toList, member "code" (codeName error.code).toList,
    member "message" error.message.toList] ++
      (error.context.map fun context => member "context" context.toList).toList)

/-- `render_error_response`. -/
def renderErrorResponse (codec : Codec ι) (requestId : List Char)
    (correlationId : Option (List Char)) (error : Error) : Except (List Char) (List Char) :=
  codec.dump (.object ([member "schema_version" "0.1".toList, member "request_id" requestId] ++
    (correlationId.map (member "correlation_id")).toList ++
      [member "status" "failure".toList, ("error".toList, errorDocument error)]))

/-- `make_error_response`. -/
def makeErrorResponse (codec : Codec ι) (status : ℕ) (requestId correlationId : List Char)
    (error : Error) : Except (List Char) Response := do
  let body ← renderErrorResponse codec requestId
    (if correlationId = [] then none else some correlationId) error
  let response := Response.json status body
  return if correlationId = [] then response
    else response.setHeader "x-correlation-id".toList correlationId

/-- `generate_correlation_id` of a random 64-bit number. -/
def generateCorrelationId (v : ℕ) : List Char :=
  "cid-".toList ++ ((List.range 16).map fun i =>
    "0123456789abcdef".toList.getD ((v / 16 ^ (15 - i)) % 16) '0')

/-- `correlation_id` at the start of a handler. -/
def firstCorrelationId (req : Request) (random : ℕ) : List Char :=
  if req.correlationId = [] then generateCorrelationId random else req.correlationId

/-- `kBinaryInferContentType`. -/
def kBinaryInferContentType : List Char := "application/vnd.tensorplate.infer.binary.v1".toList

/-- A content type, alone or with parameters. -/
def hasContentType (req : Request) (type : List Char) : Bool :=
  match req.header "content-type".toList with
  | none => false
  | some value => lowerAscii value = type || (type ++ [';']).isPrefixOf (lowerAscii value)

def hasJsonContentType (req : Request) : Bool := hasContentType req "application/json".toList

def hasBinaryContentType (req : Request) : Bool := hasContentType req kBinaryInferContentType

/-- `admission_refusal`. -/
def admissionRefusal (stopping : Bool) (closedCause : Option String) (stoppingMessage : String) :
    Option Error :=
  if stopping then some ⟨.notReady, stoppingMessage, none⟩
  else closedCause.map fun cause =>
    ⟨.notReady, "serving worker admission closed: " ++ cause, some "admission_closed"⟩

/-- `RequestRouterDeps` and the router's flags, as far as the handlers read
them. -/
structure RouterState where
  maxBodyBytes : ℕ
  asyncPolicySupported : Bool
  stopping : Bool := false
  admissionClosed : Option String := none

/-- The metadata's correlation id goes before the header's. -/
def chooseCorrelationId (first : List Char) (decoded : DecodedInferRequest ι) : List Char :=
  decoded.metadata.correlationId.getD first

/-- A refusal of the decoder or behind it. -/
def refuseWith (codec : Codec ι) (requestId correlationId : List Char) (error : Error) :
    Except (List Char) Response :=
  makeErrorResponse codec (httpStatusForError error.code) requestId correlationId
    ⟨error.code, error.message, none⟩

/-- What the handlers ask of the parts behind the decoder. -/
structure InferAnswers where
  random : ℕ
  /-- `build_named_inputs`. -/
  inputs : Except Error Unit
  /-- `InferRequest::create_with_relative_deadline`. -/
  request : Except Error Unit
  /-- `run_sync`: an error, or a result that is one. -/
  outcome : Except Error (Except Error Unit)
  /-- The outputs of the result as JSON, `view` of each buffer; with the
  timing of the call. -/
  outputs : Except Error Document
  timing : Option Document
  /-- The payload bytes of a binary response. -/
  payload : List Char

/-- `render_infer_response_checked`. -/
def renderInferResponseChecked (codec : Codec ι) (requestId correlationId : List Char)
    (result : Except Error Unit) (outputs : Except Error Document) (timing : Option Document) :
    Except (List Char) (Except Error (List Char)) :=
  let start := [member "schema_version" "0.1".toList, member "request_id" requestId,
    member "correlation_id" correlationId]
  let rest := (timing.map fun t => ("timing".toList, t)).toList
  match result with
  | .ok () =>
    match outputs with
    | .error error => .ok (.error error)
    | .ok outs => (codec.dump (.object (start ++ [member "status" "success".toList,
        ("outputs".toList, outs)] ++ rest))).map .ok
  | .error error => (codec.dump (.object (start ++ [member "status" "failure".toList,
      ("error".toList, errorDocument error)] ++ rest))).map .ok

/-- `append_u32_le`. -/
def appendU32Le (n : ℕ) : List Char :=
  [Char.ofNat (n % 256), Char.ofNat (n / 256 % 256), Char.ofNat (n / 65536 % 256),
    Char.ofNat (n / 16777216 % 256)]

/-- `render_binary_infer_response_checked` of a success. -/
def renderBinaryInferResponseChecked (codec : Codec ι) (requestId correlationId : List Char)
    (outputs : Except Error Document) (timing : Option Document) (payload : List Char) :
    Except (List Char) (Except Error (List Char)) :=
  match outputs with
  | .error error => .ok (.error error)
  | .ok outs =>
    (codec.dump (.object ([member "schema_version" "0.1".toList, member "request_id" requestId,
      member "status" "success".toList, member "correlation_id" correlationId,
      ("outputs".toList, outs)] ++ (timing.map fun t => ("timing".toList, t)).toList))).map
        fun metadata =>
          if metadata.length > 2 ^ 32 - 1 then
            .error (decodeError .internal "binary infer response metadata too large")
          else .ok ("TPRESULT1".toList ++ appendU32Le metadata.length ++ metadata ++ payload)

/-- The response of a rendered result: a response to be, its header and body
set, or the error of rendering it. -/
def respondRendered (codec : Codec ι) (requestId correlationId : List Char)
    (respond : List Char → Response) (rendered : Except (List Char) (Except Error (List Char))) :
    Except (List Char) Response :=
  match rendered with
  | .error what => .error what
  | .ok (.error error) => makeErrorResponse codec (httpStatusForError error.code) requestId
      correlationId ⟨error.code, "response serialization failed", some error.message⟩
  | .ok (.ok body) => .ok ((respond body).setHeader "x-correlation-id".toList correlationId)

/-- A binary response without its correlation id. -/
def binaryResponse (body : List Char) : Response :=
  { ({ status := 200 } : Response).setHeader "content-type".toList kBinaryInferContentType with
    body := body }

/-- The rest of `handle_infer`, behind `run_sync`. -/
def finishInfer (codec : Codec ι) (binary : Bool) (requestId correlationId : List Char)
    (answers : InferAnswers) : Except (List Char) Response :=
  match answers.outcome with
  | .error error => refuseWith codec requestId correlationId error
  | .ok result =>
    if binary && result.isOk then
      respondRendered codec requestId correlationId binaryResponse
        (renderBinaryInferResponseChecked codec requestId correlationId answers.outputs
          answers.timing answers.payload)
    else
      respondRendered codec requestId correlationId Response.okJson
        (renderInferResponseChecked codec requestId correlationId result answers.outputs
          answers.timing)

/-- `handle_infer`. -/
def handleInfer (codec : Codec ι) (s : RouterState) (req : Request) (answers : InferAnswers) :
    Except (List Char) Response :=
  let correlationId := firstCorrelationId req answers.random
  match admissionRefusal s.stopping s.admissionClosed
      "serving worker stopping; not accepting new requests" with
  | some refused => makeErrorResponse codec 503 [] correlationId refused
  | none =>
    let binary := hasBinaryContentType req
    if !binary && !hasJsonContentType req then
      makeErrorResponse codec 415 [] correlationId ⟨.unsupported,
        "content-type must be application/json or " ++ String.ofList kBinaryInferContentType, none⟩
    else if req.body.length > s.maxBodyBytes then
      makeErrorResponse codec 413 [] correlationId
        ⟨.unsupported, "payload exceeds configured max_body_bytes", none⟩
    else
      match (if binary then decodeBinaryInferRequest codec req.body
          else decodeInferRequest codec req.body) with
      | .error error => refuseWith codec [] correlationId error
      | .ok decoded =>
        let correlationId := chooseCorrelationId correlationId decoded
        match answers.inputs with
        | .error error => refuseWith codec decoded.requestId correlationId error
        | .ok () =>
          match answers.request with
          | .error error => refuseWith codec decoded.requestId correlationId error
          | .ok () => finishInfer codec binary decoded.requestId correlationId answers

/-- `handle_policy_infer`; `accepted` is what `run_async` answers. -/
def handlePolicyInfer (codec : Codec ι) (s : RouterState) (req : Request) (answers : InferAnswers)
    (accepted : Except Error Unit) : Except (List Char) Response :=
  let correlationId := firstCorrelationId req answers.random
  match admissionRefusal s.stopping s.admissionClosed
      "serving worker stopping; not accepting new async requests" with
  | some refused => makeErrorResponse codec 503 [] correlationId refused
  | none =>
    if !s.asyncPolicySupported then
      makeErrorResponse codec 501 [] correlationId ⟨.unsupported,
        "async policy routes require backend capability supports_async=true", none⟩
    else if !hasJsonContentType req then
      makeErrorResponse codec 415 [] correlationId
        ⟨.unsupported, "content-type must be application/json", none⟩
    else if req.body.length > s.maxBodyBytes then
      makeErrorResponse codec 413 [] correlationId
        ⟨.unsupported, "payload exceeds configured max_body_bytes", none⟩
    else
      match decodeInferRequest codec req.body with
      | .error error => refuseWith codec [] correlationId error
      | .ok decoded =>
        let correlationId := chooseCorrelationId correlationId decoded
        match answers.inputs with
        | .error error => refuseWith codec decoded.requestId correlationId error
        | .ok () =>
          match answers.request with
          | .error error => refuseWith codec decoded.requestId correlationId error
          | .ok () =>
            match accepted with
            | .error error => refuseWith codec decoded.requestId correlationId error
            | .ok () => do
              let body ← codec.dump (.object [member "schema_version" "0.1".toList,
                member "status" "accepted".toList, member "request_id" decoded.requestId,
                member "correlation_id" correlationId, member "endpoint" decoded.endpoint,
                member "result_url" ("/policy/result/".toList ++ decoded.requestId),
                member "cancel_url" ("/policy/cancel/".toList ++ decoded.requestId)])
              return (Response.json 202 body).setHeader "x-correlation-id".toList correlationId

/-- What `handle_policy_result` finds in the store. -/
inductive Found
  | missing
  /-- Completed, and taken by someone else in between. -/
  | delivered (requestId : List Char)
  /-- Completed, with the result that was taken. -/
  | completed (requestId : List Char) (start : List (List Char × Document))
      (result : Except Error Unit) (outputs : Except Error Document) (timing : Option Document)
  /-- Any other entry: the members of its document. -/
  | other (members : List (List Char × Document))

/-- The response of an entry's document. -/
def respondEntry (codec : Codec ι) (correlationId : List Char)
    (members : List (List Char × Document)) : Except (List Char) Response := do
  let body ← codec.dump (.object (member "correlation_id" correlationId :: members))
  return (Response.json 200 body).setHeader "x-correlation-id".toList correlationId

/-- The response of a completed entry, its result rendered and read back
into the entry's document. -/
def respondResult (codec : Codec ι) (requestId correlationId : List Char)
    (start : List (List Char × Document))
    (rendered : Except (List Char) (Except Error (List Char))) : Except (List Char) Response :=
  match rendered with
  | .error what => .error what
  | .ok (.error error) => makeErrorResponse codec (httpStatusForError error.code) requestId
      correlationId ⟨error.code, "response serialization failed", some error.message⟩
  | .ok (.ok text) =>
    match codec.parse text with
    | .error what => .error what
    | .ok document => respondEntry codec correlationId (start ++ [("result".toList, document)])

/-- `handle_policy_result`; `found` is what the store answers. -/
def handlePolicyResult (codec : Codec ι) (s : RouterState) (req : Request)
    (requestId : List Char) (random : ℕ) (found : Found) : Except (List Char) Response :=
  let correlationId := firstCorrelationId req random
  if !s.asyncPolicySupported then
    makeErrorResponse codec 501 requestId correlationId ⟨.unsupported,
      "async policy routes require backend capability supports_async=true", none⟩
  else if requestId = [] then
    makeErrorResponse codec 400 [] correlationId
      ⟨.configInvalid, "result lookup: missing request_id", none⟩
  else
    match found with
    | .missing => makeErrorResponse codec 404 requestId correlationId
        ⟨.notReady, "result lookup: request_id not found", none⟩
    | .delivered id => makeErrorResponse codec 404 id correlationId
        ⟨.notReady, "result lookup: completed result was already delivered", none⟩
    | .other members => respondEntry codec correlationId members
    | .completed id start result outputs timing => respondResult codec id correlationId start
        (renderInferResponseChecked codec id correlationId result outputs timing)

/-- `handle_policy_cancel`; `found` is what the store answers. -/
def handlePolicyCancel (codec : Codec ι) (s : RouterState) (req : Request)
    (requestId : List Char) (random : ℕ) (found : Bool) : Except (List Char) Response :=
  let correlationId := firstCorrelationId req random
  if !s.asyncPolicySupported then
    makeErrorResponse codec 501 requestId correlationId ⟨.unsupported,
      "async policy routes require backend capability supports_async=true", none⟩
  else if requestId = [] then
    makeErrorResponse codec 400 [] correlationId
      ⟨.configInvalid, "cancel: missing request_id", none⟩
  else do
    let body ← codec.dump (.object [member "schema_version" "0.1".toList,
      member "request_id" requestId, member "correlation_id" correlationId,
      ("cancelled".toList, .bool found)])
    return (Response.json (if found then 200 else 404) body).setHeader "x-correlation-id".toList
      correlationId

/-- The handler in `HttpServer::Impl::dispatch`: an exception is a plain
response. -/
def answer : Except (List Char) Response → Response
  | .ok response => response
  | .error what => Response.plain 500 ("internal error: ".toList ++ what)

end Router

end Tensorplate
