import Mathlib.Data.Int.DivMod
import Tensorplate.Buffer.Model.TensorView
import Tensorplate.Serving.Model.Base64

/-!
# The two request decoders

`decode_infer_request` reads a JSON document whose inputs carry their bytes
in base64; `decode_binary_infer_request` reads a frame of a JSON document
and a payload, the inputs being windows of the payload. The two are written
apart in the source, and here. A body is a list of bytes, a text of a
document a list of characters, and the JSON parser is a parameter.
-/

namespace Tensorplate

namespace Serialization

open Buffer Lib Router

/-- `get<std::int64_t>` of an integer of the JSON library. -/
def toI64 (i : ℤ) : ℤ := Int.bmod i (2 ^ 64)

/-- `static_cast<std::size_t>` of a signed word. -/
def toSize (v : ℤ) : ℕ := (v % 2 ^ 64).toNat

/-- The value of a field that is an array. -/
def arrayField (root : Document) (key : String) : Option (List Document) :=
  (root.find key.toList).bind Document.array?

/-- The value of a field that is an object. -/
def objectField (root : Document) (key : String) : Option Document :=
  (root.find key.toList).filter Document.isObject

/-- A signed word of a document. -/
def i64Field (root : Document) (key : String) : Option ℤ := (integerField root key).map toI64

/-- `RequestMetadata`. -/
structure RequestMetadata where
  correlationId : Option (List Char) := none
  actionChunkId : Option (List Char) := none
  actionChunkSequence : Option ℤ := none
  staleAfterSequence : Option ℤ := none
  extra : List (List Char × List Char) := []
  deriving DecidableEq, Repr

/-- `DecodedInput`. -/
structure DecodedInput where
  name : List Char
  bytes : List UInt8
  tensor : TensorView
  deriving DecidableEq, Repr

/-- `DecodedInferRequest`, the deadline in milliseconds. -/
structure DecodedInferRequest where
  requestId : List Char
  endpoint : List Char
  metadata : RequestMetadata := {}
  relativeDeadline : Option ℤ := none
  inputs : List DecodedInput := []
  deriving DecidableEq, Repr

/-- A check that refuses with an error. -/
def refuseIf (c : Prop) [Decidable c] (e : Error) : Except Error Unit :=
  if c then .error e else .ok ()

/-- `parse_dtype`. -/
def parseDtype (name : List Char) : Except Error DType :=
  match dtypeFromString name with
  | some dtype => .ok dtype
  | none => .error (decodeError .unsupported
      ("infer request: unknown dtype " ++ String.ofList name))

/-- `parse_layout`. -/
def parseLayout (name : List Char) : Except Error Layout :=
  match layoutFromString name with
  | some layout => .ok layout
  | none => .error (decodeError .unsupported
      ("infer request: unknown layout " ++ String.ofList name))

/-- `emplace`: a key that is there keeps its value. -/
def emplace (extra : List (List Char × List Char)) (key value : List Char) :
    List (List Char × List Char) :=
  if extra.any fun m => m.1 = key then extra else extra ++ [(key, value)]

/-- The loop over `metadata.extra`, which both decoders have. -/
def emplaceExtra (extra : List (List Char × List Char)) :
    List (List Char × Document) → Except Error (List (List Char × List Char))
  | [] => .ok extra
  | (key, value) :: rest =>
    match value.string? with
    | none => .error
        (decodeError .configInvalid "infer request: metadata.extra values must be strings")
    | some text => emplaceExtra (emplace extra key text) rest

/-! ## The binary frame -/

/-- `parse_optional_metadata_string`. -/
def parseOptionalMetadataString (metadata : Document) (field : String) :
    Except Error (Option (List Char)) :=
  match stringField metadata field with
  | none => .ok none
  | some value =>
    if value = [] then
      .error (decodeError .configInvalid ("infer request: metadata." ++ field ++ " empty"))
    else .ok (some value)

/-- `parse_metadata_extra`. -/
def parseMetadataExtra (metadata : Document) : Except Error (List (List Char × List Char)) :=
  match metadata.find "extra".toList with
  | some (.object members) => emplaceExtra [] members
  | _ => .ok []

/-- `parse_metadata_object`. -/
def parseMetadataObject (metadata : Document) : Except Error RequestMetadata := do
  let correlationId ← parseOptionalMetadataString metadata "correlation_id"
  let actionChunkId ← parseOptionalMetadataString metadata "action_chunk_id"
  let extra ← parseMetadataExtra metadata
  return { correlationId := correlationId
           actionChunkId := actionChunkId
           actionChunkSequence := i64Field metadata "action_chunk_sequence"
           staleAfterSequence := i64Field metadata "stale_after_sequence"
           extra := extra }

/-- The metadata of a frame, if its document has an object of them. -/
def frameMetadata (root : Document) : Except Error RequestMetadata :=
  match objectField root "metadata" with
  | some metadata => parseMetadataObject metadata
  | none => .ok {}

/-- `deadline_ms`, as both decoders read it. -/
def deadlineMs (root : Document) : Except Error (Option ℤ) :=
  match i64Field root "deadline_ms" with
  | none => .ok none
  | some v =>
    if v ≤ 0 then .error (decodeError .configInvalid "infer request: deadline_ms must be > 0")
    else .ok (some v)

/-- `parse_request_metadata`: the metadata and the deadline. -/
def parseRequestMetadata (root : Document) : Except Error (RequestMetadata × Option ℤ) := do
  let metadata ← frameMetadata root
  let relativeDeadline ← deadlineMs root
  return (metadata, relativeDeadline)

/-- One word of a tensor that may not be negative. -/
def nonnegativeWord (t : Document) (field : String) : Except Error ℕ :=
  match i64Field t field with
  | none => .ok 0
  | some v =>
    if v < 0 then .error (decodeError .configInvalid
      ("infer request: input.tensor." ++ field ++ " must be >= 0"))
    else .ok (toSize v)

/-- The integers of a shape. -/
def shapeEntries : List Document → Except Error (List ℤ)
  | [] => .ok []
  | s :: rest =>
    match s.integer? with
    | none => .error (decodeError .configInvalid
        "infer request: input.tensor.shape entries must be integers")
    | some i => do
      let entries ← shapeEntries rest
      return toI64 i :: entries

/-- The element type of a tensor, as both decoders read it. -/
def tensorDtype (t : Document) : Except Error DType :=
  match stringField t "dtype" with
  | some name => parseDtype name
  | none => .error (decodeError .configInvalid "infer request: input.tensor.dtype missing")

/-- The layout of a tensor, row-major where none is given. -/
def tensorLayout (t : Document) : Except Error Layout :=
  match stringField t "layout" with
  | some name => parseLayout name
  | none => .ok .rowMajor

/-- The shape of a tensor. -/
def tensorShape (t : Document) : Except Error (List ℤ) :=
  match arrayField t "shape" with
  | some (item :: items) => shapeEntries (item :: items)
  | _ => .error (decodeError .configInvalid "infer request: input.tensor.shape missing")

/-- `parse_tensor_view_json`. -/
def parseTensorViewJson (t : Document) : Except Error TensorView := do
  let dtype ← tensorDtype t
  let layout ← tensorLayout t
  let shape ← tensorShape t
  let byteOffset ← nonnegativeWord t "byte_offset"
  let byteSize ← nonnegativeWord t "byte_size"
  TensorView.create dtype shape layout byteOffset byteSize

/-- `parse_request_metadata_root`: the request without its inputs, which are
some. -/
def parseRequestMetadataRoot (root : Document) : Except Error DecodedInferRequest := do
  checkRoot root
  checkSchemaVersion root
  let requestId ← requiredString root "request_id"
  let endpoint ← requiredString root "endpoint"
  let _ ← inputItems root
  let (metadata, relativeDeadline) ← parseRequestMetadata root
  return { requestId := requestId, endpoint := endpoint, metadata := metadata
           relativeDeadline := relativeDeadline }

/-- `read_nonnegative_size`. -/
def readNonnegativeSize (item : Document) (field : String) : Except Error ℕ :=
  match i64Field item field with
  | none => .error (decodeError .configInvalid ("infer request: input." ++ field ++ " missing"))
  | some v =>
    if v < 0 then
      .error (decodeError .configInvalid ("infer request: input." ++ field ++ " must be >= 0"))
    else .ok (toSize v)

/-- The name of an input, as both decoders read it. -/
def inputName (item : Document) : Except Error (List Char) :=
  if !item.isObject then
    .error (decodeError .configInvalid "infer request: input must be an object")
  else
    match stringField item "name" with
    | none => .error (decodeError .configInvalid "infer request: input.name missing")
    | some [] => .error (decodeError .configInvalid "infer request: input.name empty")
    | some (c :: name) => .ok (c :: name)

/-- The tensor object of an input. -/
def inputTensor (item : Document) : Except Error Document :=
  match objectField item "tensor" with
  | some t => .ok t
  | none => .error (decodeError .configInvalid "infer request: input.tensor missing")

/-- The declared window of a tensor fits into as many bytes. -/
def checkWindow (who : String) (view : TensorView) (size : ℕ) : Except Error Unit :=
  if view.byteSize > word64 - 1 - view.byteOffset then
    .error (decodeError .shapeMismatch (who ++ ": declared tensor window offset + size overflows"))
  else if size < view.byteOffset + view.byteSize then
    .error (decodeError .shapeMismatch
      (who ++ ": payload bytes (" ++ toString size ++ ") shorter than declared tensor window (" ++
        toString (view.byteOffset + view.byteSize) ++ ")"))
  else .ok ()

/-- A round of the loop of `decode_binary_infer_request`. -/
def decodeBinaryInput (payload : List UInt8) (item : Document) : Except Error DecodedInput := do
  let name ← inputName item
  let t ← inputTensor item
  let view ← parseTensorViewJson t
  let offset ← readNonnegativeSize item "payload_offset"
  let size ← readNonnegativeSize item "payload_size"
  refuseIf (offset > payload.length ∨ size > payload.length - offset)
    (decodeError .shapeMismatch "binary infer request: input payload window exceeds body")
  checkWindow "binary infer request" view size
  return ⟨name, (payload.drop offset).take size, view⟩

/-- `kBinaryInferMagic`. -/
def kBinaryInferMagic : List UInt8 := [0x54, 0x50, 0x49, 0x4E, 0x46, 0x45, 0x52, 0x31]

/-- `read_u32_le`. -/
def readU32Le : List UInt8 → ℕ
  | b₀ :: b₁ :: b₂ :: b₃ :: _ =>
    b₀.toNat ||| (b₁.toNat <<< 8) ||| (b₂.toNat <<< 16) ||| (b₃.toNat <<< 24)
  | _ => 0

/-- `append_u32_le`. -/
def appendU32Le (value : ℕ) : List UInt8 :=
  [UInt8.ofNat (value &&& 0xFF), UInt8.ofNat ((value >>> 8) &&& 0xFF),
   UInt8.ofNat ((value >>> 16) &&& 0xFF), UInt8.ofNat ((value >>> 24) &&& 0xFF)]

section Decoders

variable (parse : List UInt8 → Except (List Char) Document)

/-- `json::parse` under the error text of a decoder. -/
def parseJson (who : String) (text : List UInt8) : Except Error Document :=
  match parse text with
  | .error what => .error (decodeError .configInvalid (who ++ String.ofList what))
  | .ok root => .ok root

/-- `decode_binary_infer_request`. -/
def decodeBinaryInferRequest (body : List UInt8) : Except Error DecodedInferRequest := do
  let headerSize := kBinaryInferMagic.length + 4
  refuseIf (body.length < headerSize)
    (decodeError .configInvalid "binary infer request: truncated header")
  refuseIf (body.take kBinaryInferMagic.length ≠ kBinaryInferMagic)
    (decodeError .configInvalid "binary infer request: bad magic")
  let metadataLen := readU32Le (body.drop kBinaryInferMagic.length)
  refuseIf (metadataLen > body.length - headerSize)
    (decodeError .configInvalid "binary infer request: truncated metadata")
  let metadataText := (body.drop headerSize).take metadataLen
  let payload := body.drop (headerSize + metadataLen)
  let root ← parseJson parse "binary infer request: metadata JSON parse error: " metadataText
  let out ← parseRequestMetadataRoot root
  let inputs ← ((arrayField root "inputs").getD []).mapM (decodeBinaryInput payload)
  return { out with inputs := inputs }

/-! ## The JSON document -/

/-- A text of the metadata, as `decode_infer_request` reads it. -/
def metadataString (m : Document) (field : String) : Except Error (Option (List Char)) :=
  match stringField m field with
  | some v =>
    if v = [] then
      .error (decodeError .configInvalid ("infer request: metadata." ++ field ++ " empty"))
    else .ok (some v)
  | none => .ok none

/-- `metadata.extra`, as `decode_infer_request` reads it. -/
def metadataExtra (m : Document) : Except Error (List (List Char × List Char)) :=
  match objectField m "extra" with
  | some (.object members) => emplaceExtra [] members
  | _ => .ok []

/-- The metadata of `decode_infer_request`. -/
def decodeMetadata (root : Document) : Except Error RequestMetadata :=
  match objectField root "metadata" with
  | none => .ok {}
  | some m => do
    let correlationId ← metadataString m "correlation_id"
    let actionChunkId ← metadataString m "action_chunk_id"
    let actionChunkSequence := i64Field m "action_chunk_sequence"
    let staleAfterSequence := i64Field m "stale_after_sequence"
    let extra ← metadataExtra m
    return { correlationId := correlationId
             actionChunkId := actionChunkId
             actionChunkSequence := actionChunkSequence
             staleAfterSequence := staleAfterSequence
             extra := extra }

/-- One word of a tensor, cast without a check of its sign. -/
def castWord (t : Document) (field : String) : ℕ :=
  match i64Field t field with
  | some v => toSize v
  | none => 0

/-- The tensor of an input of `decode_infer_request`. -/
def decodeTensor (t : Document) : Except Error TensorView := do
  let dtype ← tensorDtype t
  let layout ← tensorLayout t
  let shape ← tensorShape t
  let byteOffset := castWord t "byte_offset"
  let byteSize := castWord t "byte_size"
  TensorView.create dtype shape layout byteOffset byteSize

/-- `payload_b64`. -/
def payloadText (item : Document) : Except Error (List Char) :=
  match stringField item "payload_b64" with
  | some text => .ok text
  | none => .error (decodeError .configInvalid "infer request: input.payload_b64 missing")

/-- A round of the loop of `decode_infer_request`. -/
def decodeInput (item : Document) : Except Error DecodedInput := do
  let name ← inputName item
  let t ← inputTensor item
  let view ← decodeTensor t
  let text ← payloadText item
  let bytes ← base64Decode text
  checkWindow "infer request" view bytes.length
  return ⟨name, bytes, view⟩

/-- `decode_infer_request`. -/
def decodeInferRequest (body : List UInt8) : Except Error DecodedInferRequest := do
  let root ← parseJson parse "infer request: JSON parse error: " body
  checkRoot root
  checkSchemaVersion root
  let requestId ← requiredString root "request_id"
  let endpoint ← requiredString root "endpoint"
  let items ← inputItems root
  let metadata ← decodeMetadata root
  let relativeDeadline ← deadlineMs root
  let inputs ← items.mapM decodeInput
  return { requestId := requestId, endpoint := endpoint, metadata := metadata
           relativeDeadline := relativeDeadline, inputs := inputs }

end Decoders

end Serialization

end Tensorplate
