import Tensorplate.Core.Error

/-!
# The sidecar's frames

Every message between the adapter and its sidecar is one frame: four
big-endian words (magic, version, and the sizes of the header and the
payload), the header's JSON and the payload. The adapter has one copy of the
codec in `sidecar_codec.cpp`, the sidecar another in `codec.py`. The JSON
library of the sidecar is a parameter.
-/

namespace Tensorplate

namespace Sidecar

namespace Codec

/-- `kFramePrefixBytes`. -/
def kFramePrefixBytes : ℕ := 16

/-- `kProtocolWireVersion`. -/
def kProtocolWireVersion : ℕ := 1

/-- `kFrameMagic`. -/
def kFrameMagic : ℕ := 0x54505343

/-- `kMaxHeaderLen`. -/
def kMaxHeaderLen : ℕ := 2 ^ 20

/-- `kMaxPayloadLen`. -/
def kMaxPayloadLen : ℕ := 256 * 2 ^ 20

/-- `write_be_u32`. -/
def writeBeU32 (value : ℕ) : List UInt8 :=
  [UInt8.ofNat (value / 2 ^ 24), UInt8.ofNat (value / 2 ^ 16), UInt8.ofNat (value / 2 ^ 8),
    UInt8.ofNat value]

/-- `read_be_u32`, of the four bytes at an offset. -/
def readBeU32 (bytes : List UInt8) (offset : ℕ) : ℕ :=
  match bytes.drop offset with
  | b₀ :: b₁ :: b₂ :: b₃ :: _ =>
    b₀.toNat * 2 ^ 24 + b₁.toNat * 2 ^ 16 + b₂.toNat * 2 ^ 8 + b₃.toNat
  | _ => 0

/-- `SidecarFrame`. -/
structure SidecarFrame where
  jsonHeader : List UInt8
  payload : List UInt8
  deriving DecidableEq, Repr

/-- The four words before a header and a payload of these sizes. -/
def frameWords (hdrLen pldLen : ℕ) : List UInt8 :=
  writeBeU32 kFrameMagic ++ writeBeU32 kProtocolWireVersion ++ writeBeU32 hdrLen ++
    writeBeU32 pldLen

/-! ## The adapter's copy -/

/-- `encode_frame`. -/
def encodeFrame (frame : SidecarFrame) : Except Error (List UInt8) :=
  if frame.jsonHeader.length > kMaxHeaderLen then
    .error ⟨.configInvalid, "sidecar frame header exceeds kMaxHeaderLen", none⟩
  else if frame.payload.length > kMaxPayloadLen then
    .error ⟨.configInvalid, "sidecar frame payload exceeds kMaxPayloadLen", none⟩
  else
    .ok (frameWords frame.jsonHeader.length frame.payload.length ++ frame.jsonHeader ++
      frame.payload)

/-- The header and the payload of these sizes behind the prefix. -/
def frameAt (bytes : List UInt8) (hdrLen pldLen : ℕ) : SidecarFrame where
  jsonHeader := (bytes.drop kFramePrefixBytes).take hdrLen
  payload := (bytes.drop (kFramePrefixBytes + hdrLen)).take pldLen

/-- `decode_frame`, with the bytes it consumed. -/
def decodeFrame (bytes : List UInt8) : Except Error (SidecarFrame × ℕ) :=
  if bytes.length < kFramePrefixBytes then .error ⟨.notReady, "incomplete frame: prefix", none⟩
  else if readBeU32 bytes 0 ≠ kFrameMagic then
    .error ⟨.configInvalid, "sidecar frame magic mismatch", none⟩
  else if readBeU32 bytes 4 ≠ kProtocolWireVersion then
    .error ⟨.configInvalid, s!"sidecar frame protocol version {readBeU32 bytes 4}" ++
      s!" is not supported (expected {kProtocolWireVersion})", none⟩
  else
    let hdrLen := readBeU32 bytes 8
    let pldLen := readBeU32 bytes 12
    if hdrLen > kMaxHeaderLen then
      .error ⟨.configInvalid, "sidecar frame header exceeds kMaxHeaderLen", none⟩
    else if pldLen > kMaxPayloadLen then
      .error ⟨.configInvalid, "sidecar frame payload exceeds kMaxPayloadLen", none⟩
    else
      let total := kFramePrefixBytes + hdrLen + pldLen
      if bytes.length < total then .error ⟨.notReady, "incomplete frame: body", none⟩
      else .ok (frameAt bytes hdrLen pldLen, total)

theorem decodeFrame_consumed {bytes : List UInt8} {frame : SidecarFrame} {step : ℕ}
    (h : decodeFrame bytes = .ok (frame, step)) : 0 < step ∧ step ≤ bytes.length := by
  unfold decodeFrame at h
  dsimp only at h
  split_ifs at h with _ _ _ _ _ htotal
  obtain ⟨-, rfl⟩ := Prod.mk.inj (Except.ok.inj h)
  unfold kFramePrefixBytes at *
  omega

/-- `decode_frames`, with the bytes it consumed. -/
def decodeFrames (bytes : List UInt8) : Except Error (List SidecarFrame × ℕ) :=
  match bytes with
  | [] => .ok ([], 0)
  | byte :: rest =>
    match _h : decodeFrame (byte :: rest) with
    | .error e =>
      -- A part of a frame is a stop signal, not an error.
      if e.code = .notReady then .ok ([], 0) else .error e
    | .ok (frame, step) =>
      match decodeFrames ((byte :: rest).drop step) with
      | .error e => .error e
      | .ok (frames, consumed) => .ok (frame :: frames, step + consumed)
termination_by bytes.length
decreasing_by
  have hstep := decodeFrame_consumed _h
  rw [List.length_drop]
  omega

/-! ## The sidecar's copy -/

/-- `json`, as `codec.py` calls it: the text of a header object, and of a
text the object, nothing where it is another value, or the error's text. -/
structure Json (H : Type) where
  dumps : H → List UInt8
  loads : List UInt8 → Except String (Option H)

/-- The `SidecarFrame` of `codec.py`. -/
structure Frame (H : Type) where
  header : H
  payload : List UInt8
  deriving DecidableEq, Repr

/-- What `decode_one` raises. -/
inductive FrameFault
  /-- `IncompleteFrame`. -/
  | incomplete (text : String)
  /-- `FrameError`. -/
  | error (text : String)
  deriving DecidableEq, Repr

variable {H : Type}

/-- `encode`; an error is the text of the `FrameError` it raises. -/
def encode (J : Json H) (frame : Frame H) : Except String (List UInt8) :=
  let headerBytes := J.dumps frame.header
  if headerBytes.length > kMaxHeaderLen then
    .error s!"sidecar frame header exceeds {kMaxHeaderLen}-byte limit"
  else if frame.payload.length > kMaxPayloadLen then
    .error s!"sidecar frame payload exceeds {kMaxPayloadLen}-byte limit"
  else .ok (frameWords headerBytes.length frame.payload.length ++ headerBytes ++ frame.payload)

/-- A number as eight hexadecimal digits. -/
def hex08 (n : ℕ) : String :=
  let digits := Nat.toDigits 16 n
  String.ofList (List.replicate (8 - digits.length) '0' ++ digits)

/-- `decode_one`. -/
def decodeOne (J : Json H) (buf : List UInt8) : Except FrameFault (Frame H × ℕ) :=
  if buf.length < kFramePrefixBytes then .error (.incomplete "waiting on prefix")
  else if readBeU32 buf 0 ≠ kFrameMagic then
    .error (.error (s!"sidecar frame magic 0x{hex08 (readBeU32 buf 0)}" ++
      s!" != expected 0x{hex08 kFrameMagic}"))
  else if readBeU32 buf 4 ≠ kProtocolWireVersion then
    .error (.error (s!"sidecar protocol wire version {readBeU32 buf 4}" ++
      s!" != supported {kProtocolWireVersion}"))
  else
    let hdrLen := readBeU32 buf 8
    let pldLen := readBeU32 buf 12
    if hdrLen > kMaxHeaderLen then
      .error (.error s!"sidecar frame header_len={hdrLen} exceeds {kMaxHeaderLen}")
    else if pldLen > kMaxPayloadLen then
      .error (.error s!"sidecar frame payload_len={pldLen} exceeds {kMaxPayloadLen}")
    else
      let total := kFramePrefixBytes + hdrLen + pldLen
      if buf.length < total then .error (.incomplete "waiting on body")
      else
        match J.loads (frameAt buf hdrLen pldLen).jsonHeader with
        | .error text =>
          .error (.error s!"sidecar frame header is not valid UTF-8 JSON: {text}")
        | .ok none => .error (.error "sidecar frame header must be a JSON object")
        | .ok (some header) => .ok (⟨header, (frameAt buf hdrLen pldLen).payload⟩, total)

end Codec

end Sidecar

end Tensorplate
