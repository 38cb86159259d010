import Tensorplate.Sidecar.Model.Codec

/-!
# Frames over the socket

The two directions of the socket between a job channel and its sidecar.
Either side writes its frames one at a time, the channel's writer thread by
`write_all` and the sidecar's threads by `_write_frame` under a lock; a send
takes any part of what is left. A write that fails is the last of its side.
The sidecar keeps what it received in `_read_buf` and takes frames from its
front; the channel's reader asks for exactly the bytes it needs. A receive
gives any part of what has arrived. `sent` and `read` are kept for the
reader: the frames whose write began, and those read.
-/

namespace Tensorplate

namespace Sidecar

namespace Codec

variable {H : Type}

/-- One direction: what the writer has left of its frame, whether a write
failed, and the bytes that were sent and not received. -/
structure Pipe where
  unsent : List UInt8 := []
  closed : Bool := false
  way : List UInt8 := []
  deriving DecidableEq, Repr

namespace Pipe

/-- The write of a frame begins. -/
def write (p : Pipe) (bytes : List UInt8) : Option Pipe :=
  if p.closed || !p.unsent.isEmpty then none else some { p with unsent := bytes }

/-- `send`, of some of the bytes. -/
def send (p : Pipe) (count : ℕ) : Option Pipe :=
  if p.closed || count = 0 || count > p.unsent.length then none
  else some { p with unsent := p.unsent.drop count, way := p.way ++ p.unsent.take count }

/-- The write fails or stalls. -/
def fails (p : Pipe) : Option Pipe := if p.unsent.isEmpty then none else some { p with closed := true }

/-- `recv`, of some of the bytes. -/
def recv (p : Pipe) (count : ℕ) : Option (List UInt8 × Pipe) :=
  if count = 0 || count > p.way.length then none
  else some (p.way.take count, { p with way := p.way.drop count })

end Pipe

/-! ## From the channel to the sidecar -/

/-- The channel writes and the sidecar reads. -/
structure Outbound (H : Type) where
  pipe : Pipe := {}
  readBuf : List UInt8 := []
  /-- What ended the reader. -/
  stopped : Option FrameFault := none
  sent : List SidecarFrame := []
  read : List (Frame H) := []

namespace Outbound

/-- The size of a receive. -/
def kReceive : ℕ := 65536

/-- `write_loop` writes the next frame of the outbox. -/
def writes (x : Outbound H) (frame : SidecarFrame) : Option (Outbound H) :=
  match encodeFrame frame with
  | .error _ => none
  | .ok bytes => (x.pipe.write bytes).map fun pipe =>
      { x with pipe := pipe, sent := x.sent ++ [frame] }

/-- A turn of `_read_one_frame`; a receive gives so many bytes. -/
def turns (J : Json H) (x : Outbound H) (count : ℕ) : Option (Outbound H) :=
  if x.stopped.isSome then none
  else
    match decodeOne J x.readBuf with
    | .ok (frame, consumed) =>
      some { x with readBuf := x.readBuf.drop consumed, read := x.read ++ [frame] }
    | .error (.incomplete _) =>
      if count > kReceive then none
      else (x.pipe.recv count).map fun (chunk, pipe) =>
        { x with pipe := pipe, readBuf := x.readBuf ++ chunk }
    | .error fault => some { x with stopped := some fault }

inductive Action
  | writes (frame : SidecarFrame)
  | sends (count : ℕ)
  | fails
  | turns (count : ℕ)

/-- A step of the direction. -/
def step (J : Json H) (x : Outbound H) : Action → Option (Outbound H)
  | .writes frame => x.writes frame
  | .sends count => (x.pipe.send count).map fun pipe => { x with pipe := pipe }
  | .fails => x.pipe.fails.map fun pipe => { x with pipe := pipe }
  | .turns count => x.turns J count

end Outbound

/-! ## From the sidecar to the channel -/

/-- What `read_frame` reads. -/
inductive Reading
  | words
  | body
  deriving DecidableEq, Repr

/-- The sidecar writes and the channel reads. -/
structure Inbound (H : Type) where
  pipe : Pipe := {}
  reading : Reading := .words
  /-- The buffer of `read_frame`, as far as it is filled, and its size. -/
  buf : List UInt8 := []
  want : ℕ := kFramePrefixBytes
  /-- What ended the reader. -/
  stopped : Option Error := none
  sent : List (Frame H) := []
  read : List SidecarFrame := []

namespace Inbound

/-- `_write_frame`. -/
def writes (J : Json H) (x : Inbound H) (frame : Frame H) : Option (Inbound H) :=
  match encode J frame with
  | .error _ => none
  | .ok bytes => (x.pipe.write bytes).map fun pipe =>
      { x with pipe := pipe, sent := x.sent ++ [frame] }

/-- A turn of `read_frame`: `read_exact` receives so many bytes, or what it
read is looked at. -/
def turns (maxPayloadBytes : ℕ) (x : Inbound H) (count : ℕ) : Option (Inbound H) :=
  if x.stopped.isSome then none
  else if x.buf.length < x.want then
    if count > x.want - x.buf.length then none
    else (x.pipe.recv count).map fun (chunk, pipe) => { x with pipe := pipe, buf := x.buf ++ chunk }
  else
    match x.reading with
    | .words =>
      let hdrLen := readBeU32 x.buf 8
      let pldLen := readBeU32 x.buf 12
      if readBeU32 x.buf 0 ≠ kFrameMagic then
        some { x with stopped := some ⟨.inferenceFailed, "sidecar frame magic mismatch", none⟩ }
      else if readBeU32 x.buf 4 ≠ kProtocolWireVersion then
        let text := s!"sidecar wire version {readBeU32 x.buf 4} unsupported"
        some { x with stopped := some ⟨.inferenceFailed, text, none⟩ }
      else if hdrLen > kMaxHeaderLen ∨ pldLen > kMaxPayloadLen ∨ pldLen > maxPayloadBytes then
        some { x with stopped := some ⟨.inferenceFailed, "sidecar frame size exceeds limit", none⟩ }
      else some { x with reading := .body, want := kFramePrefixBytes + hdrLen + pldLen }
    | .body =>
      match decodeFrame x.buf with
      | .error e => some { x with stopped := some e }
      | .ok (frame, _) => some { x with
          reading := .words, buf := [], want := kFramePrefixBytes, read := x.read ++ [frame] }

inductive Action (H : Type)
  | writes (frame : Frame H)
  | sends (count : ℕ)
  | fails
  | turns (count : ℕ)

/-- A step of the direction. -/
def step (J : Json H) (maxPayloadBytes : ℕ) (x : Inbound H) : Action H → Option (Inbound H)
  | .writes frame => x.writes J frame
  | .sends count => (x.pipe.send count).map fun pipe => { x with pipe := pipe }
  | .fails => x.pipe.fails.map fun pipe => { x with pipe := pipe }
  | .turns count => x.turns maxPayloadBytes count

end Inbound

end Codec

end Sidecar

end Tensorplate
