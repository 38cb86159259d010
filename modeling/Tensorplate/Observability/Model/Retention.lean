import Mathlib.Algebra.GroupWithZero.Nat
import Mathlib.Data.Nat.Notation

/-!
# Diagnostics retention

`DiagnosticsRetention`: the bounded queue of log events behind the mutex,
and its file sink. Producers call `enqueue` at any time; the service's loop
flushes, and between its `drain` and its writing the producers go on. The
log's events are of any type, `validate_payload` and `serde_json::to_vec`
are parameters, and what the file system does is an argument. `arrived`,
`since`, `taken` and `pieces` are kept for the reader.
-/

namespace Tensorplate

namespace Observability

/-- `MAX_QUEUE_CAPACITY`. -/
def maxQueueCapacity : ℕ := 8192

/-- `RetentionDropPolicy`. -/
inductive RetentionDropPolicy
  | dropOldest
  | dropIncoming
  deriving DecidableEq, Repr

/-- `RetentionConfig`; of the path, whether there is one. -/
structure RetentionConfig where
  queueCapacity : UInt32 := 1024
  dropPolicy : RetentionDropPolicy := .dropOldest
  filePath : Bool := false
  rotateBytes : ℕ := 1024 * 1024
  deriving DecidableEq

/-- `effective_capacity`. -/
def RetentionConfig.effectiveCapacity (config : RetentionConfig) : ℕ :=
  max (min config.queueCapacity.toNat maxQueueCapacity) 1

/-- `RetentionCounters`. -/
structure RetentionCounters where
  enqueued : ℕ := 0
  droppedQueueFull : ℕ := 0
  droppedRedacted : ℕ := 0
  fileRotations : ℕ := 0
  fileWriteErrors : ℕ := 0
  drains : ℕ := 0
  deriving DecidableEq, Repr

/-- `RetentionState`. -/
structure RetentionState (E : Type) where
  queue : List E := []
  counters : RetentionCounters := {}
  fileWritten : ℕ := 0
  deriving DecidableEq, Repr

/-- What a log event is: `validate_payload` and `serde_json::to_vec`. -/
structure LogFormat (E : Type) where
  validatePayload : E → Option E
  toVec : E → Except String (List UInt8)

variable {E : Type}

/-- The part of `enqueue` behind the validation. -/
def RetentionState.push (config : RetentionConfig) (state : RetentionState E) (event : E) :
    RetentionState E × Bool :=
  let counters := { state.counters with enqueued := state.counters.enqueued + 1 }
  if state.queue.length < config.effectiveCapacity then
    ({ state with queue := state.queue ++ [event], counters := counters }, true)
  else
    let counters := { counters with droppedQueueFull := counters.droppedQueueFull + 1 }
    match config.dropPolicy with
    | .dropOldest =>
      ({ state with queue := state.queue.tail ++ [event], counters := counters }, true)
    | .dropIncoming => ({ state with counters := counters }, false)

/-- `enqueue`. -/
def RetentionState.enqueue (F : LogFormat E) (config : RetentionConfig) (state : RetentionState E)
    (event : E) : RetentionState E × Bool :=
  match F.validatePayload event with
  | none =>
    ({ state with counters := { state.counters with
        droppedRedacted := state.counters.droppedRedacted + 1 } }, false)
  | some event => state.push config event

/-- `drain`. -/
def RetentionState.drain (state : RetentionState E) : RetentionState E × List E :=
  ({ state with
      queue := []
      counters := { state.counters with
        drains := state.counters.drains + if state.queue.isEmpty then 0 else 1 } }, state.queue)

/-- The JSON lines of a flush. -/
def body (F : LogFormat E) : List E → Except String (List UInt8)
  | [] => .ok []
  | event :: rest => do
    let line ← F.toVec event
    let more ← body F rest
    .ok (line ++ [10] ++ more)

/-- What the file system makes of a flush: whether the rename of a rotation
and the open succeed, and where a write that fails breaks off. -/
structure Disk where
  renamed : Bool := true
  opened : Bool := true
  brokenOff : Option ℕ := none

/-- The retention, its files and the flush under way. -/
structure Retention (E : Type) where
  state : RetentionState E := {}
  file : Option (List UInt8) := none
  rotated : Option (List UInt8) := none
  /-- What a flush has drained and not written. -/
  flushing : Option (List E) := none
  arrived : List E := []
  /-- The events that arrived since the last drain. -/
  since : List E := []
  taken : List E := []
  /-- What the file was made of, one part for each flush into it. -/
  pieces : List (List UInt8) := []

namespace Retention

/-- The state behind a `drain`. -/
def drained (r : Retention E) : Retention E :=
  { r with state := r.state.drain.1, since := [], taken := r.taken ++ r.state.drain.2 }

/-- `rotate`; nothing where the rename fails. -/
def rotate (r : Retention E) (renamed : Bool) : Option (Retention E) :=
  let counted (r : Retention E) : Retention E := { r with state := { r.state with
    counters := { r.state.counters with fileRotations := r.state.counters.fileRotations + 1 } } }
  match r.file with
  | none => some (counted r)
  | some bytes =>
    if renamed then some (counted { r with file := none, rotated := some bytes, pieces := [] })
    else none

/-- `bump_file_write_error`. -/
def bumpFileWriteError (r : Retention E) : Retention E :=
  { r with state := { r.state with counters := { r.state.counters with
      fileWriteErrors := r.state.counters.fileWriteErrors + 1 } } }

/-- The open and the write of `flush_to_file`. -/
def append (r : Retention E) (bytes : List UInt8) (disk : Disk) : Retention E :=
  if !disk.opened then r.bumpFileWriteError
  else
    let onto (r : Retention E) (part : List UInt8) : Retention E :=
      { r with file := some (r.file.getD [] ++ part), pieces := r.pieces ++ [part] }
    match disk.brokenOff with
    | some k => (onto r (bytes.take k)).bumpFileWriteError
    | none => onto { r with state := { r.state with
        fileWritten := r.state.fileWritten + bytes.length } } bytes

/-- `flush_to_file` behind its `drain`. -/
def flush (F : LogFormat E) (config : RetentionConfig) (r : Retention E) (events : List E)
    (disk : Disk) : Retention E :=
  match body F events with
  | .error _ => r
  | .ok bytes =>
    let projected := (r.file.getD []).length + bytes.length
    if projected > config.rotateBytes then
      match r.rotate disk.renamed with
      | none => r
      | some r => r.append bytes disk
    else r.append bytes disk

inductive Action (E : Type)
  | enqueue (event : E)
  | drain
  /-- `flush_to_file` up to its `drain`. -/
  | flushBegins
  | flushEnds (disk : Disk)

/-- A step of a producer or of the service's loop. -/
def step (F : LogFormat E) (config : RetentionConfig) (r : Retention E) :
    Action E → Option (Retention E)
  | .enqueue event =>
    let arrives := (F.validatePayload event).toList
    some { r with
      state := (r.state.enqueue F config event).1
      arrived := r.arrived ++ arrives, since := r.since ++ arrives }
  | .drain => some r.drained
  | .flushBegins =>
    if !config.filePath || r.flushing.isSome then none
    else if r.state.queue.isEmpty then some r.drained
    else some { r.drained with flushing := some r.state.queue }
  | .flushEnds disk =>
    match r.flushing with
    | none => none
    | some events => some { r.flush F config events disk with flushing := none }

end Retention

end Observability

end Tensorplate
