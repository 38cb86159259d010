import Tensorplate.Lib.Runs
import Tensorplate.Speech.Model.Output

/-!
# The write path of a call

`CallOutput` sends a session's queued output with one write in flight and
ends the call once. What to do next is decided under its lock and done
outside it, so any number of callers may stand between the two. A world
is the call's write path with its queue, the callers under way, what the
transport still owes and the listener's places for refused calls. The log
records what was taken, written, answered, confirmed, told and finished.
-/

namespace Tensorplate

namespace Stream

open Serving Lib

/-- `grpc::StatusCode`. -/
inductive StatusCode
  | ok
  | cancelled
  | unknown
  | invalidArgument
  | deadlineExceeded
  | notFound
  | alreadyExists
  | permissionDenied
  | resourceExhausted
  | failedPrecondition
  | aborted
  | outOfRange
  | unimplemented
  | internal
  | unavailable
  | dataLoss
  | unauthenticated
  deriving DecidableEq, Repr

/-- `grpc::Status`. -/
structure Status where
  code : StatusCode := .ok
  message : String := ""
  deriving DecidableEq, Repr

/-- `grpc::Status::CANCELLED`. -/
def Status.CANCELLED : Status := ⟨.cancelled, ""⟩

/-- The status of a call that took an item with a body of no known kind. -/
def Status.cannotSend : Status := ⟨.internal, "output this server cannot send"⟩

/-- `SessionTotals`. -/
structure SessionTotals where
  inputAudioSamples : ℕ := 0
  inputTextBytes : ℕ := 0
  outputAudioSamples : ℕ := 0
  utterancesCompleted : ℕ := 0
  segmentsCompleted : ℕ := 0
  deriving DecidableEq, Repr

/-- The body of a `ServerEvent`. The write path reads none of what the
lifecycle bodies carry but the totals of a closed session. -/
inductive EventBody (ι : Type)
  | notSet
  | ready (content : ι)
  | accepted (content : ι)
  | status (content : ι)
  | pong (content : ι)
  | cancelAccepted (content : ι)
  | sessionClosed (content : ι) (totals : SessionTotals)
  | partialTranscript (utteranceId revision : ℕ) (text : Text)
  | endpointDetected (utteranceId endSampleOffset : ℕ) (reason : EndpointReason)
  | finalTranscript (utteranceId : ℕ) (segments : List TranscriptSegment)
      (endSampleOffset finalizeSequence : ℕ)
  | audioChunk (segmentId chunkIndex segmentSampleOffset : ℕ) (format : StreamAudioFormat)
      (data : Bytes)
  | segmentCompleted (segmentId totalSamples chunkCount : ℕ)
  | synthesisCompleted (segmentCount totalSamples finalizeSequence : ℕ)
  deriving DecidableEq

/-- `ServerEvent`. -/
structure ServerEvent (ι : Type) where
  sequence : ℕ
  body : EventBody ι
  deriving DecidableEq

/-- The bodies an `OutputItem` may carry: a `WireEvent`, a
`TaskOutputBody`, or one of a class the write path does not know. -/
inductive Body (ι : Type)
  | wireEvent (event : EventBody ι)
  | task (output : TaskOutput)
  | unknown
  deriving DecidableEq

/-- `task_event`. -/
def taskEvent {ι : Type} (output : TaskOutput) (format : StreamAudioFormat) : EventBody ι :=
  match output with
  | .partialTranscript utteranceId revision text => .partialTranscript utteranceId revision text
  | .endpointDetected utteranceId endSampleOffset reason =>
    .endpointDetected utteranceId endSampleOffset reason
  | .finalTranscript utteranceId segments endSampleOffset finalizeSequence =>
    .finalTranscript utteranceId segments endSampleOffset finalizeSequence
  | .audioChunk segmentId chunkIndex segmentSampleOffset pcm =>
    .audioChunk segmentId chunkIndex segmentSampleOffset format pcm
  | .segmentCompleted segmentId totalSamples chunkCount =>
    .segmentCompleted segmentId totalSamples chunkCount
  | .synthesisCompleted segmentCount totalSamples finalizeSequence =>
    .synthesisCompleted segmentCount totalSamples finalizeSequence

/-- `RefusedCalls`. -/
structure RefusedCalls where
  places : ℕ
  held : ℕ := 0
  deriving DecidableEq, Repr

/-- `RefusedCalls::enter`. -/
def RefusedCalls.enter (r : RefusedCalls) : RefusedCalls × Bool :=
  if r.held ≥ r.places then (r, false) else ({ r with held := r.held + 1 }, true)

/-- `RefusedCalls::leave`. -/
def RefusedCalls.leave (r : RefusedCalls) : RefusedCalls := { r with held := r.held - 1 }

/-- `CallOutput::Step`. -/
inductive Step
  | none
  | write
  | finish (status : Status)
  deriving DecidableEq, Repr

/-- `CallOutput`. `writer` and `output` say whether the pointer of that
name is set, `delivered` whether the callback is one. -/
structure CallOutput (ι : Type) where
  writer : Bool := true
  output : Bool := false
  delivered : Bool := false
  writing : Bool := false
  writingKind : OutputKind := .control
  writingSequence : ℕ := 0
  buffer : ServerEvent ι := ⟨0, .notSet⟩
  format : StreamAudioFormat := ⟨.pcmS16Le, 0, 0⟩
  audioSamples : ℕ := 0
  utterances : ℕ := 0
  segments : ℕ := 0
  endStatus : Status := {}
  finishWanted : Option Status := none
  finished : Bool := false
  endedProgressAt : Option TimePoint := none
  cancelled : Bool := false
  refused : Bool := false
  deriving DecidableEq

namespace CallOutput

variable {ι : Type}

/-- `bind`; its queue is the one of the world. -/
def bind (c : CallOutput ι) (delivered : Bool) (format : StreamAudioFormat) : CallOutput ι :=
  if c.output then c else { c with output := true, delivered := delivered, format := format }

/-- `set_end_status`. -/
def setEndStatus (c : CallOutput ι) (status : Status) : CallOutput ι :=
  { c with endStatus := status }

/-- `session_ended`. -/
def sessionEnded (c : CallOutput ι) (now : TimePoint) : CallOutput ι :=
  if c.endedProgressAt.isNone then { c with endedProgressAt := some now } else c

/-- What `encode_locked` adds to the totals for an event it built. -/
def addTotals (c : CallOutput ι) : EventBody ι → CallOutput ι
  | .audioChunk _ _ _ _ data =>
    { c with audioSamples :=
        (c.audioSamples + data.size / (c.format.bytesPerSample * c.format.channels)) % 2 ^ 64 }
  | .finalTranscript _ _ _ _ => { c with utterances := (c.utterances + 1) % 2 ^ 32 }
  | .segmentCompleted _ _ _ => { c with segments := (c.segments + 1) % 2 ^ 32 }
  | _ => c

/-- `encode_locked`: the write path with its totals, and the body to send. -/
def encodeLocked (c : CallOutput ι) : Option (Body ι) → CallOutput ι × Option (EventBody ι)
  | some (.wireEvent event) =>
    match event with
    | .sessionClosed content totals =>
      (c, some (.sessionClosed content { totals with
        outputAudioSamples := c.audioSamples
        utterancesCompleted := c.utterances
        segmentsCompleted := c.segments }))
    | _ => (c, some event)
  | some (.task output) =>
    let event := taskEvent output c.format
    (c.addTotals event, some event)
  | some .unknown => (c, none)
  | none => (c, none)

/-- The locked part of `cancel_if_stalled`: whether the writer is to be
cancelled, and when to ask again. -/
def cancelIfStalled (c : CallOutput ι) (now : TimePoint) :
    CallOutput ι × Bool × Option TimePoint :=
  match c.endedProgressAt with
  | none => (c, false, none)
  | some at_ =>
    if !c.writer || c.cancelled then (c, false, none)
    else
      let due := at_ + SessionBudgets.kOutputNoProgressTimeout
      if now < due then (c, false, some due) else ({ c with cancelled := true }, true, none)

end CallOutput

/-- A caller between two of its steps. -/
inductive Thread
  /-- It decided on a step and is about to run it. -/
  | running (step : Step)
  /-- It holds `cancel_mu_`, and is about to cancel and then run its step. -/
  | cancelling (step : Step)
  /-- `write_done` has read the clock. -/
  | answering (ok : Bool) (now : TimePoint)
  /-- `write_done` has left its first lock. -/
  | telling (ok : Bool) (now : TimePoint) (kind : OutputKind) (confirmed : Bool)
  /-- `write_done` is about to take its second lock. -/
  | settling (ok : Bool) (now : TimePoint) (kind : OutputKind)
  deriving DecidableEq

/-- What is seen of a call. -/
inductive Event (ι : Type)
  | taken (output : SequencedOutput (Body ι))
  | written (event : ServerEvent ι)
  | answered (ok : Bool)
  | confirmed (sequence : ℕ)
  | told (kind : OutputKind)
  | finished (status : Status)
  | cancelled
  | entered
  | left
  deriving DecidableEq

/-- Whether an event ends the call. -/
def Event.isFinished {ι : Type} : Event ι → Bool
  | .finished _ => true
  | _ => false

/-- A call with all it runs among. `others` are the places that other
calls of the listener hold. -/
structure World (ι : Type) where
  out : CallOutput ι := {}
  queue : BoundedOutputQueue (Body ι)
  refusedCalls : RefusedCalls
  threads : List Thread := []
  unanswered : ℕ := 0
  finishAnswered : Bool := false
  others : ℕ := 0
  log : List (Event ι) := []
  deriving DecidableEq

namespace World

variable {ι : Type}

/-- Records an event. -/
def record (w : World ι) (e : Event ι) : World ι := { w with log := w.log ++ [e] }

/-- Adds a caller. -/
def spawn (w : World ι) (t : Thread) : World ι := { w with threads := w.threads ++ [t] }

/-- The end of `next_locked`. -/
def finishLocked (w : World ι) : World ι × Step :=
  match w.out.finishWanted with
  | some status => ({ w with out := { w.out with finished := true } }, .finish status)
  | none => (w, .none)

/-- What `next_locked` does with an item it took. -/
def writeLocked (w : World ι) (next : SequencedOutput (Body ι)) : World ι × Step :=
  match w.out.encodeLocked next.item.body with
  | (out, none) => { w with out := { out with finishWanted := some .cannotSend } }.finishLocked
  | (out, some body) =>
    ({ w with
      out := { out with
        buffer := ⟨next.sequence, body⟩
        writing := true
        writingKind := next.item.kind
        writingSequence := next.sequence } }, .write)

/-- `next_locked`. -/
def nextLocked (w : World ι) : World ι × Step :=
  if !w.out.writer || w.out.writing || w.out.finished then (w, .none)
  else if w.out.finishWanted.isNone && w.out.output then
    match w.queue.take with
    | (queue, some next) => ({ w with queue := queue }.record (.taken next)).writeLocked next
    | (_, none) => w.finishLocked
  else w.finishLocked

/-- Decides on a step and leaves it to its caller to run. -/
def decideNext (w : World ι) : World ι :=
  let (w', step) := w.nextLocked
  w'.spawn (.running step)

/-- `pump`. -/
def pump (w : World ι) : World ι := w.decideNext

/-- `finish`. -/
def finish (w : World ι) (status : Status) : World ι :=
  { w with out := { w.out with
      finishWanted := some (w.out.finishWanted.getD status) } }.decideNext

/-- `refuse` up to its cancel. -/
def refuse (w : World ι) (status : Status) : World ι :=
  if w.out.finishWanted.isSome || !w.out.writer then w
  else
    match w.refusedCalls.enter with
    | (places, true) =>
      { w with
        refusedCalls := places
        out := { w.out with refused := true, finishWanted := some status } }.record .entered
        |>.decideNext
    | (_, false) =>
      let (w', step) := { w with out := { w.out with finishWanted := some .CANCELLED } }.nextLocked
      w'.spawn (.cancelling step)

/-- `detach`. -/
def detach (w : World ι) : World ι :=
  let gone := { w with out := { w.out with writer := false, refused := false } }
  if w.out.refused then
    { gone with refusedCalls := w.refusedCalls.leave }.record .left
  else gone

/-- `run`. -/
def run (w : World ι) : Step → World ι
  | .none => w
  | .write => { w with unanswered := w.unanswered + 1 }.record (.written w.out.buffer)
  | .finish status => w.record (.finished status)

/-- The first lock of `write_done`. -/
def confirm (w : World ι) (ok : Bool) (now : TimePoint) : World ι :=
  let kind := w.out.writingKind
  if ok && w.out.output then
    match w.queue.delivered w.out.writingSequence now with
    | (queue, .ok _) =>
      ({ w with queue := queue }.record (.confirmed w.out.writingSequence)).spawn
        (.telling ok now kind true)
    | (queue, .error _) => { w with queue := queue }.spawn (.telling ok now kind false)
  else w.spawn (.telling ok now kind false)

/-- What `write_done` does outside its locks. -/
def tell (w : World ι) (ok : Bool) (now : TimePoint) (kind : OutputKind) (confirmed : Bool) :
    World ι :=
  (if confirmed && w.out.delivered then w.record (.told kind) else w).spawn (.settling ok now kind)

/-- The status a call is to end with behind an answer. -/
def wantedAfter (out : CallOutput ι) (ok : Bool) (kind : OutputKind) : Option Status :=
  if out.finishWanted.isSome then out.finishWanted
  else if !ok then some .CANCELLED
  else if kind = .terminal then some out.endStatus
  else none

/-- The second lock of `write_done`. -/
def settle (w : World ι) (ok : Bool) (now : TimePoint) (kind : OutputKind) : World ι :=
  { w with out := { w.out with
      writing := false
      endedProgressAt := if ok && w.out.endedProgressAt.isSome then some now
        else w.out.endedProgressAt
      finishWanted := wantedAfter w.out ok kind } }.decideNext

/-- A caller goes on, in the world without it. -/
def advance (w : World ι) : Thread → World ι
  | .running step => w.run step
  | .cancelling step => (w.record .cancelled).spawn (.running step)
  | .answering ok now => w.confirm ok now
  | .telling ok now kind confirmed => w.tell ok now kind confirmed
  | .settling ok now kind => w.settle ok now kind

/-- No caller holds `cancel_mu_`. -/
def cancelFree (w : World ι) : Bool :=
  w.threads.all fun t => match t with
    | .cancelling _ => false
    | _ => true

end World

/-- A call on the write path or its queue, an answer of the transport, a
caller going on, or another call of the listener taking a place or giving
its own back. -/
inductive Action (ι : Type)
  | bind (delivered : Bool) (format : StreamAudioFormat)
  | setEndStatus (status : Status)
  | pump
  | finish (status : Status)
  | refuse (status : Status)
  | detach
  | sessionEnded (now : TimePoint)
  | cancelIfStalled (now : TimePoint)
  | writeDone (ok : Bool) (now : TimePoint)
  | finishDone
  | offer (item : OutputItem (Body ι)) (now : TimePoint)
  | suppress
  | thread (i : ℕ)
  | otherEnters
  | otherLeaves

/-- **A step of the world.** An answer follows what it answers, the writer
goes only behind an answered finish, and `refuse`, `detach` and
`cancel_if_stalled` wait for `cancel_mu_`. -/
def World.step {ι : Type} (w : World ι) : Action ι → Option (World ι)
  | .bind delivered format => some { w with out := w.out.bind delivered format }
  | .setEndStatus status => some { w with out := w.out.setEndStatus status }
  | .pump => some w.pump
  | .finish status => some (w.finish status)
  | .refuse status => if w.cancelFree then some (w.refuse status) else none
  | .detach => if w.cancelFree && w.finishAnswered then some w.detach else none
  | .sessionEnded now => some { w with out := w.out.sessionEnded now }
  | .cancelIfStalled now =>
    if w.cancelFree then
      match w.out.cancelIfStalled now with
      | (out, true, _) => some ({ w with out := out }.spawn (.cancelling .none))
      | (out, false, _) => some { w with out := out }
    else none
  | .writeDone ok now =>
    if 0 < w.unanswered then
      some (({ w with unanswered := w.unanswered - 1 }.record (.answered ok)).spawn
        (.answering ok now))
    else none
  | .finishDone =>
    if w.log.any Event.isFinished then some { w with finishAnswered := true } else none
  | .offer item now => some { w with queue := (w.queue.offer item now).1 }
  | .suppress => some { w with queue := w.queue.suppress }
  | .thread i =>
    match w.threads[i]? with
    | some t => some ({ w with threads := w.threads.eraseIdx i }.advance t)
    | none => none
  | .otherEnters =>
    match w.refusedCalls.enter with
    | (places, true) => some { w with refusedCalls := places, others := w.others + 1 }
    | (_, false) => some w
  | .otherLeaves =>
    if 0 < w.others then
      some { w with refusedCalls := w.refusedCalls.leave, others := w.others - 1 }
    else none

end Stream

end Tensorplate
