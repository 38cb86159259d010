import Tensorplate.Core.Transcript

/-!
# Job events and their order

The typed events of a job and `JobEventSequence`, which judges one job's
events as they come: an event it accepts moves it, an event it refuses
leaves it as it was.
-/

namespace Tensorplate

def kMaxJobProgressEvents : ℕ := 1500

def kMaxJobErrorTextBytes : ℕ := 512

/-- `JobResultKind`. -/
inductive JobResultKind
  | transcript
  | audioChunk
  | vad
  deriving DecidableEq, Repr

/-- `result_kind_for`. -/
def resultKindFor : JobClass → JobResultKind
  | .sttDecode => .transcript
  | .ttsSynthesis => .audioChunk
  | .vadFrames => .vad

/-- `JobResult`: a chunk is named by its buffer. -/
inductive JobResult
  | transcript (transcript : TranscriptResult)
  | audioChunk (buffer byteSize : ℕ)
  | vad (probabilities : List (Option ℚ))
  deriving DecidableEq

namespace JobResult

def kind : JobResult → JobResultKind
  | .transcript _ => .transcript
  | .audioChunk .. => .audioChunk
  | .vad _ => .vad

/-- The buffer a result holds. -/
def buffer : JobResult → Option ℕ
  | .audioChunk b _ => some b
  | _ => none

end JobResult

/-- `JobEventKind`, with what an event of the kind carries. -/
inductive JobEventBody
  | accepted
  | progress (sequence : ℕ) (fragment : JobResult)
  | completed (result : JobResult)
  | failed (error : Error)
  | cancelAcknowledged
  | released
  deriving DecidableEq

/-- `JobEvent`. -/
structure JobEvent where
  identity : JobIdentity
  body : JobEventBody
  deriving DecidableEq

namespace JobEvent

/-- The text fits a `failed` event. -/
def fits (text : String) : Bool := text.utf8ByteSize ≤ kMaxJobErrorTextBytes

/-- `JobEvent::failed`. -/
def failed (identity : JobIdentity) (error : Error) : Except Error JobEvent := do
  JobRequest.validateIdentity identity
  if !fits error.message || !error.context.all fits then
    JobRequest.invalid "error_text_too_large" "failed event error text exceeds 512 bytes"
  .ok ⟨identity, .failed error⟩

/-- `JobEvent::released`. -/
def released (identity : JobIdentity) : Except Error JobEvent := do
  JobRequest.validateIdentity identity
  .ok ⟨identity, .released⟩

/-- The result or fragment an event carries. -/
def result (e : JobEvent) : Option JobResult :=
  match e.body with
  | .progress _ r => some r
  | .completed r => some r
  | _ => none

/-- The error of a `failed` event. -/
def error (e : JobEvent) : Option Error :=
  match e.body with
  | .failed error => some error
  | _ => none

/-- The buffer an event holds. -/
def buffer (e : JobEvent) : Option ℕ := e.result.bind JobResult.buffer

/-- A `completed` or a `failed`. -/
def isTerminal (e : JobEvent) : Bool :=
  match e.body with
  | .completed _ | .failed _ => true
  | _ => false

end JobEvent

/-- What a job's results add up to. -/
structure Totals where
  textBytes : ℕ := 0
  wordTextBytes : ℕ := 0
  tokens : ℕ := 0
  pcmBytes : ℕ := 0
  probabilities : ℕ := 0
  deriving DecidableEq, Repr

/-- The totals with one fragment or result more. -/
def Totals.add (t : Totals) : JobResult → Totals
  | .transcript r =>
    { t with textBytes := t.textBytes + r.text.length, tokens := t.tokens + r.tokens.length,
             wordTextBytes := t.wordTextBytes + (r.words.map fun w => w.text.length).sum }
  | .audioChunk _ byteSize => { t with pcmBytes := t.pcmBytes + byteSize }
  | .vad probabilities => { t with probabilities := t.probabilities + probabilities.length }

/-- A request as a channel takes it: made by the validating factory, with
the limit on its progress events. -/
structure SubmittedJob where
  request : JobRequest
  progressLimit : ℕ
  identity_valid : JobRequest.validateIdentity request.identity = .ok ()

namespace SubmittedJob

def identity (s : SubmittedJob) : JobIdentity := s.request.identity

def jobClass (s : SubmittedJob) : JobClass := s.request.payload.jobClass

end SubmittedJob

/-- `JobEventSequence`. -/
structure JobEventSequence where
  identity : JobIdentity
  resultKind : JobResultKind
  progressLimit : ℕ
  vadFrames : ℕ
  observedAny : Bool := false
  accepted : Bool := false
  cancelRequested : Bool := false
  cancelAcknowledged : Bool := false
  terminal : Bool := false
  released : Bool := false
  progressCount : ℕ := 0
  totals : Totals := {}
  deriving DecidableEq

namespace JobEventSequence

/-- The sequence of a job that begins. -/
def ofRequest (s : SubmittedJob) : JobEventSequence where
  identity := s.identity
  resultKind := resultKindFor s.jobClass
  progressLimit := s.progressLimit
  vadFrames := match s.request.payload with
    | .vadFrames _ _ frameCount _ => frameCount
    | _ => 0

/-- `note_cancel_requested`. -/
def noteCancelRequested (q : JobEventSequence) : JobEventSequence :=
  { q with cancelRequested := true }

/-- `internal::refused`. -/
def refused {α : Type} (reason message : String) : Except Error α :=
  .error (Error.make .inferenceFailed message reason)

/-- `check_result` of a result, `progress` the number of a progress event. -/
def checkResult (q : JobEventSequence) (progress : Option ℕ) (result : JobResult) :
    Except Error Totals :=
  if !q.accepted then refused "not_accepted" "result before accepted"
  else if progress.isSome && q.cancelAcknowledged then
    refused "progress_after_cancel_acknowledged" "progress after cancel_acknowledged"
  else if result.kind ≠ q.resultKind then
    refused "result_kind_mismatch" "result kind differs from the job's"
  else if !progress.all fun n => n = q.progressCount + 1 then
    refused "progress_sequence_gap" "progress_sequence is not consecutive"
  else if progress.isSome && q.progressCount + 1 > q.progressLimit then
    refused "progress_limit_exceeded" "more progress than the job allows"
  else
    let totals := q.totals.add result
    if totals.textBytes > kMaxTranscriptTextBytes ∨ totals.wordTextBytes > kMaxTranscriptTextBytes ∨
        totals.tokens > kMaxTranscriptTokens ∨ totals.pcmBytes > kMaxAudioChunkBytes then
      refused "result_total_exceeded" "job result exceeds a one-result ceiling"
    else if q.resultKind = .vad ∧ (totals.probabilities > q.vadFrames ∨
        (progress.isNone ∧ totals.probabilities ≠ q.vadFrames)) then
      refused "vad_result_count_mismatch" "probabilities do not match the job's frames"
    else .ok totals

/-- The checks of `observe`, in their order; the totals the event leaves. -/
def check (q : JobEventSequence) (e : JobEvent) : Except Error Totals :=
  if e.identity ≠ q.identity then
    refused "identity_mismatch" "event identity differs from the job's"
  else if q.released then refused "event_after_released" "event after released"
  else if q.terminal && e.body ≠ .released then
    refused "event_after_terminal" "event after completed or failed"
  else match e.body with
    | .accepted =>
      if q.observedAny then refused "accepted_out_of_order" "accepted after another event"
      else .ok q.totals
    | .progress n fragment => q.checkResult (some n) fragment
    | .completed result => q.checkResult none result
    | .failed _ => .ok q.totals
    | .cancelAcknowledged =>
      if !q.cancelRequested then
        refused "cancel_acknowledged_without_cancel" "cancel_acknowledged without a cancellation"
      else if q.cancelAcknowledged then
        refused "duplicate_cancel_acknowledged" "cancel_acknowledged delivered twice"
      else .ok q.totals
    | .released =>
      if !q.terminal then
        refused "released_before_terminal" "released before completed or failed"
      else .ok q.totals

/-- The sequence behind an event it accepted. -/
def advance (q : JobEventSequence) (e : JobEvent) (totals : Totals) : JobEventSequence :=
  let q := { q with observedAny := true, totals := totals }
  match e.body with
  | .accepted => { q with accepted := true }
  | .progress .. => { q with progressCount := q.progressCount + 1 }
  | .completed _ | .failed _ => { q with terminal := true }
  | .cancelAcknowledged => { q with cancelAcknowledged := true }
  | .released => { q with released := true }

/-- `observe`. -/
def observe (q : JobEventSequence) (e : JobEvent) : Except Error JobEventSequence :=
  (q.check e).map (q.advance e)

end JobEventSequence

end Tensorplate
