import Mathlib.Data.Nat.Notation
import Mathlib.Logic.Function.Basic
import Tensorplate.Lib.Runs

/-!
# A speech session of the client

The state of `Session` and what its methods do to it between two awaits.
What gRPC, the agent and the server answer are arguments. The buffer of
events read and not yet taken, which only holds the reader back, and the
marks a session leaves on the client's targets are left out. The log is
kept for the reader: it says what was called, written and read.
-/

namespace Tensorplate

namespace Sdk

/-- `grpc.StatusCode`. -/
inductive StatusCode
  | ok
  | cancelled
  | unavailable
  | internal
  | other (name : String)
  deriving DecidableEq, Repr

/-- `SpeechError`. -/
inductive SpeechError
  /-- `failure_of`. -/
  | ended (status : StatusCode) (writeFailed : Bool)
  | violation (what : String)
  | timeout (what : String)
  | closed (what : String)
  | discovery (what : String)
  | exhausted
  deriving DecidableEq, Repr

/-- `grpc_status`. -/
def SpeechError.grpcStatus : SpeechError → Option StatusCode
  | .ended status _ => some status
  | _ => none

/-- `StreamTarget`. -/
structure StreamTarget where
  endpoint : String
  deploymentId : String
  generation : ℕ
  descriptorDigest : String
  deriving DecidableEq, Repr

/-- `InputCredit` of the stream schema. -/
structure InputCredit where
  bytesUsed : ℕ
  bytesLimit : ℕ
  segmentsUsed : ℕ := 0
  segmentsLimit : ℕ := 0
  deriving DecidableEq, Repr

/-- `Ready`: what the session reads of it, and whether the check of the
session's own kind passes. -/
structure Ready where
  sessionId : String
  generation : ℕ
  descriptorDigest : String
  inputCredit : InputCredit
  outputStallTimeoutMs : ℕ
  heartbeatIntervalMs : ℕ
  checked : Bool
  minFrameMs : ℕ := 0
  maxFrameMs : ℕ := 0
  maxSegmentTextBytes : ℕ := 0
  maxSynthesisTextBytes : ℕ := 0
  deriving DecidableEq, Repr

/-- A server event's body. -/
inductive ServerBody
  | unknown
  | ready (message : Ready)
  | accepted (acceptedSequence : ℕ) (inputCredit : InputCredit)
  /-- `SessionClosed`: whether its own checks pass, and whether it has a cause. -/
  | sessionClosed (checked hasCause : Bool)
  | cancelAccepted
  | pong
  | status
  /-- An event of the task: whether `_task_event` finds nothing wrong, and
  the Finalize it answers. -/
  | task (checked : Bool) (finalizeSequence : Option ℕ)
  deriving DecidableEq, Repr

/-- `ServerEvent`. -/
structure ServerEvent where
  sequence : ℕ
  body : ServerBody
  deriving DecidableEq, Repr

/-- What a client event carries. -/
inductive ClientBody
  | opening
  | audio (sampleOffset samples : ℕ) (short : Bool)
  | textSegment (segmentId : ℕ)
  | finalize
  | ping
  | cancel
  deriving DecidableEq, Repr

/-- The events that are input or end an input. -/
def ClientBody.isInput : ClientBody → Bool
  | .audio .. => true
  | .textSegment _ => true
  | .finalize => true
  | _ => false

/-- Who may hold the write lock. -/
inductive Writer
  | opener
  | pinger
  | task (n : ℕ)
  deriving DecidableEq, Repr

/-- What happened. -/
inductive Happened
  /-- A call was made. -/
  | connected (call : ℕ)
  /-- The write of a client event was started. -/
  | wrote (call sequence : ℕ) (body : ClientBody)
  | doneWriting (call : ℕ)
  | openWriteFailed (call : ℕ)
  | readReady (call : ℕ)
  | readAnswer (sequence : ℕ)
  | cancelled
  | aborted
  | shut
  /-- A call ended with a status, after so many server events. -/
  | concluded (call : ℕ) (status : StatusCode) (received : ℕ)
  /-- The agent named a target after a call on another, or the same. -/
  | named (seen found : StreamTarget)
  /-- A call of the caller's came to its end. -/
  | returned (n : ℕ)
  | raised (n : ℕ)
  | openReturned
  | openRaised
  deriving DecidableEq, Repr

/-- **`Session`.** -/
structure Session where
  /-- Whether the client was made from the agent's status. -/
  targets : Bool
  sendsSegments : Bool
  sampleRateHz : ℕ
  target : StreamTarget
  call : Option ℕ := none
  sent : ℕ := 0
  received : ℕ := 0
  ready : Option Ready := none
  /-- Whether the `SessionClosed` that was read has a cause. -/
  closed : Option Bool := none
  ended : Bool := false
  failure : Option SpeechError := none
  abortError : Option SpeechError := none
  cancelling : Bool := false
  halfClosed : Bool := false
  writeFailed : Bool := false
  credit : InputCredit := ⟨0, 0, 0, 0⟩
  unaccepted : List (ℕ × ℕ) := []
  lastInput : ℕ := 0
  accepted : ℕ := 0
  finalizing : Option ℕ := none
  answer : Option ℕ := none
  opening : Bool := false
  reopened : Bool := false
  lost : Option SpeechError := none
  lostRetryable : Bool := false
  samplesSent : ℕ := 0
  shortFrame : Bool := false
  nextSegment : ℕ := 1
  synthesisText : ℕ := 0
  inputGate : Option ℕ := none
  writeLock : Option Writer := none
  pingerStopped : Bool := false
  log : List Happened := []

namespace Session

/-- Something happened. -/
def note (s : Session) (h : Happened) : Session := { s with log := s.log ++ [h] }

/-- `_settle`. -/
def settle (s : Session) (failure : Option SpeechError) : Session :=
  { s with
    lost := none
    failure := if s.cancelling then none else
      match s.abortError with
      | some error => some error
      | none => failure
    ended := true
    pingerStopped := true }

/-- `_abort`. -/
def abort (s : Session) (error : SpeechError) : Session :=
  let s := { s with abortError := some (s.abortError.getD error) }.note .aborted
  if s.call.isNone || s.lost.isSome then s.settle none else s

/-- `_shut`. -/
def shut (s : Session) : Session :=
  let s := { s with cancelling := true }.note .shut
  if s.call.isNone then { s with ended := true }
  else if s.lost.isSome then s.settle none
  else s

/-- What wakes a wait for the session's end: the end, or a lost call. -/
def isOver (s : Session) : Bool := s.ended || s.lost.isSome

/-- `_check_sending`; `false` where it raises. -/
def checkSending (s : Session) : Bool :=
  s.ready.isSome && !(s.ended || s.cancelling) && !s.halfClosed

/-- `_fits`. -/
def fits (s : Session) (size : ℕ) : Bool :=
  s.credit.bytesUsed + (s.unaccepted.map Prod.snd).sum + size ≤ s.credit.bytesLimit &&
    (!s.sendsSegments || s.credit.segmentsUsed + s.unaccepted.length < s.credit.segmentsLimit)

/-! ## Writing -/

/-- The part of `_send` before its write, the lock held; `none` where it
raises. A charge is the credit the input takes. -/
def beginWrite (s : Session) (who : Writer) (body : ClientBody) (charge : Option ℕ := none) :
    Option Session :=
  if s.ended || s.halfClosed then none
  else
    let sequence := s.sent + 1
    let s := { s with sent := sequence, writeLock := some who }
    let s := match charge with
      | some size => { s with
          unaccepted := s.unaccepted ++ [(sequence, size)]
          lastInput := sequence }
      | none => s
    let s := if body = .finalize then { s with finalizing := some sequence } else s
    some (s.note (.wrote (s.call.getD 0) sequence body))

/-- The end of `_send`: the lock is given back. -/
def endWrite (s : Session) : Session := { s with writeLock := none }

/-- `_connected` and what `_begin` does with the call it gives: the next
number is the call's, and its Open is written. The lock is free then; where
it is not, the Open waits for it. -/
def connected (s : Session) : Session :=
  let n := s.call.getD 0 + 1
  { s with call := some n }.note (.connected n)

/-! ## Reading -/

/-- `_take_credit`. -/
def takeCredit (s : Session) (credit : InputCredit) : Except SpeechError Session :=
  if credit.bytesLimit = 0 then .error (.violation "no byte budget in the input credit")
  else if s.sendsSegments && credit.segmentsLimit = 0 then
    .error (.violation "no waiting-segment budget in the input credit")
  else .ok { s with credit := credit }

/-- `_take_ready`. -/
def takeReady (s : Session) (ready : Ready) : Except SpeechError Session := do
  if ready.sessionId = "" then .error (.violation "Ready names no session")
  else if ¬(ready.generation = s.target.generation ∧
      ready.descriptorDigest = s.target.descriptorDigest) then
    .error (.violation "Ready names another generation or descriptor")
  else
    let s ← s.takeCredit ready.inputCredit
    if ready.outputStallTimeoutMs = 0 then
      .error (.violation "Ready declares no output stall time")
    else if ready.heartbeatIntervalMs = 0 then
      .error (.violation "Ready declares no heartbeat interval")
    else if !ready.checked then .error (.violation "Ready does not fit the session")
    else .ok ({ s with ready := some ready }.note (.readReady (s.call.getD 0)))

/-- `_take_accepted`. -/
def takeAccepted (s : Session) (sequence : ℕ) (credit : InputCredit) :
    Except SpeechError Session :=
  if ¬(s.accepted ≤ sequence ∧ sequence ≤ s.lastInput) then
    .error (.violation "Accepted names a sequence no input carries")
  else
    { s with
      accepted := sequence
      unaccepted := s.unaccepted.filter fun p => sequence < p.1 }.takeCredit credit

/-- `_take_answer`. -/
def takeAnswer (s : Session) (sequence : ℕ) : Except SpeechError Session :=
  if s.finalizing ≠ some sequence then
    .error (.violation "an answer to a Finalize that is not waiting")
  else .ok ({ s with finalizing := none, answer := some sequence }.note (.readAnswer sequence))

/-- `_take`, behind the count of the event. -/
def takeBody (s : Session) (body : ServerBody) : Except SpeechError Session :=
  match body with
  | .unknown => .ok s
  | .sessionClosed checked hasCause =>
    if !checked then .error (.violation "SessionClosed that does not fit what was read")
    else .ok { s with closed := some hasCause }
  | .ready message =>
    if s.ready.isSome then .error (.violation "ready after Ready") else s.takeReady message
  | body =>
    if s.ready.isNone then .error (.violation "an event before Ready")
    else
      match body with
      | .accepted sequence credit => s.takeAccepted sequence credit
      | .cancelAccepted =>
        if s.cancelling then .ok s else .error (.violation "CancelAccepted without a Cancel")
      | .task checked answer =>
        if !checked then .error (.violation "an event out of its place")
        else
          match answer with
          | some sequence => s.takeAnswer sequence
          | none => .ok s
      | _ => .ok s

/-- `_take`. -/
def take (s : Session) (event : ServerEvent) : Session × Except SpeechError Session :=
  let s := { s with received := s.received + 1 }
  (s, if event.sequence ≠ s.received then .error (.violation "an event out of sequence")
    else if s.closed.isSome then .error (.violation "an event after SessionClosed")
    else s.takeBody event.body)

/-- `_conclude`, once the call's status is known. -/
def conclude (s : Session) (status : StatusCode) : Session :=
  let s := s.note (.concluded (s.call.getD 0) status s.received)
  let failure : Option SpeechError :=
    if status ≠ .ok then some (.ended status s.writeFailed)
    else
      match s.closed with
      | none => some (.violation "the call ended with status OK and no SessionClosed")
      | some true => some (.violation "the call ended with status OK and a cause")
      | some false => none
  let grpcStatus := failure.bind SpeechError.grpcStatus
  let lost := grpcStatus = some .unavailable ∨ (grpcStatus = some .internal ∧ s.writeFailed = true)
  let reopen := s.opening = true ∧ s.reopened = false ∧ s.received = 0
  let follows := lost ∨ (s.targets = true ∧ status ≠ .ok)
  if follows ∧ reopen ∧ s.cancelling = false ∧ s.abortError = none then
    { s with lost := failure, lostRetryable := decide lost }
  else s.settle failure

end Session

end Sdk

end Tensorplate
