import Tensorplate.Session.Model.Limits

/-!
# Session timers

`SessionTimers`: when a session expires, and by which of its deadlines.
-/

namespace Tensorplate

namespace Serving

/-- `SessionExpiry`. -/
inductive SessionExpiry
  | idle
  | heartbeat
  | maxDuration
  | slowConsumer
  | finalizeDeadline
  deriving DecidableEq, Repr

/-- `finalize_deadline`: how long a session may owe a finalization or a
drain. -/
def finalizeDeadline : SessionInputKind → Duration
  | .audio => seconds 10
  | .text => seconds 120

/-- `owes_completion`. -/
def owesCompletion (state : LogicalSessionState) : Bool :=
  state == .finalizing || state == .draining

/-- `SessionTimers`. -/
structure SessionTimers where
  limits : SessionLimits
  deadline : Duration
  openedAt : TimePoint
  lastActivityAt : TimePoint
  lastHeartbeatAt : TimePoint
  finalizeStartedAt : Option TimePoint
  deriving DecidableEq, Repr

namespace SessionTimers

/-- The timers of a session opened at `openedAt`. -/
def start (limits : SessionLimits) (inputKind : SessionInputKind) (openedAt : TimePoint) :
    SessionTimers :=
  ⟨limits, finalizeDeadline inputKind, openedAt, openedAt, openedAt, none⟩

/-- `on_client_activity`. -/
def onClientActivity (t : SessionTimers) (event : LogicalSessionEvent) (now : TimePoint) :
    SessionTimers :=
  match event with
  | .ping => { t with lastActivityAt := now, lastHeartbeatAt := now }
  | .data | .finalize | .statusRequest => { t with lastActivityAt := now }
  | _ => t

/-- `on_transition`. -/
def onTransition (t : SessionTimers) (before : LogicalSessionState) (event : LogicalSessionEvent)
    (after : LogicalSessionState) (now : TimePoint) : SessionTimers :=
  -- A completed drain still reads as draining while release is awaited.
  if !owesCompletion after || event == .drainCompleted then { t with finalizeStartedAt := none }
  else if !owesCompletion before then { t with finalizeStartedAt := some now }
  else t

/-- `SessionTimers::Deadline`. -/
structure Deadline where
  dueAt : TimePoint
  expiry : SessionExpiry
  deriving DecidableEq, Repr

/-- `consider`: an earlier deadline takes the place of the first one; ties
go to the one considered first. -/
def Deadline.consider (first : Deadline) (dueAt : TimePoint) (expiry : SessionExpiry) : Deadline :=
  if dueAt < first.dueAt then ⟨dueAt, expiry⟩ else first

/-- The part of `earliest` that a drain does not suspend: the session's
duration, its finalization or drain, and its stalled output. -/
def earliestOwed (t : SessionTimers) (outputStalledSince : Option TimePoint) : Deadline :=
  let first : Deadline := ⟨t.openedAt + milliseconds t.limits.maxDuration, .maxDuration⟩
  let first := match t.finalizeStartedAt with
    | some startedAt => first.consider (startedAt + t.deadline) .finalizeDeadline
    | none => first
  match outputStalledSince with
  | some stalledSince =>
    first.consider (stalledSince + SessionBudgets.kOutputNoProgressTimeout) .slowConsumer
  | none => first

/-- `earliest`. -/
def earliest (t : SessionTimers) (state : LogicalSessionState)
    (outputStalledSince : Option TimePoint) : Option Deadline :=
  if state == .closed || state == .failed || state == .cancelRequested then none
  else
    let first := t.earliestOwed outputStalledSince
    if state != .draining then
      some ((first.consider (t.lastHeartbeatAt + milliseconds t.limits.livenessTimeout)
        .heartbeat).consider (t.lastActivityAt + milliseconds t.limits.idleTimeout) .idle)
    else some first

/-- `expired`. -/
def expired (t : SessionTimers) (now : TimePoint) (state : LogicalSessionState)
    (outputStalledSince : Option TimePoint) : Option SessionExpiry :=
  match t.earliest state outputStalledSince with
  | none => none
  | some first => if now < first.dueAt then none else some first.expiry

end SessionTimers

end Serving

end Tensorplate
