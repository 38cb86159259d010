import Tensorplate.Session.Model.Credits
import Tensorplate.Session.Model.OutputQueue
import Tensorplate.Session.Model.Timers
import Tensorplate.Session.Model.Tombstones

/-!
# One session at its manager

A manager call names one session, and reads and changes nothing of the
others: its entry, its output queue, the tombstones and the clock are all
it touches. `Slot` is that part of the manager; its operations are the
manager's own, each of which holds `serial_mu_` from start to end.
-/

namespace Tensorplate

namespace Serving

/-- `SessionManager::Entry`. The entry's output queue is the slot's. -/
structure Entry where
  machine : LogicalSessionMachine
  timers : SessionTimers
  credit : InputCredit
  cause : Option Error
  deriving DecidableEq, Repr

/-- `ManagedSessionTransition`, less the pointer to the output queue. -/
structure ManagedSessionTransition where
  sessionKey : ℕ
  event : Option LogicalSessionEvent
  state : LogicalSessionState
  effects : LogicalSessionEffects
  cause : Option Error
  status : LogicalSessionStatus
  waitingSegments : LogicalSessionUsage
  deriving DecidableEq, Repr

/-- An accepted event and the time the manager read for it. -/
structure Moment where
  key : ℕ
  event : LogicalSessionEvent
  before : Phase
  after : Phase
  readAt : TimePoint
  deriving DecidableEq, Repr

/-- **What a call naming one session touches.** `clock` gives the time of
each reading and `reads` counts them; `entry` is absent before the open
and after the release; `shown` is what the sink was called with and
`moments` what the timers were told, both in order. -/
structure Slot (β : Type) where
  key : ℕ
  clock : ℕ → TimePoint
  reads : ℕ
  entry : Option Entry
  output : BoundedOutputQueue β
  tombstones : List SessionTombstone
  shown : List ManagedSessionTransition
  moments : List Moment

/-- `expiry_error`. -/
def expiryError : SessionExpiry → Error
  | .idle => Error.make .timeout "logical session was idle" "idle_timeout"
  | .heartbeat => Error.make .timeout "logical session lost heartbeat" "heartbeat_timeout"
  | .maxDuration =>
    Error.make .timeout "logical session reached maximum duration" "max_duration"
  | .slowConsumer =>
    Error.make .resourceExhausted "logical session output made no delivery progress"
      "slow_consumer"
  | .finalizeDeadline =>
    Error.make .timeout "logical session did not finish finalizing or draining in time"
      "finalize_timeout"

/-- The cause of a client's own Cancel. -/
def clientCancelled : Error := Error.make .cancelled "session cancelled" "client_cancelled"

/-- `expiry_cause`. -/
def Entry.expiryCause (entry : Entry) (expiry : SessionExpiry) : Error :=
  -- A drain that carries its own cause keeps it when its deadline cuts it.
  match expiry, entry.cause with
  | .finalizeDeadline, some cause => cause
  | expiry, _ => expiryError expiry

namespace Slot

variable {β : Type}

/-- `clock_.now()`. -/
def now (s : Slot β) : Slot β × TimePoint := ({ s with reads := s.reads + 1 }, s.clock s.reads)

/-- `status_of`. -/
def statusOf (s : Slot β) (entry : Entry) : LogicalSessionStatus :=
  ⟨entry.machine.state, entry.credit.depth, entry.credit.usage, s.output.pcmUsage,
    s.output.metadataUsage⟩

/-- `emit`. -/
def emit (s : Slot β) (transition : ManagedSessionTransition) (announced : Bool) : Slot β :=
  if announced || !transition.effects.isEmpty then { s with shown := s.shown ++ [transition] }
  else s

/-- `missing_session_locked`. -/
def missingSessionLocked (s : Slot β) : Slot β × Error :=
  let (s, now) := s.now
  if (SessionTombstones.find s.tombstones s.key now).isSome then
    (s, Error.make .notReady "logical session has ended" "session_ended")
  else (s, Error.make .notReady "logical session is no longer active" "unknown_session")

/-- `expiry_locked`. -/
def expiryLocked (s : Slot β) (entry : Entry) : Slot β × Option SessionExpiry :=
  let (s, now) := s.now
  (s, entry.timers.expired now entry.machine.state s.output.stalledSince)

/-- The cause an entry ends with after an accepted event. -/
def causeAfter (entry : Entry) (event : LogicalSessionEvent) (after : LogicalSessionState)
    (cause : Option Error) : Option Error :=
  if entry.machine.state ≠ after ∧
      (after = .draining ∨ after = .cancelRequested ∨ after = .failed) then
    match cause with
    | some cause => some cause
    | none => if event = .cancel then some clientCancelled else entry.cause
  else entry.cause

/-- `apply_locked`: the entry after the event and the transition, or
nothing where the machine refuses the event. -/
def applyLocked (s : Slot β) (entry : Entry) (event : LogicalSessionEvent)
    (cause : Option Error) : Slot β × Option (Entry × ManagedSessionTransition) :=
  let before := entry.machine.state
  match entry.machine.apply event with
  | (_, .error _) => (s, none)
  | (machine, .ok effects) =>
    let after := machine.state
    let cause := causeAfter entry event after cause
    let (s, now) := s.now
    let timers := (entry.timers.onClientActivity event now).onTransition before event after now
    let s := { s with
      moments := s.moments ++ [Moment.mk s.key event entry.machine.phase machine.phase now]
      output := if effects.contains .suppressOutput then s.output.suppress else s.output }
    let entry := { entry with machine := machine, timers := timers, cause := cause }
    ({ s with entry := some entry },
      some (entry, {
        sessionKey := s.key
        event := some event
        state := after
        effects := effects
        cause := cause
        status := s.statusOf entry
        waitingSegments := entry.credit.waitingUsage }))

/-- `charge_accepted_input`: the credit after it, and its refusal if the
state accepts the input and the credit does not. -/
def chargeAcceptedInput (entry : Entry) (bytes : ℕ) : Entry × Option Error :=
  -- Input a draining session ignores is not charged.
  match entry.machine.apply .data with
  | (_, .error _) => (entry, none)
  | (_, .ok effects) =>
    if !effects.contains .acceptInput then (entry, none)
    else
      match entry.credit.charge bytes with
      | (credit, .ok ()) => ({ entry with credit := credit }, none)
      | (credit, .error refusal) => ({ entry with credit := credit }, some refusal)

/-- The end of a session whose slot a transition released. -/
def releaseSlot (s : Slot β) (entry : Entry) (transition : ManagedSessionTransition) : Slot β :=
  if transition.effects.contains .releaseSlot then
    let (s, now) := s.now
    { s with
      tombstones := SessionTombstones.record s.tombstones s.key entry.machine.generation
        transition.state transition.cause now
      entry := none }
  else s

/-- The second half of `apply_event`, once no deadline stands in the way:
the event is applied, or refused and the session failed. -/
def applyUnexpired (s : Slot β) (entry : Entry) (event : LogicalSessionEvent)
    (cause : Option Error) (bytes : Option ℕ) :
    Slot β × Except Error ManagedSessionTransition :=
  let before := entry.machine.state
  let (entry, refusal) := match bytes with
    | some bytes => chargeAcceptedInput entry bytes
    | none => (entry, none)
  let s := { s with entry := some entry }
  let (s, result, refusal) := match refusal with
    | some refusal => (s, none, some refusal)
    | none =>
      match s.applyLocked entry event cause with
      | (s, some applied) => (s, some applied, none)
      | (s, none) => (s, none, some (refusedEvent entry.machine.state event))
  let (s, result) := match refusal with
    | some refusal => s.applyLocked entry .fail (some refusal)
    | none => (s, result)
  match result with
  | none =>
    (s, .error (Error.make .internal "session failure transition refused"
      "failure_transition_refused"))
  | some (entry, transition) =>
    let reactivated := refusal.isNone && event == .finalizeCompleted && before != transition.state
    let s := s.releaseSlot entry transition
    let s := s.emit transition reactivated
    match refusal with
    | some refusal => (s, .error refusal)
    | none => (s, .ok transition)

/-- `apply_event`. -/
def applyEvent (s : Slot β) (event : LogicalSessionEvent) (cause : Option Error)
    (bytes : Option ℕ) : Slot β × Except Error ManagedSessionTransition :=
  match s.entry with
  | none =>
    let (s, missing) := s.missingSessionLocked
    (s, .error missing)
  | some entry =>
    match s.expiryLocked entry with
    | (s, none) => s.applyUnexpired entry event cause bytes
    | (s, some expiry) =>
      let earlyReleaseRefusal := if event = .releaseAcknowledged then
          match entry.machine.apply event with
          | (_, .error refusal) => some refusal
          | (_, .ok _) => none
        else none
      let timeoutRefusal := entry.expiryCause expiry
      match s.applyLocked entry .abort (some timeoutRefusal) with
      | (s, none) =>
        (s, .error (Error.make .internal "session timeout transition refused"
          "timeout_transition_refused"))
      | (s, some (entry, expired)) =>
        let s := s.emit expired false
        if event.isClientEvent then (s, .error timeoutRefusal)
        else
          match earlyReleaseRefusal with
          | some refusal => (s, .error refusal)
          | none => s.applyUnexpired entry event cause bytes

/-- `apply`. -/
def apply (s : Slot β) (event : LogicalSessionEvent) (cause : Option Error) :
    Slot β × Except Error ManagedSessionTransition :=
  if (event = .abort ∨ event = .fail ∨ event = .backendReset) ∧ cause = none then
    (s, .error (Error.make .configInvalid "missing session failure cause"
      "missing_session_cause"))
  else if event = .data then
    (s, .error (Error.make .configInvalid "session input without its size"
      "input_without_size"))
  else s.applyEvent event cause none

/-- `accept_input`. -/
def acceptInput (s : Slot β) (bytes : ℕ) : Slot β × Except Error ManagedSessionTransition :=
  s.applyEvent .data none (some bytes)

/-- `update_credit`. -/
def updateCredit (s : Slot β) (update : InputCredit → InputCredit × Except Error Unit) :
    Slot β × Except Error LogicalSessionStatus :=
  match s.entry with
  | none =>
    let (s, missing) := s.missingSessionLocked
    (s, .error missing)
  | some entry =>
    match update entry.credit with
    | (credit, .error defect) =>
      let entry := { entry with credit := credit }
      match { s with entry := some entry }.applyLocked entry .fail (some defect) with
      | (s, none) => (s, .error defect)
      | (s, some (_, failed)) => (s.emit failed false, .error defect)
    | (credit, .ok ()) =>
      let entry := { entry with credit := credit }
      let s := { s with entry := some entry }
      let status := s.statusOf entry
      (s.emit {
        sessionKey := s.key
        event := none
        state := entry.machine.state
        effects := []
        cause := entry.cause
        status := status
        waitingSegments := entry.credit.waitingUsage } true, .ok status)

/-- `release_audio_input`. -/
def releaseAudioInput (s : Slot β) (chunks bytes : ℕ) :
    Slot β × Except Error LogicalSessionStatus :=
  s.updateCredit (InputCredit.releaseAudio chunks bytes)

/-- `start_text_segment`. -/
def startTextSegment (s : Slot β) : Slot β × Except Error LogicalSessionStatus :=
  s.updateCredit InputCredit.startSegment

/-- `finish_text_segment`. -/
def finishTextSegment (s : Slot β) : Slot β × Except Error LogicalSessionStatus :=
  s.updateCredit InputCredit.finishSegment

/-- `check_generation`. -/
def checkGeneration (s : Slot β) (generation : ℕ) : Slot β × Except Error Unit :=
  match s.entry with
  | none =>
    let (s, missing) := s.missingSessionLocked
    (s, .error missing)
  | some entry =>
    match entry.machine.checkGeneration generation with
    | .ok () => (s, .ok ())
    | .error stale => ((s.applyEvent .fail (some stale) none).1, .error stale)

/-- One session of `stop_admission_and_drain`. -/
def drain (s : Slot β) (cause : Error) : Slot β :=
  match s.entry with
  | none => s
  | some entry =>
    match s.applyLocked entry .drain (some cause) with
    | (s, some (_, transition)) => s.emit transition false
    | (s, none) => s

/-- One session of `sweep_due`. -/
def sweep (s : Slot β) : Slot β :=
  match s.entry with
  | none => s
  | some entry =>
    match s.expiryLocked entry with
    | (s, none) => s
    | (s, some expiry) =>
      match s.applyLocked entry .abort (some (entry.expiryCause expiry)) with
      | (s, some (_, transition)) => s.emit transition false
      | (s, none) => s

/-- The part of `open` after the entry was made: `initialize` answered,
and the session is admitted or failed. The entry is dropped where its
machine refuses, which a machine just opened does not. -/
def admission (s : Slot β) (entry : Entry) (initialized : Except Error Unit) :
    Slot β × Except Error ManagedSessionTransition :=
  let (s, failure) := match initialized with
    | .error failure => (s, some failure)
    | .ok () =>
      match s.expiryLocked entry with
      | (s, some expiry) => (s, some (expiryError expiry))
      | (s, none) => (s, none)
  match failure with
  | some failure =>
    match s.applyLocked entry .fail (some failure) with
    | (s, none) =>
      ({ s with entry := none }, .error (Error.make .internal
        "session initialization failure transition refused"
        "initialization_transition_refused"))
    | (s, some (_, transition)) => (s.emit transition false, .error failure)
  | none =>
    match s.applyLocked entry .admitted none with
    | (s, none) =>
      ({ s with entry := none }, .error (Error.make .internal
        "session admission transition refused" "admission_transition_refused"))
    | (s, some (_, transition)) => (s.emit transition false, .ok transition)

end Slot

end Serving

end Tensorplate
