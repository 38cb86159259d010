import Tensorplate.Core.Error

/-!
# The logical-session machine

`LogicalSessionMachine`: the lifecycle of one client session, as the
transition rules of `state_machine.cpp` state it. A machine is a phase
and the generation it is bound to; an event either moves it and yields
the effects its owner carries out, in ascending order, or is refused and
changes nothing.
-/

namespace Tensorplate

namespace Serving

/-- `LogicalSessionState`: the public lifecycle state. -/
inductive LogicalSessionState
  | opening
  | active
  | finalizing
  | draining
  | cancelRequested
  | closed
  | failed
  deriving DecidableEq, Repr

/-- `LogicalSessionEvent`, in the order of its values. `openRequest` is
the source's `Open`, an Open on a stream whose session exists. -/
inductive LogicalSessionEvent
  | openRequest
  | data
  | finalize
  | cancel
  | halfClose
  | ping
  | statusRequest
  | admitted
  | automaticEndpoint
  | finalizeCompleted
  | drainCompleted
  | drain
  | abort
  | fail
  | backendReset
  | releaseAcknowledged
  deriving DecidableEq, Repr

/-- `LogicalSessionEffect`, in the order of its values, which is the order
the effects of one event are carried out in. -/
inductive LogicalSessionEffect
  | suppressOutput
  | emitCancelAccepted
  | requestCleanup
  | emitReady
  | acceptInput
  | emitReply
  | startFinalize
  | startDrain
  | releaseSlot
  | emitTerminal
  deriving DecidableEq, Repr

/-- `LogicalSessionEffects`: the set of effects one accepted event
produces, held as the list `for_each` visits. -/
abbrev LogicalSessionEffects := List LogicalSessionEffect

/-- `LogicalSessionMachine::Phase`: the public state refined by what
changes the events it accepts. -/
inductive Phase
  | opening
  | active
  | finalizingAfterFinalize
  | finalizingAfterEndpoint
  | drainingWorking
  | drainingReleasing
  | cancelRequested
  | closed
  | failedHolding
  | failedReleased
  deriving DecidableEq, Repr

/-- The stable name of a state. -/
def LogicalSessionState.toName : LogicalSessionState → String
  | .opening => "opening"
  | .active => "active"
  | .finalizing => "finalizing"
  | .draining => "draining"
  | .cancelRequested => "cancel_requested"
  | .closed => "closed"
  | .failed => "failed"

/-- The stable name of an event. -/
def LogicalSessionEvent.toName : LogicalSessionEvent → String
  | .openRequest => "open"
  | .data => "data"
  | .finalize => "finalize"
  | .cancel => "cancel"
  | .halfClose => "half_close"
  | .ping => "ping"
  | .statusRequest => "status_request"
  | .admitted => "admitted"
  | .automaticEndpoint => "automatic_endpoint"
  | .finalizeCompleted => "finalize_completed"
  | .drainCompleted => "drain_completed"
  | .drain => "drain"
  | .abort => "abort"
  | .fail => "fail"
  | .backendReset => "backend_reset"
  | .releaseAcknowledged => "release_acknowledged"

/-- `is_client_event`: events that arrive on the stream. The others are the
owner's reports. -/
def LogicalSessionEvent.isClientEvent : LogicalSessionEvent → Bool
  | .openRequest | .data | .finalize | .cancel | .halfClose | .ping | .statusRequest => true
  | _ => false

namespace Rules

/-- A rule's answer: the next phase and the effects, or nothing where the
phase does not permit the event. -/
abbrev Next := Option (Phase × LogicalSessionEffects)

/-- Cancellation or a terminal outcome has fixed the result. -/
def outcomeFixed : Phase → Bool
  | .cancelRequested | .closed | .failedHolding | .failedReleased => true
  | _ => false

def finalizing : Phase → Bool
  | .finalizingAfterFinalize | .finalizingAfterEndpoint => true
  | _ => false

def draining : Phase → Bool
  | .drainingWorking | .drainingReleasing => true
  | _ => false

/-- Ready was sent and the outcome is still open. -/
def serving (phase : Phase) : Bool :=
  phase == .active || finalizing phase || draining phase

def acceptsInput (phase : Phase) : Bool :=
  phase == .active || phase == .finalizingAfterEndpoint

/-- Cleanup was requested while the outcome is still open. -/
def cleanupRequested (phase : Phase) : Bool :=
  phase == .drainingReleasing

/-- Open, Data, Finalize, Ping and StatusRequest from the client. -/
def onClientRequest (phase : Phase) (event : LogicalSessionEvent) : Next :=
  if event == .openRequest || !serving phase then none
  else if event == .ping || event == .statusRequest then some (phase, [.emitReply])
  -- Input racing a drain is not taken; accepted work still completes.
  else if draining phase then some (phase, [])
  else if event == .data then
    if !acceptsInput phase then none else some (phase, [.acceptInput])
  -- A repeated Finalize changes nothing; after an automatic endpoint it
  -- takes the finalization over.
  else if phase == .finalizingAfterFinalize then some (phase, [])
  else some (.finalizingAfterFinalize, [.startFinalize])

/-- HalfClose from the client, Drain from the worker. -/
def onDrainRequest (phase : Phase) (event : LogicalSessionEvent) : Next :=
  if phase == .opening then
    if event == .halfClose then none
    else some (.cancelRequested, [.suppressOutput, .requestCleanup])
  else if draining phase || outcomeFixed phase then some (phase, [])
  else some (.drainingWorking, [.startDrain])

/-- Admitted, AutomaticEndpoint, FinalizeCompleted and DrainCompleted from
admission and the processing pipeline. -/
def onProgress (phase : Phase) (event : LogicalSessionEvent) : Next :=
  -- A late report.
  if outcomeFixed phase then some (phase, [])
  else
    match event with
    | .admitted => if phase != .opening then none else some (.active, [.emitReady])
    | .automaticEndpoint =>
      if phase == .active then some (.finalizingAfterEndpoint, [.startFinalize])
      else if finalizing phase || phase == .drainingWorking then some (phase, [.startFinalize])
      else none
    | .finalizeCompleted =>
      if finalizing phase then some (.active, [])
      else if phase == .drainingWorking then some (phase, [])
      else none
    | .drainCompleted =>
      if phase != .drainingWorking then none
      else some (.drainingReleasing, [.requestCleanup])
    | _ => none

/-- Cancel from the client; Abort, Fail and BackendReset from the owner. -/
def onTermination (phase : Phase) (event : LogicalSessionEvent) : Next :=
  if phase == .cancelRequested && event == .backendReset then
    some (.failedHolding, [.emitTerminal])
  else if outcomeFixed phase then some (phase, [])
  else
    let cleaned := cleanupRequested phase
    if event == .fail || event == .backendReset then
      some (.failedHolding,
        if cleaned then [.suppressOutput, .emitTerminal]
        else [.suppressOutput, .requestCleanup, .emitTerminal])
    -- CancelAccepted answers only a client Cancel after Ready.
    else if event == .cancel && serving phase then
      some (.cancelRequested,
        if cleaned then [.suppressOutput, .emitCancelAccepted]
        else [.suppressOutput, .emitCancelAccepted, .requestCleanup])
    else
      some (.cancelRequested,
        if cleaned then [.suppressOutput] else [.suppressOutput, .requestCleanup])

/-- ReleaseAcknowledged from the backend. -/
def onRelease : Phase → Next
  | .drainingReleasing | .cancelRequested => some (.closed, [.releaseSlot, .emitTerminal])
  | .failedHolding => some (.failedReleased, [.releaseSlot])
  | .closed => some (.closed, [])
  | .failedReleased => some (.failedReleased, [])
  | _ => none

/-- `Rules::next`. -/
def next (phase : Phase) (event : LogicalSessionEvent) : Next :=
  match event with
  | .openRequest | .data | .finalize | .ping | .statusRequest => onClientRequest phase event
  | .halfClose | .drain => onDrainRequest phase event
  | .admitted | .automaticEndpoint | .finalizeCompleted | .drainCompleted =>
    onProgress phase event
  | .cancel | .abort | .fail | .backendReset => onTermination phase event
  | .releaseAcknowledged => onRelease phase

end Rules

/-- `LogicalSessionMachine`: its phase and the generation it is bound to. -/
structure LogicalSessionMachine where
  phase : Phase
  generation : ℕ
  deriving DecidableEq, Repr

/-- The public state of a phase. -/
def Phase.state : Phase → LogicalSessionState
  | .opening => .opening
  | .active => .active
  | .finalizingAfterFinalize | .finalizingAfterEndpoint => .finalizing
  | .drainingWorking | .drainingReleasing => .draining
  | .cancelRequested => .cancelRequested
  | .closed => .closed
  | .failedHolding | .failedReleased => .failed

/-- Whether a phase holds its reservation. -/
def Phase.holdsReservation : Phase → Bool
  | .closed | .failedReleased => false
  | _ => true

/-- The refusal of a generation other than the machine's. -/
def staleGeneration (expected observed : ℕ) : Error :=
  Error.make .notReady
    (s!"logical session is bound to deployment generation {expected}, not {observed}")
    "stale_generation"

/-- The refusal of an event in a state. -/
def refusedEvent (state : LogicalSessionState) (event : LogicalSessionEvent) : Error :=
  let place := "logical session in state '" ++ state.toName ++ "'"
  if event.isClientEvent then
    Error.make .notReady (place ++ " refuses event '" ++ event.toName ++ "'") "illegal_transition"
  else
    Error.make .internal (place ++ " did not expect report '" ++ event.toName ++ "'")
      "unexpected_report"

namespace LogicalSessionMachine

/-- `LogicalSessionMachine::open`. -/
def openMachine (servingGeneration requestedGeneration : ℕ) :
    Except Error LogicalSessionMachine :=
  if servingGeneration = 0 then
    .error (Error.make .configInvalid
      "logical session opened on a worker without a deployment generation" "invalid_generation")
  else if requestedGeneration ≠ servingGeneration then
    .error (staleGeneration servingGeneration requestedGeneration)
  else .ok ⟨.opening, servingGeneration⟩

/-- `LogicalSessionMachine::state`. -/
def state (m : LogicalSessionMachine) : LogicalSessionState := m.phase.state

/-- `LogicalSessionMachine::holds_reservation`. -/
def holdsReservation (m : LogicalSessionMachine) : Bool := m.phase.holdsReservation

/-- `LogicalSessionMachine::apply`: the machine after the event, and the
effects or the refusal. -/
def apply (m : LogicalSessionMachine) (event : LogicalSessionEvent) :
    LogicalSessionMachine × Except Error LogicalSessionEffects :=
  match Rules.next m.phase event with
  | none => (m, .error (refusedEvent m.state event))
  | some (phase, effects) => ({ m with phase := phase }, .ok effects)

/-- `LogicalSessionMachine::check_generation`. -/
def checkGeneration (m : LogicalSessionMachine) (generation : ℕ) : Except Error Unit :=
  if generation ≠ m.generation then .error (staleGeneration m.generation generation)
  else .ok ()

/-- One event of a history: the machine after it, and the effects its
owner then carries out, none for a refused event. -/
def take (m : LogicalSessionMachine) (event : LogicalSessionEvent) :
    LogicalSessionMachine × LogicalSessionEffects :=
  match m.apply event with
  | (m', .ok effects) => (m', effects)
  | (m', .error _) => (m', [])

/-- **A whole history of events**: the machine it leads to and every effect
on the way, in the order carried out. -/
def run (m : LogicalSessionMachine) :
    List LogicalSessionEvent → LogicalSessionMachine × LogicalSessionEffects
  | [] => (m, [])
  | event :: later =>
    let taken := m.take event
    let rest := run taken.1 later
    (rest.1, taken.2 ++ rest.2)

end LogicalSessionMachine

end Serving

end Tensorplate
