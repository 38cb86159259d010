import Tensorplate.Sdk.Model.Tasks
import Tensorplate.Session.Model.Slot

/-!
# A session of the client and its session at the server

An SDK session and the server's side of its call, over one reliable ordered
channel in each direction: `SessionCall` reads the client's events, the
session manager applies them and calls the sink, the sink offers lifecycle
events to the session's output queue, and `CallOutput` takes them from
there. Of the manager only the session's own slot is here. A manager call
holds its lock over the sink's, so the two are one step. The checks of an
event against its session's terms and history are an answer of the step, as
is everything the agent, gRPC, the dispatch and the backend decide. `lost`
and `charged` are kept for the reader: the inputs the server read and did
not take, and those it took.
-/

namespace Tensorplate

namespace Stream

open Serving

/-- `ServerEvent`, with what the client reads of the events of its session's
lifecycle. -/
inductive Notice
  | ready (credit : Sdk.InputCredit)
  | accepted (sequence : ℕ) (credit : Sdk.InputCredit)
  | cancelAccepted
  | pong
  | status
  | sessionClosed (hasCause : Bool)
  /-- A task's output. -/
  | task
  deriving DecidableEq, Repr

/-- The client reads a notice as this body. Its own checks of the rest of
the event are in the body. -/
def Notice.tells : Notice → Sdk.ServerBody → Bool
  | .ready credit, .ready message => message.inputCredit = credit
  | .accepted sequence credit, .accepted sequence' credit' =>
    sequence = sequence' ∧ credit = credit'
  | .cancelAccepted, .cancelAccepted => true
  | .pong, .pong => true
  | .status, .status => true
  | .sessionClosed hasCause, .sessionClosed _ hasCause' => hasCause = hasCause'
  | .task, .task _ _ => true
  | _, _ => false

/-- `kPongReplaceKey`. -/
def kPongReplaceKey : ℕ := 1

/-- `kAcceptedReplaceKey`. -/
def kAcceptedReplaceKey : ℕ := 2

/-- `kStatusReplaceKey`. -/
def kStatusReplaceKey : ℕ := 3

/-- `lifecycle_item`, for an event of so many bytes. -/
def lifecycleItem (size : Notice → ℕ) (event : Notice) : OutputItem Notice where
  kind := match event with
    | .sessionClosed _ => .terminal
    | _ => .control
  bytes := max 1 (size event)
  replaceKey := match event with
    | .pong => kPongReplaceKey
    | .accepted .. => kAcceptedReplaceKey
    | .status => kStatusReplaceKey
    | _ => 0
  body := some event

/-- `wire_credit`. -/
def wireCredit (status : LogicalSessionStatus) (waiting : LogicalSessionUsage) :
    Sdk.InputCredit :=
  ⟨status.inputCreditBytes.used, status.inputCreditBytes.limit, waiting.used, waiting.limit⟩

/-- A client event on its way. -/
structure Sent where
  sequence : ℕ
  body : Sdk.ClientBody
  /-- The bytes of its audio or text. -/
  bytes : ℕ
  deriving DecidableEq, Repr

/-- **The two sides of a call, and the channels between them.** -/
structure Exchange where
  client : Sdk.World
  /-- `ByteSizeLong` of an event. -/
  size : Notice → ℕ
  toServer : List Sent := []
  /-- The server reads on. -/
  listens : Bool := true
  awaitingOpen : Bool := true
  slot : Slot Notice
  /-- `CallState::last_accepted_sequence`. -/
  lastAcceptedSequence : ℕ := 0
  /-- `CallState::offered`, less its counts. -/
  offered : ℕ := 0
  toClient : List (ℕ × Notice) := []
  charged : List (ℕ × ℕ) := []
  lost : List (ℕ × ℕ) := []
  /-- The Accepted events read: the sequence each named, and that of the last
  input written by then. -/
  heard : List (ℕ × ℕ) := []

/-- The inputs among the events, with their bytes. -/
def inputsOf (events : List Sent) : List (ℕ × ℕ) :=
  events.filterMap fun e =>
    match e.body with
    | .audio .. => some (e.sequence, e.bytes)
    | .textSegment _ => some (e.sequence, e.bytes)
    | _ => none

namespace Exchange

/-- The inputs written and not charged. -/
def uncharged (x : Exchange) : List (ℕ × ℕ) := x.lost ++ inputsOf x.toServer

/-- The inputs written on this call. -/
def written (x : Exchange) : List (ℕ × ℕ) := x.charged ++ x.uncharged

/-- The sequence of the last input written. -/
def lastWritten (x : Exchange) : ℕ := ((x.written.getLast?).map Prod.fst).getD 0

/-! ## The sink -/

/-- The sink's `offer`. -/
def offer (x : Exchange) (event : Notice) : Exchange :=
  let (slot, now) := x.slot.now
  { x with slot := { slot with
      output := (slot.output.offer (lifecycleItem x.size event) now).1 } }

/-- `offer_accepted`. -/
def offerAccepted (x : Exchange) (t : ManagedSessionTransition) : Exchange :=
  x.offer (.accepted x.lastAcceptedSequence (wireCredit t.status t.waitingSegments))

/-- What the sink does for one effect. -/
def onEffect (t : ManagedSessionTransition) (x : Exchange) : LogicalSessionEffect → Exchange
  | .emitCancelAccepted => x.offer .cancelAccepted
  | .emitReady => x.offer (.ready (wireCredit t.status t.waitingSegments))
  | .acceptInput => x.offerAccepted t
  | .emitReply => x.offer (if t.event = some .ping then .pong else .status)
  | .emitTerminal => x.offer (.sessionClosed t.cause.isSome)
  | _ => x

/-- `StreamListener::Impl::on_transition`. -/
def onTransition (x : Exchange) (t : ManagedSessionTransition) : Exchange :=
  let x := if t.event = some .data ∧ .acceptInput ∈ t.effects then
      { x with lastAcceptedSequence := x.offered } else x
  if t.event.isSome then t.effects.foldl (onEffect t) x
  -- Returned credit, with the sequence of the Accepted before.
  else if t.state = .active ∨ t.state = .finalizing then x.offerAccepted t
  else x

/-- A manager call has moved the slot; the sink was called with what it
showed. -/
def shows (x : Exchange) (slot : Slot Notice) : Exchange :=
  (slot.shown.drop x.slot.shown.length).foldl onTransition { x with slot := slot }

/-! ## The server -/

/-- The calls of the manager that do not come from the client's input. -/
inductive ManagerCall
  | apply (event : LogicalSessionEvent) (cause : Option Error)
  | releaseAudioInput (chunks bytes : ℕ)
  | startTextSegment
  | finishTextSegment
  | checkGeneration (generation : ℕ)
  | drain (cause : Error)
  | sweep
  deriving DecidableEq, Repr

/-- The slot after a call. -/
def ManagerCall.after (s : Slot Notice) : ManagerCall → Slot Notice
  | .apply event cause => (s.apply event cause).1
  | .releaseAudioInput chunks bytes => (s.releaseAudioInput chunks bytes).1
  | .startTextSegment => s.startTextSegment.1
  | .finishTextSegment => s.finishTextSegment.1
  | .checkGeneration generation => (s.checkGeneration generation).1
  | .drain cause => s.drain cause
  | .sweep => s.sweep

/-- A manager call of the dispatch, the listener or a timer. -/
def manages (x : Exchange) (call : ManagerCall) : Exchange := x.shows (call.after x.slot)

/-- The kind of input an SDK session sends. -/
def inputKind (x : Exchange) : SessionInputKind :=
  if x.client.session.sendsSegments then .text else .audio

/-- `open`, where it was not refused: a session of these budgets is made and
admitted, or failed by its initialization. -/
def opens (x : Exchange) (key generation : ℕ) (limits : SessionLimits) (budgets : SessionBudgets)
    (initialized : Except Error Unit) : Option Exchange :=
  match x.toServer with
  | ⟨_, .opening, _⟩ :: rest =>
    if !x.listens || !x.awaitingOpen then none
    -- The terms are those of the kind of session the Open asks for.
    else if budgets.inputKind ≠ x.inputKind then none
    else
      let (slot, now) := x.slot.now
      let entry : Entry := ⟨⟨.opening, generation⟩,
        SessionTimers.start limits budgets.inputKind now, { budgets := budgets }, none⟩
      let slot := { slot with
        key := key, entry := some entry, output := BoundedOutputQueue.ofBudgets budgets }
      let (slot, answer) := slot.admission entry initialized
      some ({ x with
        toServer := rest
        awaitingOpen := false
        listens := answer.toOption.isSome }.shows slot)
  | _ => none

/-- `open`, where it was refused; nothing more is read. -/
def refusesOpen (x : Exchange) : Option Exchange :=
  match x.toServer with
  | _ :: rest =>
    if !x.listens || !x.awaitingOpen then none
    else some { x with toServer := rest, awaitingOpen := false, listens := false }
  | [] => none

/-- The client's event fails the session. -/
def fails (x : Exchange) (cause : Error) : Exchange :=
  { x.shows (x.slot.apply .fail (some cause)).1 with listens := false }

/-- `apply`, of an event that carries nothing, and `finalize`. -/
def applies (x : Exchange) (event : LogicalSessionEvent) : Exchange :=
  let (slot, answer) := x.slot.apply event none
  { x.shows slot with listens := answer.toOption.isSome }

/-- An input was not taken. -/
def loses (x : Exchange) (e : Sent) : Exchange := { x with lost := x.lost ++ [(e.sequence, e.bytes)] }

/-- `audio` and `text_segment`: the input passes its checks or fails the
session, and is offered to the manager. -/
def input (x : Exchange) (e : Sent) (refusal : Option Error) : Exchange :=
  match refusal with
  | some cause => (x.loses e).fails cause
  | none =>
    let x := { x with offered := e.sequence }
    match x.slot.acceptInput e.bytes with
    | (slot, .error _) => { (x.loses e).shows slot with listens := false }
    | (slot, .ok t) =>
      if .acceptInput ∈ t.effects then
        { x with charged := x.charged ++ [(e.sequence, e.bytes)] }.shows slot
      else (x.loses e).shows slot

/-- `handle`, once the session is open: the next client event, with what the
checks of its sequence, its session and its content find. -/
def handles (x : Exchange) (refusal : Option Error) : Option Exchange :=
  match x.toServer with
  | [] => none
  | e :: rest =>
    if !x.listens || x.awaitingOpen then none
    else
      let x := { x with toServer := rest }
      some (match e.body with
      | .audio .. => x.input e refusal
      | .textSegment _ => x.input e refusal
      | body =>
        match refusal with
        | some cause => x.fails cause
        | none =>
          match body with
          | .finalize => x.applies .finalize
          | .ping => x.applies .ping
          | .cancel => x.applies .cancel
          | _ => x.fails (Error.make .configInvalid "a session is opened once" "invalid_event"))

/-- The dispatch offers task output. -/
def offers (x : Exchange) (kind : OutputKind) (bytes replaceKey : ℕ) : Option Exchange :=
  if !kind.taskOutput then none
  else
    let (slot, now) := x.slot.now
    some { x with slot := { slot with
      output := (slot.output.offer ⟨kind, bytes, replaceKey, some .task⟩ now).1 } }

/-- `CallOutput` takes the next event and writes it. -/
def takes (x : Exchange) : Option Exchange :=
  match x.slot.output.take with
  | (_, none) => none
  | (output, some taken) =>
    some { x with
      slot := { x.slot with output := output }
      toClient := x.toClient ++ (taken.item.body.map fun event => (taken.sequence, event)).toList }

/-- A write is confirmed. -/
def confirms (x : Exchange) (sequence : ℕ) : Exchange :=
  let (slot, now) := x.slot.now
  { x with slot := { slot with output := (slot.output.delivered sequence now).1 } }

/-! ## The client -/

/-- What the client wrote goes on its way, with the bytes of an input; a new
call is a new exchange. -/
def carries (bytes : ℕ) (x : Exchange) : Sdk.Happened → Exchange
  | .connected _ => { x with
      toServer := [], listens := true, awaitingOpen := true, toClient := []
      slot := { x.slot with entry := none, output := ⟨0, 0, 0, [], [], 0, 0, 0, none, false, false⟩ }
      lastAcceptedSequence := 0, offered := 0, charged := [], lost := [], heard := [] }
  | .wrote _ sequence body => { x with toServer := x.toServer ++ [⟨sequence, body, bytes⟩] }
  | _ => x

/-- The bytes of what a step of the client writes. -/
def bytesOf (w : Sdk.World) : Sdk.World.Action → ℕ
  | .locked n => (Sdk.World.chargeOf (w.tasks n).work).getD 0
  | _ => 0

/-- What `send_audio` and `send_text` check before they wait: each is a
method of its own kind of session, and an input is not empty. -/
def permits (w : Sdk.World) : Sdk.World.Action → Bool
  | .called _ (.sendAudio bytes _) => !w.session.sendsSegments && 0 < bytes
  | .called _ (.sendText bytes) => w.session.sendsSegments && 0 < bytes
  | .read _ => false
  | _ => true

/-- A step of the client other than a read. -/
def acts (x : Exchange) (a : Sdk.World.Action) : Option Exchange :=
  if !permits x.client a then none
  else (x.client.step a).map fun client =>
    (client.session.log.drop x.client.session.log.length).foldl (carries (bytesOf x.client a))
      { x with client := client }

/-- The client reads the next event, as this body. -/
def reads (x : Exchange) (body : Sdk.ServerBody) : Option Exchange :=
  match x.toClient with
  | [] => none
  | (sequence, event) :: rest =>
    if !event.tells body then none
    else (x.client.step (.read ⟨sequence, body⟩)).map fun client => { x with
      client := client
      toClient := rest
      heard := match event with
        | .accepted named _ => x.heard ++ [(named, x.lastWritten)]
        | _ => x.heard }

/-- A step of the exchange. -/
inductive Action
  | acts (a : Sdk.World.Action)
  | reads (body : Sdk.ServerBody)
  | opens (key generation : ℕ) (limits : SessionLimits) (budgets : SessionBudgets)
      (initialized : Except Error Unit)
  | refusesOpen
  | handles (refusal : Option Error)
  | manages (call : ManagerCall)
  | offers (kind : OutputKind) (bytes replaceKey : ℕ)
  | takes
  | confirms (sequence : ℕ)
  /-- The manager serves other sessions meanwhile. -/
  | elapses (readings : ℕ)

/-- **The step.** -/
def step (x : Exchange) : Action → Option Exchange
  | .acts a => x.acts a
  | .reads body => x.reads body
  | .opens key generation limits budgets initialized =>
    x.opens key generation limits budgets initialized
  | .refusesOpen => x.refusesOpen
  | .handles refusal => x.handles refusal
  | .manages call => some (x.manages call)
  | .offers kind bytes replaceKey => x.offers kind bytes replaceKey
  | .takes => x.takes
  | .confirms sequence => some (x.confirms sequence)
  | .elapses readings => some { x with slot := { x.slot with reads := x.slot.reads + readings } }

/-- Before the client's open. -/
def fresh (client : Sdk.World) (size : Notice → ℕ) (clock : ℕ → TimePoint) : Exchange where
  client := client
  size := size
  slot := {
    key := 0
    clock := clock
    reads := 0
    entry := none
    output := ⟨0, 0, 0, [], [], 0, 0, 0, none, false, false⟩
    tombstones := []
    shown := []
    moments := [] }

end Exchange

end Stream

end Tensorplate
