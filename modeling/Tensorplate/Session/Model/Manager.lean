import Tensorplate.Lib.Table
import Tensorplate.Session.Model.Slot

/-!
# The session manager

`SessionManager`: the sessions of one worker, their slots and their
ledger. A call that names a session is its slot's operation; `open`,
`stop_admission_and_drain` and `sweep_due` are the manager's own. An
output queue is shared with the stream and the dispatch and outlives the
entry that made it, so the queues stand beside the entries.
-/

namespace Tensorplate

namespace Serving

open Lib

/-- `ipc::WorkerLedger`. -/
structure WorkerLedger where
  ceiling : ℕ
  reserved : ℕ
  active : ℕ
  closing : ℕ
  admissionMonotonicNs : List TimePoint
  deriving DecidableEq, Repr

/-- `SessionManager`. `clock` gives the time of each reading and `reads`
counts them; `shown` and `moments` are the slots' records of the sink's
calls and of the accepted events. -/
structure SessionManager (β : Type) where
  limits : SessionLimits
  servingGeneration : ℕ
  clock : ℕ → TimePoint
  reads : ℕ := 0
  entries : Table Entry := ∅
  outputs : Table (BoundedOutputQueue β) := ∅
  tombstones : List SessionTombstone := []
  nextKey : ℕ := 1
  admissionOpen : Bool := true
  shown : List ManagedSessionTransition := []
  moments : List Moment := []

namespace SessionManager

variable {β : Type}

/-- `create`, whose sink and timer thread are the caller's. -/
def create (limits : SessionLimits) (servingGeneration : ℕ) (clock : ℕ → TimePoint) :
    Except Error (SessionManager β) :=
  if servingGeneration = 0 then
    .error (Error.make .configInvalid "invalid session manager setup" "invalid_session_manager")
  else .ok { limits := limits, servingGeneration := servingGeneration, clock := clock }

/-- The queue of a key never opened; no call reaches it. -/
def noOutput : BoundedOutputQueue β := { pcmLimit := 0, metadataLimit := 0, controlReserve := 0 }

/-- What a call naming `key` touches. -/
def slot (m : SessionManager β) (key : ℕ) : Slot β where
  key := key
  clock := m.clock
  reads := m.reads
  entry := m.entries[key]?
  output := m.outputs[key]?.getD noOutput
  tombstones := m.tombstones
  shown := m.shown
  moments := m.moments

/-- The manager with a slot put back. -/
def put (m : SessionManager β) (s : Slot β) : SessionManager β :=
  { m with
    reads := s.reads
    entries := match s.entry with
      | some entry => m.entries.insert s.key entry
      | none => m.entries.erase s.key
    outputs := m.outputs.modify s.key fun _ => s.output
    tombstones := s.tombstones
    shown := s.shown
    moments := s.moments }

/-- A call naming `key`. -/
def call {γ : Type} (m : SessionManager β) (key : ℕ) (operation : Slot β → Slot β × γ) :
    SessionManager β × γ :=
  let (s, answer) := operation (m.slot key)
  (m.put s, answer)

/-- `open`, with the answers of its two hooks. -/
def openSession (m : SessionManager β) (requestedGeneration : ℕ) (budgets : SessionBudgets)
    (admissionCheck initialized : Except Error Unit) :
    SessionManager β × Except Error ManagedSessionTransition :=
  if !m.admissionOpen then
    (m, .error (Error.make .notReady "session admission is closed" "admission_closed"))
  else
    -- Before the count: a closed admission is the answer whatever the slots hold.
    match admissionCheck with
    | .error refusal => (m, .error refusal)
    | .ok () =>
      if m.entries.size ≥ m.limits.maxSessions then
        (m, .error (Error.make .resourceExhausted "session count limit reached"
          "session_count_limit"))
      else if m.nextKey = word64 - 1 then
        (m, .error (Error.make .resourceExhausted "session key space exhausted"
          "session_key_exhausted"))
      else
        match LogicalSessionMachine.openMachine m.servingGeneration requestedGeneration with
        | .error refusal => (m, .error refusal)
        | .ok machine =>
          let key := m.nextKey
          let now := m.clock m.reads
          let m := { m with nextKey := key + 1, reads := m.reads + 1 }
          if m.entries.contains key then
            (m, .error (Error.make .internal "session key collision" "session_key_collision"))
          else
            let entry : Entry :=
              ⟨machine, SessionTimers.start m.limits budgets.inputKind now, { budgets := budgets },
                none⟩
            let m := { m with
              entries := m.entries.insert key entry
              outputs := m.outputs.insert key (BoundedOutputQueue.ofBudgets budgets) }
            m.call key fun s => s.admission entry initialized

/-- `apply`. -/
def apply (m : SessionManager β) (key : ℕ) (event : LogicalSessionEvent) (cause : Option Error) :
    SessionManager β × Except Error ManagedSessionTransition :=
  m.call key fun s => s.apply event cause

/-- `accept_input`. -/
def acceptInput (m : SessionManager β) (key bytes : ℕ) :
    SessionManager β × Except Error ManagedSessionTransition :=
  m.call key fun s => s.acceptInput bytes

/-- `release_audio_input`. -/
def releaseAudioInput (m : SessionManager β) (key chunks bytes : ℕ) :
    SessionManager β × Except Error LogicalSessionStatus :=
  m.call key fun s => s.releaseAudioInput chunks bytes

/-- `start_text_segment`. -/
def startTextSegment (m : SessionManager β) (key : ℕ) :
    SessionManager β × Except Error LogicalSessionStatus :=
  m.call key fun s => s.startTextSegment

/-- `finish_text_segment`. -/
def finishTextSegment (m : SessionManager β) (key : ℕ) :
    SessionManager β × Except Error LogicalSessionStatus :=
  m.call key fun s => s.finishTextSegment

/-- `check_generation`. -/
def checkGeneration (m : SessionManager β) (key generation : ℕ) :
    SessionManager β × Except Error Unit :=
  m.call key fun s => s.checkGeneration generation

/-- The loop of the two calls that visit every session: the keys are read
once, then each slot is visited. -/
def forEach (m : SessionManager β) (visit : Slot β → Slot β) : List ℕ → SessionManager β
  | [] => m
  | key :: rest => (m.put (visit (m.slot key))).forEach visit rest

/-- `stop_admission_and_drain`. -/
def stopAdmissionAndDrain (m : SessionManager β) (cause : Error) : SessionManager β :=
  { m with admissionOpen := false }.forEach (fun s => s.drain cause) m.entries.keys

/-- `sweep_due`. -/
def sweepDue (m : SessionManager β) : SessionManager β :=
  m.forEach Slot.sweep m.entries.keys

/-- `held_slots`. -/
def heldSlots (m : SessionManager β) : ℕ := m.entries.size

/-- One entry's part of the ledger. -/
def ledgerEntry (ledger : WorkerLedger) (entry : Entry) : WorkerLedger :=
  match entry.machine.state with
  | .opening =>
    { ledger with
      reserved := ledger.reserved + 1
      admissionMonotonicNs := ledger.admissionMonotonicNs ++ [entry.timers.openedAt] }
  | .active | .finalizing =>
    { ledger with
      active := ledger.active + 1
      admissionMonotonicNs := ledger.admissionMonotonicNs ++ [entry.timers.openedAt] }
  | .draining | .cancelRequested | .failed => { ledger with closing := ledger.closing + 1 }
  | .closed => ledger

/-- `ledger`. -/
def ledger (m : SessionManager β) : WorkerLedger :=
  let counted := m.entries.values.foldl ledgerEntry ⟨m.limits.maxSessions, 0, 0, 0, []⟩
  -- Oldest first whatever order the keys were taken in.
  { counted with admissionMonotonicNs := counted.admissionMonotonicNs.mergeSort (· ≤ ·) }

end SessionManager

end Serving

end Tensorplate
