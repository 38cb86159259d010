import Tensorplate.Lib.Split
import Tensorplate.Lib.Word
import Tensorplate.Session.Model.Limits

/-!
# The bounded output queue

`BoundedOutputQueue`: one stream's server messages, in sending order. An
item is charged to its budget from its offer until its delivery. The
queue never looks inside a body, so the body type is a parameter; the
consumer it wakes is the transport's, and waking it changes nothing here.
-/

namespace Tensorplate

namespace Serving

open Lib

/-- `OutputKind`. `partialText` is the source's `Partial`, a replaceable
hypothesis. -/
inductive OutputKind
  | audio
  | partialText
  | result
  | control
  | terminal
  deriving DecidableEq, Repr

/-- `OutputItem`. -/
structure OutputItem (β : Type) where
  kind : OutputKind
  bytes : ℕ
  replaceKey : ℕ
  body : Option β
  deriving DecidableEq, Repr

/-- `SequencedOutput`: an item taken, with the sequence the stream gave it. -/
structure SequencedOutput (β : Type) where
  sequence : ℕ
  item : OutputItem β
  deriving DecidableEq, Repr

/-- `OutputOffer`. -/
inductive OutputOffer
  | queued
  | replaced
  | full
  | suppressed
  | closed
  deriving DecidableEq, Repr

/-- `task_output`. -/
def OutputKind.taskOutput : OutputKind → Bool
  | .audio | .partialText | .result => true
  | .control | .terminal => false

/-- `valid`. -/
def OutputItem.valid {β : Type} (item : OutputItem β) : Bool :=
  if item.body.isNone || item.bytes == 0 then false
  else
    match item.kind with
    | .audio | .terminal => item.replaceKey == 0
    | .partialText => item.replaceKey != 0
    | .result | .control => true

/-- `BoundedOutputQueue::InFlight`. -/
structure InFlight where
  sequence : ℕ
  kind : OutputKind
  bytes : ℕ
  deriving DecidableEq, Repr

/-- `BoundedOutputQueue`. -/
structure BoundedOutputQueue (β : Type) where
  pcmLimit : ℕ
  metadataLimit : ℕ
  controlReserve : ℕ
  unsent : List (OutputItem β) := []
  inFlight : List InFlight := []
  pcmUsed : ℕ := 0
  metadataUsed : ℕ := 0
  lastSequence : ℕ := 0
  stalledSince : Option TimePoint := none
  suppressed : Bool := false
  closed : Bool := false
  deriving DecidableEq, Repr

namespace BoundedOutputQueue

variable {β : Type}

/-- The queue of a session's budgets. -/
def ofBudgets (budgets : SessionBudgets) : BoundedOutputQueue β where
  pcmLimit := budgets.outputPcmBytes
  metadataLimit := budgets.outputMetadataBytes
  controlReserve := budgets.outputControlReserveBytes

/-- `limit_for`. -/
def limitFor (q : BoundedOutputQueue β) (kind : OutputKind) : ℕ :=
  if kind = .audio then q.pcmLimit
  else if kind.taskOutput then sub64 q.metadataLimit q.controlReserve
  else q.metadataLimit

/-- `pending_locked`. -/
def pendingLocked (q : BoundedOutputQueue β) : Bool :=
  !q.unsent.isEmpty || !q.inFlight.isEmpty

/-- The unsent items a lookup under `kind` and `key` meets. -/
def keyed (kind : OutputKind) (key : ℕ) (queued : OutputItem β) : Bool :=
  queued.kind == kind && queued.replaceKey == key

/-- `find_unsent_locked`. -/
def findUnsentLocked (q : BoundedOutputQueue β) (kind : OutputKind) (key : ℕ) :
    Option (List (OutputItem β) × OutputItem β × List (OutputItem β)) :=
  if key = 0 then none else splitFirst (keyed kind key) q.unsent

/-- The counter an item of `kind` is charged to. -/
def used (q : BoundedOutputQueue β) (kind : OutputKind) : ℕ :=
  if kind = .audio then q.pcmUsed else q.metadataUsed

/-- Sets the counter an item of `kind` is charged to. -/
def setUsed (q : BoundedOutputQueue β) (kind : OutputKind) (value : ℕ) : BoundedOutputQueue β :=
  if kind = .audio then { q with pcmUsed := value } else { q with metadataUsed := value }

/-- The end of `queue_locked`: the item is appended, and the stall clock
starts where nothing awaited delivery. -/
def push (q : BoundedOutputQueue β) (item : OutputItem β) (wasPending : Bool) (now : TimePoint) :
    BoundedOutputQueue β × OutputOffer :=
  ({ q with
      unsent := q.unsent ++ [item]
      stalledSince := if wasPending then q.stalledSince else some now }, .queued)

/-- `queue_locked`. -/
def queueLocked (q : BoundedOutputQueue β) (item : OutputItem β) (now : TimePoint) :
    BoundedOutputQueue β × OutputOffer :=
  let limit := q.limitFor item.kind
  if q.closed then (q, .closed)
  else if q.suppressed && item.kind.taskOutput then (q, .suppressed)
  else
    let wasPending := q.pendingLocked
    if item.kind ≠ .terminal then
      -- A result supersedes the partial of its utterance; a partial or a
      -- keyed reply replaces its own kind.
      let replaces := if item.kind = .result then .partialText else item.kind
      let old := q.findUnsentLocked replaces item.replaceKey
      let returned := match old with
        | none => 0
        | some (_, found, _) => found.bytes
      let others := sub64 (q.used item.kind) returned
      -- A replacement no larger than what it replaces always fits.
      if item.bytes > returned && (others > limit || item.bytes > sub64 limit others) then
        (q, .full)
      else
        let charged := q.setUsed item.kind (add64 others item.bytes)
        match old with
        | none => charged.push item wasPending now
        | some (front, _, back) =>
          if item.kind = replaces then
            ({ charged with unsent := front ++ item :: back }, .replaced)
          else { charged with unsent := front ++ back }.push item wasPending now
    else { q with closed := true }.push item wasPending now

/-- `invalid_item`. -/
def invalidItem (message context : String) : Error :=
  Error.make .configInvalid message context

/-- `offer`. -/
def offer (q : BoundedOutputQueue β) (item : OutputItem β) (now : TimePoint) :
    BoundedOutputQueue β × Except Error OutputOffer :=
  if !item.valid then
    (q, .error (invalidItem "output item is not well formed" "invalid_output_item"))
  else if item.bytes > q.limitFor item.kind then
    (q, .error (invalidItem "output item exceeds all its kind may use" "output_item_too_large"))
  else
    let (q', outcome) := q.queueLocked item now
    (q', .ok outcome)

/-- `take`. -/
def take (q : BoundedOutputQueue β) : BoundedOutputQueue β × Option (SequencedOutput β) :=
  match q.unsent with
  | [] => (q, none)
  | item :: rest =>
    -- A session lives at most 60 minutes, so the sequence cannot wrap.
    let sequence := q.lastSequence + 1
    ({ q with
        lastSequence := sequence
        unsent := rest
        inFlight := q.inFlight ++ [⟨sequence, item.kind, item.bytes⟩] },
      some ⟨sequence, item⟩)

/-- Returns a charge. -/
def discharge (q : BoundedOutputQueue β) (kind : OutputKind) (bytes : ℕ) : BoundedOutputQueue β :=
  if kind = .audio then { q with pcmUsed := sub64 q.pcmUsed bytes }
  else if kind ≠ .terminal then { q with metadataUsed := sub64 q.metadataUsed bytes }
  else q

/-- `delivered`. -/
def delivered (q : BoundedOutputQueue β) (sequence : ℕ) (now : TimePoint) :
    BoundedOutputQueue β × Except Error Unit :=
  match q.inFlight with
  | [] => (q, .error outOfOrder)
  | done :: rest =>
    if done.sequence ≠ sequence then (q, .error outOfOrder)
    else
      let q' := { q with inFlight := rest }.discharge done.kind done.bytes
      ({ q' with stalledSince := if q'.pendingLocked then some now else none }, .ok ())
where
  outOfOrder : Error :=
    Error.make .internal "delivery confirmed out of sequence order" "delivery_out_of_order"

/-- The loop of `suppress`: discards the task output of `unsent`, returning
each charge, and keeps the rest. -/
def discardTaskOutput (q : BoundedOutputQueue β) :
    List (OutputItem β) → BoundedOutputQueue β × List (OutputItem β)
  | [] => (q, [])
  | item :: rest =>
    if !item.kind.taskOutput then
      let (q', kept) := q.discardTaskOutput rest
      (q', item :: kept)
    else (q.discharge item.kind item.bytes).discardTaskOutput rest

/-- `suppress`. -/
def suppress (q : BoundedOutputQueue β) : BoundedOutputQueue β :=
  let (q', kept) := { q with suppressed := true }.discardTaskOutput q.unsent
  let q'' := { q' with unsent := kept }
  { q'' with stalledSince := if q''.pendingLocked then q''.stalledSince else none }

/-- `pcm_usage`. -/
def pcmUsage (q : BoundedOutputQueue β) : LogicalSessionUsage :=
  LogicalSessionUsage.ofUse q.pcmUsed q.pcmLimit

/-- `metadata_usage`. -/
def metadataUsage (q : BoundedOutputQueue β) : LogicalSessionUsage :=
  LogicalSessionUsage.ofUse q.metadataUsed q.metadataLimit

end BoundedOutputQueue

end Serving

end Tensorplate
