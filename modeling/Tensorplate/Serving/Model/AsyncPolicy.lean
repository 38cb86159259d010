import Tensorplate.Core.InferRequest
import Tensorplate.Core.InferResult

/-!
# The async-policy store

`AsyncPolicyStore` under its mutex: the list of entries, the index by
request id, and the counters kept by hand. An entry is named by its
address. What the store has released and handed out, when an entry ended
and which entries were removed for their age are recorded beside it.
-/

namespace Tensorplate

namespace AsyncPolicy

/-- `AsyncStatus`. -/
inductive AsyncStatus
  | pending
  | inFlight
  | completed
  | cancelled
  | stale
  | failed
  | expired
  deriving DecidableEq, Repr

/-- `AsyncPolicyConfig`, its age in milliseconds. -/
structure AsyncPolicyConfig where
  maxCompleted : ℕ := 64
  completedTtl : ℤ := 60000
  maxPending : ℕ := 256
  deriving DecidableEq, Repr

/-- The age of an entry that is to go, in nanoseconds. -/
def AsyncPolicyConfig.ttl (config : AsyncPolicyConfig) : ℤ := config.completedTtl * 1000000

/-- `AsyncPolicyStore::Entry`; `endedAt` is the instant of the call that
last ended it. -/
structure Entry where
  address : ℕ
  requestId : String
  correlationId : Option String
  actionChunkId : Option String
  actionChunkSequence : Option ℤ
  status : AsyncStatus := .pending
  result : Option InferResult := none
  error : Option Error := none
  completedAt : ℤ := 0
  acceptedAt : ℤ := 0
  endedAt : ℤ := 0
  deriving DecidableEq, Repr

/-- `CountSnapshot`. -/
structure CountSnapshot where
  pending : ℕ := 0
  inFlight : ℕ := 0
  completed : ℕ := 0
  cancelled : ℕ := 0
  stale : ℕ := 0
  failed : ℕ := 0
  expired : ℕ := 0
  deriving DecidableEq, Repr

/-- An entry leaves `pending` or `inFlight`: its counter goes down, unless
it is zero. -/
def CountSnapshot.leave (c : CountSnapshot) : AsyncStatus → CountSnapshot
  | .pending => { c with pending := c.pending - 1 }
  | .inFlight => { c with inFlight := c.inFlight - 1 }
  | _ => c

/-- `AsyncPolicyStore`. -/
structure AsyncPolicyStore where
  config : AsyncPolicyConfig
  entries : List Entry := []
  byId : List (String × ℕ) := []
  counts : CountSnapshot := {}
  /-- The addresses given out. -/
  added : ℕ := 0
  /-- The results handed in. -/
  published : ℕ := 0
  released : List ℕ := []
  taken : List ℕ := []
  /-- The entries removed for their age, and when. -/
  aged : List (Entry × ℤ) := []
  deriving DecidableEq, Repr

namespace AsyncPolicyStore

/-- The entry `by_id_` points to. -/
def find (s : AsyncPolicyStore) (requestId : String) : Option Entry :=
  (s.byId.find? fun p => p.1 = requestId).bind fun p => s.entries.find? fun e => e.address = p.2

/-- An entry is changed in place. -/
def put (s : AsyncPolicyStore) (e : Entry) : AsyncPolicyStore :=
  { s with entries := s.entries.map fun x => if x.address = e.address then e else x }

/-- An entry leaves the index and the list. -/
def erase (s : AsyncPolicyStore) (e : Entry) : AsyncPolicyStore :=
  { s with
    byId := s.byId.filter fun p => p.1 ≠ e.requestId
    entries := s.entries.filter fun x => x.address ≠ e.address }

/-- `release_partial_outputs` of a result. -/
def releaseResult (s : AsyncPolicyStore) (result : InferResult) : AsyncPolicyStore :=
  { s with released := s.released ++ [result.number] }

/-- The same of a result that may be there. -/
def releaseHeld (s : AsyncPolicyStore) (e : Entry) : AsyncPolicyStore :=
  match e.result with
  | some result => s.releaseResult result
  | none => s

/-- `add_pending`. -/
def addPending (s : AsyncPolicyStore) (request : InferRequest) (now : ℤ) :
    AsyncPolicyStore × Except Error Unit :=
  if s.counts.pending + s.counts.inFlight ≥ s.config.maxPending then
    (s, .error ⟨.oomError, "async store: max_pending exceeded", none⟩)
  else if s.byId.any fun p => p.1 = request.requestId then
    (s, .error ⟨.internal, "async store: duplicate request_id " ++ request.requestId, none⟩)
  else
    let entry : Entry :=
      { address := s.added
        requestId := request.requestId
        correlationId := request.metadata.correlationId
        actionChunkId := request.metadata.actionChunkId
        actionChunkSequence := request.metadata.actionChunkSequence
        acceptedAt := now }
    ({ s with
        byId := s.byId ++ [(request.requestId, s.added)]
        entries := s.entries ++ [entry]
        counts := { s.counts with pending := s.counts.pending + 1 }
        added := s.added + 1 }, .ok ())

/-- `mark_in_flight`. -/
def markInFlight (s : AsyncPolicyStore) (requestId : String) : AsyncPolicyStore :=
  match s.find requestId with
  | none => s
  | some e =>
    if e.status = .pending then
      { s.put { e with status := .inFlight } with
        counts := { s.counts with
          pending := s.counts.pending - 1
          inFlight := s.counts.inFlight + 1 } }
    else s

/-- An outcome for an entry of this status is suppressed. -/
def suppressed (status : AsyncStatus) : Bool :=
  status = .cancelled || status = .stale || status = .expired

/-- `publish_result`: whether it was stored. -/
def publishResult (s : AsyncPolicyStore) (requestId : String) (result : InferResult) (now : ℤ) :
    AsyncPolicyStore × Bool :=
  let result := { result with number := s.published }
  let s := { s with published := s.published + 1 }
  match s.find requestId with
  | none => (s.releaseResult result, false)
  | some e =>
    if suppressed e.status then (s.releaseResult result, false)
    else
      let counts := s.counts.leave e.status
      ({ s.put { e with
            status := .completed, result := some result, completedAt := now, endedAt := now } with
          counts := { counts with completed := counts.completed + 1 } }, true)

/-- `publish_failure`: whether it was stored. -/
def publishFailure (s : AsyncPolicyStore) (requestId : String) (error : Error) (now : ℤ) :
    AsyncPolicyStore × Bool :=
  match s.find requestId with
  | none => (s, false)
  | some e =>
    if suppressed e.status then (s, false)
    else
      let counts := s.counts.leave e.status
      ({ s.put { e with
            status := .failed, error := some error, completedAt := now, endedAt := now } with
          counts := { counts with failed := counts.failed + 1 } }, true)

/-- `cancel`: whether the entry was cancelled. -/
def cancel (s : AsyncPolicyStore) (requestId : String) (now : ℤ) : AsyncPolicyStore × Bool :=
  match s.find requestId with
  | none => (s, false)
  | some e =>
    if e.status = .cancelled then (s, false)
    else
      let counts := s.counts.leave e.status
      let e' := { e with status := .cancelled, endedAt := now }
      if e.status = .completed then
        ({ (s.releaseHeld e).put { e' with result := none } with
            counts := { counts with
              completed := counts.completed - 1
              cancelled := counts.cancelled + 1 } }, true)
      else ({ s.put e' with counts := { counts with cancelled := counts.cancelled + 1 } }, true)

/-- An entry becomes stale. -/
def toStale (s : AsyncPolicyStore) (e : Entry) (now : ℤ) : AsyncPolicyStore :=
  let counts := s.counts.leave e.status
  let e' := { e with status := .stale, endedAt := now }
  if e.status = .completed ∧ e.result.isSome then
    { (s.releaseHeld e).put { e' with result := none } with
      counts := { counts with completed := counts.completed - 1, stale := counts.stale + 1 } }
  else { s.put e' with counts := { counts with stale := counts.stale + 1 } }

/-- `mark_stale`: whether the entry became stale. -/
def markStale (s : AsyncPolicyStore) (requestId : String) (now : ℤ) : AsyncPolicyStore × Bool :=
  match s.find requestId with
  | none => (s, false)
  | some e => if e.status = .stale then (s, false) else (s.toStale e now, true)

/-- One entry of `mark_stale_before_sequence`. -/
def staleBefore (staleAfterSequence : ℤ) (now : ℤ) (acc : AsyncPolicyStore × List String)
    (e : Entry) : AsyncPolicyStore × List String :=
  if e.status = .cancelled ∨ e.status = .stale then acc
  else if e.actionChunkSequence.any (fun q => q ≤ staleAfterSequence) = true then
    (acc.1.toStale e now,
      if e.status = .pending ∨ e.status = .inFlight then acc.2 ++ [e.requestId] else acc.2)
  else acc

/-- `mark_stale_before_sequence`: the ids that were pending or in flight. -/
def markStaleBeforeSequence (s : AsyncPolicyStore) (staleAfterSequence : ℤ) (now : ℤ) :
    AsyncPolicyStore × List String :=
  s.entries.foldl (staleBefore staleAfterSequence now) (s, [])

/-- `take_completed_result`. -/
def takeCompletedResult (s : AsyncPolicyStore) (requestId : String) :
    AsyncPolicyStore × Option InferResult :=
  match s.find requestId with
  | none => (s, none)
  | some e =>
    match e.result with
    | none => (s, none)
    | some result =>
      if e.status ≠ .completed then (s, none)
      else
        ({ s.erase e with
            counts := { s.counts with completed := s.counts.completed - 1 }
            taken := s.taken ++ [result.number] }, some result)

/-- `release_completed`: whether the entry existed. -/
def releaseCompleted (s : AsyncPolicyStore) (requestId : String) : AsyncPolicyStore × Bool :=
  match s.find requestId with
  | none => (s, false)
  | some e =>
    ({ (s.releaseHeld e).erase e with
        counts := if e.status = .completed then
          { s.counts with completed := s.counts.completed - 1 } else s.counts }, true)

/-- The entry ended, one way or another. -/
def completedLike (status : AsyncStatus) : Bool :=
  status = .completed || status = .failed || status = .cancelled || status = .stale ||
    status = .expired

/-- An entry is evicted. -/
def evict (s : AsyncPolicyStore) (e : Entry) : AsyncPolicyStore :=
  { (s.releaseHeld e).erase e with
    counts := if e.status = .completed then
      { s.counts with completed := s.counts.completed - 1 } else s.counts }

/-- One entry of the first loop of `enforce_bounds`. -/
def evictIfAged (now : ℤ) (s : AsyncPolicyStore) (e : Entry) : AsyncPolicyStore :=
  if completedLike e.status ∧ now - e.completedAt > s.config.ttl then
    { s.evict e with aged := s.aged ++ [(e, now)] }
  else s

/-- The first loop of `enforce_bounds`. -/
def evictAged (s : AsyncPolicyStore) (now : ℤ) : AsyncPolicyStore :=
  s.entries.foldl (evictIfAged now) s

/-- The second loop of `enforce_bounds`, at a count of completed entries:
the oldest completed entry goes. -/
def evictOldest (s : AsyncPolicyStore) : ℕ → AsyncPolicyStore
  | 0 => s
  | completedCount + 1 =>
    if completedCount + 1 > s.config.maxCompleted then
      match s.entries.find? fun e => e.status = .completed with
      | some e => (s.evict e).evictOldest completedCount
      | none => s
    else s

/-- `enforce_bounds`. -/
def enforceBounds (s : AsyncPolicyStore) (now : ℤ) : AsyncPolicyStore :=
  let s := s.evictAged now
  s.evictOldest (s.entries.countP fun e => e.status = .completed)

/-- `cancel_all`. -/
def cancelAll (s : AsyncPolicyStore) (now : ℤ) : AsyncPolicyStore :=
  let targets := (s.entries.filter fun e =>
    e.status = .pending || e.status = .inFlight || e.status = .completed).map Entry.requestId
  targets.foldl (fun s requestId => (s.cancel requestId now).1) s

end AsyncPolicyStore

/-- A call of the store, with the instant it is made at. -/
inductive StoreCall
  | addPending (request : InferRequest) (now : ℤ)
  | markInFlight (requestId : String)
  | publishResult (requestId : String) (result : InferResult) (now : ℤ)
  | publishFailure (requestId : String) (error : Error) (now : ℤ)
  | cancel (requestId : String) (now : ℤ)
  | markStale (requestId : String) (now : ℤ)
  | markStaleBeforeSequence (staleAfterSequence : ℤ) (now : ℤ)
  | takeCompletedResult (requestId : String)
  | releaseCompleted (requestId : String)
  | enforceBounds (now : ℤ)
  | cancelAll (now : ℤ)

/-- The store behind a call. -/
def AsyncPolicyStore.step (s : AsyncPolicyStore) : StoreCall → Option AsyncPolicyStore
  | .addPending request now => some (s.addPending request now).1
  | .markInFlight requestId => some (s.markInFlight requestId)
  | .publishResult requestId result now => some (s.publishResult requestId result now).1
  | .publishFailure requestId error now => some (s.publishFailure requestId error now).1
  | .cancel requestId now => some (s.cancel requestId now).1
  | .markStale requestId now => some (s.markStale requestId now).1
  | .markStaleBeforeSequence q now => some (s.markStaleBeforeSequence q now).1
  | .takeCompletedResult requestId => some (s.takeCompletedResult requestId).1
  | .releaseCompleted requestId => some (s.releaseCompleted requestId).1
  | .enforceBounds now => some (s.enforceBounds now)
  | .cancelAll now => some (s.cancelAll now)

end AsyncPolicy

end Tensorplate
