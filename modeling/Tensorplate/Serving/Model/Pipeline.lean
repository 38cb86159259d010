import Tensorplate.Lib.Runs
import Tensorplate.Scheduler.Model.FifoScheduler
import Tensorplate.Serving.Model.AsyncPolicy

/-!
# The serving pipeline

`ServingPipeline` over its scheduler and the async store, with the handlers
that call it and the one dispatcher. A handler of `/infer` or
`/policy/infer` is a caller, named by its ticket; the other handlers and
the loops of the worker act beside it. Every lock is one step, so anything
may happen between two of them.

Beside the state stand the ticket behind each number the scheduler gave,
the ticket behind each entry and each result of the store, and a log of
what became of the outcomes.
-/

namespace Tensorplate

namespace Pipeline

open Scheduler AsyncPolicy

/-- `SyncOutcome`, with the ticket of the request that was inferred. -/
structure SyncOutcome where
  result : Except Error InferResult
  origin : ℕ
  deriving DecidableEq, Repr

/-- `ServingPipeline::SyncWaiter`. -/
structure SyncWaiter where
  done : Bool := false
  dispatched : Bool := false
  abandoned : Bool := false
  outcome : Option SyncOutcome := none
  deriving DecidableEq, Repr

/-- Where a caller stands: before `InferRequest::create`, in `run_sync`, in
`run_async`, or behind them. -/
inductive Stage
  | creating (relativeDeadline : Option ℤ)
  | entered
  /-- `run_sync` is about to take `sync_waiters_mutex_`. -/
  | registering
  | syncAdmitting
  /-- The scheduler refused; the waiter is about to go. -/
  | unregistering (error : Error)
  | waiting
  /-- It gave up; the waiter is about to go. -/
  | abandoned
  /-- Its waiter is gone; the request is about to be cancelled. -/
  | withdrawing
  /-- It has its outcome; the waiter is about to go. -/
  | leaving (outcome : SyncOutcome)
  /-- `run_async` is about to add its entry. -/
  | adding
  | asyncAdmitting
  /-- The scheduler refused; the entry is about to be cancelled. -/
  | undoing (error : Error)
  | refused (error : Error)
  | accepted
  | timedOut
  /-- `run_sync` has returned; the handler is about to render. -/
  | answered (outcome : SyncOutcome)
  | ended
  deriving DecidableEq, Repr

/-- A handler of `/infer` or `/policy/infer` behind its allocation. -/
structure Caller where
  request : InferRequest
  sync : Bool
  stage : Stage
  waiter : SyncWaiter := {}
  deriving DecidableEq, Repr

/-- Where `dispatch_one` stands, with the waiter it found. -/
inductive Dispatcher
  | idle
  | taken (r : SchedulerRequest)
  | found (r : SchedulerRequest) (waiter : Option ℕ)
  /-- The waiter gave up: the buffers are about to go back. -/
  | dropping (r : SchedulerRequest)
  | dropped (r : SchedulerRequest)
  | ready (r : SchedulerRequest) (waiter : Option ℕ)
  | inferred (r : SchedulerRequest) (waiter : Option ℕ) (outcome : Except Error InferResult)
  | released (r : SchedulerRequest) (waiter : Option ℕ) (outcome : Except Error InferResult)
  /-- The completion is told; the outcome is about to be delivered. -/
  | completed (r : SchedulerRequest) (waiter : Option ℕ) (outcome : Except Error InferResult)
  deriving DecidableEq, Repr

/-- The request the dispatcher has in hand. -/
def Dispatcher.hand : Dispatcher → Option SchedulerRequest
  | idle => none
  | taken r | dropping r | dropped r => some r
  | found r _ | ready r _ => some r
  | inferred r _ _ | released r _ _ | completed r _ _ => some r

/-- Another call between two of its steps. -/
inductive Helper
  /-- `/policy/cancel`, about to cancel in the scheduler. -/
  | cancelling (requestId : String)
  /-- `/policy/infer`, with the ids it made stale. -/
  | staling (ids : List String)
  /-- A stop, about to cancel all entries. -/
  | stoppingDown
  /-- `/policy/result`, with the result it took. -/
  | rendering (ticket : ℕ) (result : InferResult)
  deriving DecidableEq, Repr

/-- What became of a request and of its outcome. -/
inductive Event
  /-- `infer` was called for the request of `ticket`. -/
  | inferred (ticket : ℕ) (outcome : Except Error InferResult)
  /-- The outcome of `ticket` went to the waiter of `waiter`. -/
  | delivered (ticket waiter : ℕ)
  /-- The outcome of `ticket` was stored in the entry at `address`. -/
  | stored (ticket address : ℕ)
  /-- The outcome of `ticket` was not stored; the entry it met, if any. -/
  | suppressed (ticket : ℕ) (address : Option ℕ)
  /-- The waiter of `waiter` had given up on the request of `ticket`. -/
  | dropped (ticket waiter : ℕ)
  /-- `run_async` of `ticket` cancelled the entry at `address`, if any. -/
  | undone (ticket : ℕ) (address : Option ℕ)
  /-- `run_sync` of `ticket` cancelled the request of `number`, if any. -/
  | withdrew (ticket : ℕ) (number : Option ℕ)
  | inputsFreed (ticket : ℕ)
  | outputsFreed (ticket : ℕ)
  deriving DecidableEq, Repr

/-- The pipeline with all that acts on it. -/
structure World where
  scheduler : FifoScheduler
  store : AsyncPolicyStore
  stopping : Bool := false
  syncWaiters : List (String × ℕ) := []
  callers : List Caller := []
  dispatcher : Dispatcher := .idle
  helpers : List Helper := []
  /-- Who handed each number to `admit`. -/
  tickets : List ℕ := []
  /-- Who added each entry. -/
  owners : List ℕ := []
  /-- Whose result was published under each number. -/
  publishers : List ℕ := []
  log : List Event := []
  deriving DecidableEq, Repr

namespace World

/-- Records an event. -/
def record (w : World) (e : Event) : World := { w with log := w.log ++ [e] }

/-- The caller of `ticket` becomes `c`. -/
def setCaller (w : World) (ticket : ℕ) (c : Caller) : World :=
  { w with callers := w.callers.set ticket c }

/-- The caller of `ticket` goes to another stage. -/
def goTo (w : World) (ticket : ℕ) (c : Caller) (stage : Stage) : World :=
  w.setCaller ticket { c with stage := stage }

/-- The ticket behind a number of the scheduler. -/
def ticketOf (w : World) (r : SchedulerRequest) : ℕ := w.tickets.getD r.number 0

/-- `release_request_buffers` by the pipeline. -/
def releaseInputs (w : World) (ticket : ℕ) : World := w.record (.inputsFreed ticket)

/-- `release_partial_outputs` by the pipeline or a handler. -/
def releaseOutputs (w : World) (ticket : ℕ) : World := w.record (.outputsFreed ticket)

/-- `sync_waiters_.find`. -/
def findWaiter (w : World) (requestId : String) : Option ℕ :=
  (w.syncWaiters.find? fun p => p.1 = requestId).map Prod.snd

/-- `sync_waiters_.erase`. -/
def eraseWaiter (w : World) (requestId : String) : World :=
  { w with syncWaiters := w.syncWaiters.filter fun p => p.1 ≠ requestId }

/-- `scheduler->admit` for the caller of `ticket`. -/
def admitRequest (w : World) (ticket : ℕ) (request : InferRequest) (now : ℤ) (t : ℕ → ℤ) :
    World × Except Error Unit :=
  let (scheduler, answer) := w.scheduler.admitRequest
    { request := request, backendName := "", modelId := "", enqueueTime := now } t
  ({ w with scheduler := scheduler, tickets := w.tickets ++ [ticket] }, answer)

/-- The request a cancel of `requestId` meets in the scheduler. -/
def meets (s : FifoScheduler) (requestId : String) : Option ℕ :=
  match s.queue.find? fun r => r.requestId = requestId with
  | some r => some r.number
  | none => (s.inFlight.find? fun r => r.requestId = requestId).map InFlightRecord.number

/-- `run_sync` and `run_async` one step on, and the handler around them. -/
def call (w : World) (ticket : ℕ) (c : Caller) (t : ℕ → ℤ) (now : ℤ) (throws : Bool) :
    Option World :=
  let request := c.request
  match c.stage with
  | .creating relativeDeadline =>
    match InferRequest.createWithRelativeDeadline request.requestId request.endpoint request.inputs
        request.metadata relativeDeadline (t 0) (t 1) with
    | .ok request => some (w.setCaller ticket { c with request := request, stage := .entered })
    | .error error => some (w.goTo ticket c (.refused error))
  | .entered =>
    if w.stopping then
      some ((w.releaseInputs ticket).goTo ticket c (.refused ⟨.notReady,
        if c.sync then "serving worker stopping; not accepting new requests"
        else "serving worker stopping; not accepting new async requests", none⟩))
    else some (w.goTo ticket c (if c.sync then .registering else .adding))
  | .registering =>
    if w.syncWaiters.any fun p => p.1 = request.requestId then
      some ((w.releaseInputs ticket).goTo ticket c (.refused ⟨.configInvalid,
        "serving pipeline: duplicate active sync request_id", none⟩))
    else
      some ({ w with syncWaiters := w.syncWaiters ++ [(request.requestId, ticket)] }.goTo
        ticket c .syncAdmitting)
  | .syncAdmitting =>
    match w.admitRequest ticket request now t with
    | (w, .ok _) => some (w.goTo ticket c .waiting)
    | (w, .error error) => some (w.goTo ticket c (.unregistering error))
  | .unregistering error =>
    some ((w.eraseWaiter request.requestId).goTo ticket c (.refused error))
  | .waiting =>
    if c.waiter.done then
      match c.waiter.outcome with
      | some outcome => some (w.goTo ticket c (.leaving outcome))
      | none => none
    else if !c.waiter.dispatched && request.deadline.any (fun d => now ≥ d) then
      some (w.setCaller ticket { c with
        stage := .abandoned, waiter := { c.waiter with abandoned := true } })
    else none
  | .abandoned =>
    some ((if w.findWaiter request.requestId = some ticket then w.eraseWaiter request.requestId
      else w).goTo ticket c .withdrawing)
  | .withdrawing =>
    some (({ w with scheduler := (w.scheduler.cancel request.requestId .clientRequest t).1 }.record
      (.withdrew ticket (meets w.scheduler request.requestId))).goTo ticket c .timedOut)
  | .leaving outcome =>
    some ((w.eraseWaiter request.requestId).goTo ticket c (.answered outcome))
  | .adding =>
    match w.store.addPending request now with
    | (store, .ok _) =>
      some ({ w with store := store, owners := w.owners ++ [ticket] }.goTo ticket c .asyncAdmitting)
    | (_, .error error) => some ((w.releaseInputs ticket).goTo ticket c (.refused error))
  | .asyncAdmitting =>
    match w.admitRequest ticket request now t with
    | (w, .ok _) => some (w.goTo ticket c .accepted)
    | (w, .error error) => some (w.goTo ticket c (.undoing error))
  | .undoing error =>
    some (({ w with store := (w.store.cancel request.requestId now).1 }.record
      (.undone ticket ((w.store.find request.requestId).map Entry.address))).goTo ticket c
      (.refused error))
  | .answered outcome =>
    -- A rendering that throws ends the handler before it releases.
    match outcome.result with
    | .ok _ =>
      some ((if throws then w else w.releaseOutputs outcome.origin).goTo ticket c .ended)
    | .error _ => some (w.goTo ticket c .ended)
  | .refused _ | .accepted | .timedOut | .ended => none

/-- The outcome reaches its waiter. -/
def deliver (w : World) (ticket waiter : ℕ) (result : Except Error InferResult) : World :=
  match w.callers[waiter]? with
  | some c => (w.setCaller waiter { c with
      waiter := { c.waiter with done := true, outcome := some ⟨result, ticket⟩ } }).record
      (.delivered ticket waiter)
  | none => w

/-- What `publish_result` and `publish_failure` did, as the log has it. -/
def published (ticket : ℕ) (entry : Option Entry) (stored : Bool) : Event :=
  match entry, stored with
  | some e, true => .stored ticket e.address
  | e, _ => .suppressed ticket (e.map Entry.address)

/-- The outcome reaches the store. -/
def publish (w : World) (ticket : ℕ) (requestId : String) (result : Except Error InferResult)
    (now : ℤ) : World :=
  match result with
  | .ok result =>
    let (store, stored) := w.store.publishResult requestId result now
    { w with store := store, publishers := w.publishers ++ [ticket] }.record
      (published ticket (w.store.find requestId) stored)
  | .error error =>
    let (store, stored) := w.store.publishFailure requestId error now
    { w with store := store }.record (published ticket (w.store.find requestId) stored)

/-- The status and the code of an outcome, as `on_completion` is told. -/
def completionOf : Except Error InferResult → CompletionStatus × Option ErrorCode
  | .error error => (.failure, some error.code)
  | .ok result =>
    match result.payload with
    | .ok _ => (.success, none)
    | .error error => (.failure, some error.code)

/-- `dispatch_one` one step on, behind its `next`. -/
def dispatch (w : World) (now : ℤ) : Option World :=
  match w.dispatcher with
  | .idle | .ready _ _ => none
  | .taken r => some { w with dispatcher := .found r (w.findWaiter r.requestId) }
  | .found r (some waiter) =>
    match w.callers[waiter]? with
    | none => none
    | some c =>
      if c.waiter.abandoned then
        some ({ w with dispatcher := .dropping r }.record (.dropped (w.ticketOf r) waiter))
      else
        some ({ w with dispatcher := .ready r (some waiter) }.setCaller waiter
          { c with waiter := { c.waiter with dispatched := true } })
  | .found r none =>
    some { w with dispatcher := .ready r none, store := w.store.markInFlight r.requestId }
  | .dropping r => some ({ w with dispatcher := .dropped r }.releaseInputs (w.ticketOf r))
  | .dropped r =>
    some { w with
      dispatcher := .idle
      scheduler := (w.scheduler.onCompletion r.requestId .failure (some .timeout) now).1 }
  | .inferred r waiter outcome =>
    some ({ w with dispatcher := .released r waiter outcome }.releaseInputs (w.ticketOf r))
  | .released r waiter outcome =>
    let (status, code) := completionOf outcome
    let (scheduler, answer) := w.scheduler.onCompletion r.requestId status code now
    let w := { w with scheduler := scheduler }
    match outcome, answer with
    | .ok _, .error error =>
      some ({ w with dispatcher := .completed r waiter (.error error) }.releaseOutputs
        (w.ticketOf r))
    | outcome, _ => some { w with dispatcher := .completed r waiter outcome }
  | .completed r (some waiter) outcome =>
    some ({ w with dispatcher := .idle }.deliver (w.ticketOf r) waiter outcome)
  | .completed r none outcome =>
    some ({ w with dispatcher := .idle }.publish (w.ticketOf r) r.requestId outcome now)

/-- A helper goes on, in the world without it. -/
def help (w : World) (t : ℕ → ℤ) (now : ℤ) (throws : Bool) : Helper → World
  | .cancelling requestId =>
    { w with scheduler := (w.scheduler.cancel requestId .clientRequest t).1 }
  | .staling [] => w
  | .staling (requestId :: ids) =>
    { w with
      scheduler := (w.scheduler.cancel requestId .staleSequence t).1
      helpers := w.helpers ++ [.staling ids] }
  | .stoppingDown => { w with store := w.store.cancelAll now }
  | .rendering ticket _ => if throws then w else w.releaseOutputs ticket

end World

/-- What may happen next. -/
inductive Action
  /-- `/infer` has built its inputs. -/
  | infer (request : InferRequest) (relativeDeadline : Option ℤ)
  /-- `/policy/infer` has built its inputs. -/
  | policyInfer (request : InferRequest) (relativeDeadline : Option ℤ)
  | call (ticket : ℕ) (t : ℕ → ℤ) (now : ℤ) (throws : Bool)
  | next (t : ℕ → ℤ) (now : ℤ)
  | inferDone (outcome : Except Error InferResult)
  | dispatch (now : ℤ)
  | policyCancel (requestId : String) (now : ℤ)
  | policyResult (requestId : String)
  | markStaleBefore (staleAfterSequence : ℤ) (now : ℤ)
  | help (i : ℕ) (t : ℕ → ℤ) (now : ℤ) (throws : Bool)
  | expireDue (t : ℕ → ℤ)
  | onPressure (source : PressureSource) (severity : PressureSeverity) (stamp : Option ℤ) (now : ℤ)
  | enforceBounds (now : ℤ)
  | shutdown (t u : ℕ → ℤ)
  | cancelAll (now : ℤ)
  | setStopping (stopping : Bool)

/-- **A step of the world.** -/
def World.step (w : World) : Action → Option World
  | .infer request relativeDeadline =>
    some { w with callers := w.callers ++ [⟨request, true, .creating relativeDeadline, {}⟩] }
  | .policyInfer request relativeDeadline =>
    some { w with callers := w.callers ++ [⟨request, false, .creating relativeDeadline, {}⟩] }
  | .call ticket t now throws =>
    match w.callers[ticket]? with
    | some c => w.call ticket c t now throws
    | none => none
  | .next t now =>
    match w.dispatcher with
    | .idle =>
      match w.scheduler.next t now with
      | (scheduler, some r) => some { w with scheduler := scheduler, dispatcher := .taken r }
      | (scheduler, none) => some { w with scheduler := scheduler }
    | _ => none
  | .inferDone outcome =>
    match w.dispatcher with
    | .ready r waiter =>
      some ({ w with dispatcher := .inferred r waiter outcome }.record
        (.inferred (w.ticketOf r) outcome))
    | _ => none
  | .dispatch now => w.dispatch now
  | .policyCancel requestId now =>
    some { w with
      store := (w.store.cancel requestId now).1
      helpers := w.helpers ++ [.cancelling requestId] }
  | .policyResult requestId =>
    match w.store.takeCompletedResult requestId with
    | (store, some result) =>
      some { w with
        store := store
        helpers := w.helpers ++ [.rendering (w.publishers.getD result.number 0) result] }
    | (_, none) => some w
  | .markStaleBefore staleAfterSequence now =>
    let (store, ids) := w.store.markStaleBeforeSequence staleAfterSequence now
    some { w with store := store, helpers := w.helpers ++ [.staling ids] }
  | .help i t now throws =>
    match w.helpers[i]? with
    | some h => some ({ w with helpers := w.helpers.eraseIdx i }.help t now throws h)
    | none => none
  | .expireDue t => some { w with scheduler := (w.scheduler.expireDue t).1 }
  | .onPressure source severity stamp now =>
    some { w with scheduler := w.scheduler.onPressure source severity stamp now }
  | .enforceBounds now => some { w with store := w.store.enforceBounds now }
  | .shutdown t u =>
    some { w with
      scheduler := (w.scheduler.shutdown t u).1
      helpers := w.helpers ++ [.stoppingDown] }
  | .cancelAll now => some { w with store := w.store.cancelAll now }
  | .setStopping stopping => some { w with stopping := stopping }

end Pipeline

end Tensorplate
