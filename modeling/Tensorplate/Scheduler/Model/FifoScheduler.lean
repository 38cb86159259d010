import Tensorplate.Core.InferRequest

/-!
# The FIFO scheduler

`FifoScheduler` under its mutex: the queue, the requests in flight, the ids
cancelled in flight whose completion is still to come, and the metrics. A
call is given the readings `t` it makes of the clock, in their order. The
requests are numbered as they are handed to `admit`, and the events the
scheduler emits carry those numbers; `released` records whose input buffers
it has given back.
-/

namespace Tensorplate

namespace Scheduler

/-- `PressureSeverity`. -/
inductive PressureSeverity
  | normal
  | warning
  | critical
  deriving DecidableEq, Repr

/-- The value of a severity. -/
def PressureSeverity.level : PressureSeverity → ℕ
  | .normal => 0
  | .warning => 1
  | .critical => 2

/-- `PressureSource`. -/
inductive PressureSource
  | memory
  | thermal
  deriving DecidableEq, Repr

/-- `CompletionStatus`. -/
inductive CompletionStatus
  | success
  | failure
  deriving DecidableEq, Repr

/-- `CancellationReason`. -/
inductive CancellationReason
  | clientRequest
  | staleSequence
  | shutdown
  | pressure
  deriving DecidableEq, Repr

/-- `SchedulerConfig`, its durations in milliseconds. -/
structure SchedulerConfig where
  policy : String := "fifo"
  queueCapacity : ℕ := 64
  inFlightCapacity : ℕ := 1
  deadlineMargin : ℤ := 5
  defaultServiceEstimate : ℤ := 10
  pressureRejectThreshold : PressureSeverity := .critical
  deriving DecidableEq, Repr

/-- `as_nanos`. -/
def asNanos (ms : ℤ) : ℤ := ms * 1000000

/-- `SchedulerRequest`, with its number. -/
structure SchedulerRequest where
  request : InferRequest
  backendName : String
  modelId : String
  estimatedServiceTime : Option ℤ := none
  enqueueTime : ℤ
  number : ℕ := 0
  deriving DecidableEq, Repr

namespace SchedulerRequest

def requestId (r : SchedulerRequest) : String := r.request.requestId

def endpoint (r : SchedulerRequest) : String := r.request.endpoint

end SchedulerRequest

/-- `FifoScheduler::InFlightRecord` with its key, and the number of the
request. -/
structure InFlightRecord where
  requestId : String
  endpoint : String
  backendName : String
  modelId : String
  number : ℕ
  deriving DecidableEq, Repr

/-- `SchedulerEvent`, with the number of its request. -/
inductive SchedulerEvent
  | admitted (number : ℕ) (timestamp : ℤ)
  | admissionRejected (number : ℕ) (code : ErrorCode) (severity : Option PressureSeverity)
      (timestamp : ℤ)
  | dispatched (number : ℕ) (waitTime timestamp : ℤ)
  | completed (number : ℕ) (status : CompletionStatus) (code : Option ErrorCode) (timestamp : ℤ)
  | cancelledQueued (number : ℕ) (reason : CancellationReason) (waitTime timestamp : ℤ)
  | cancelledInFlight (number : ℕ) (reason : CancellationReason) (timestamp : ℤ)
  | expired (number : ℕ) (waitTime timestamp : ℤ)
  | pressure (source : PressureSource) (severity : PressureSeverity) (timestamp : ℤ)
  deriving DecidableEq, Repr

/-- `SchedulerMetrics`, but for what `metrics` reads off the tables. -/
structure SchedulerMetrics where
  queueDepth : ℕ := 0
  queueDepthHighWater : ℕ := 0
  inFlight : ℕ := 0
  inFlightHighWater : ℕ := 0
  inFlightPhysicalHighWater : ℕ := 0
  admittedTotal : ℕ := 0
  admissionRejectedOverload : ℕ := 0
  admissionRejectedDeadline : ℕ := 0
  admissionRejectedPressure : ℕ := 0
  expiredTotal : ℕ := 0
  cancelledQueued : ℕ := 0
  cancelledInFlight : ℕ := 0
  completedSuccess : ℕ := 0
  completedFailure : ℕ := 0
  pressureEventsMemory : ℕ := 0
  pressureEventsThermal : ℕ := 0
  waitTimeSum : ℤ := 0
  waitTimeSamples : ℕ := 0
  waitTimeMax : ℤ := 0
  lastMemorySeverity : PressureSeverity := .normal
  lastThermalSeverity : PressureSeverity := .normal
  deriving DecidableEq, Repr

/-- `record_wait_locked`. -/
def SchedulerMetrics.recordWait (m : SchedulerMetrics) (wait : ℤ) : SchedulerMetrics :=
  let wait := max wait 0
  { m with
    waitTimeSum := m.waitTimeSum + wait
    waitTimeSamples := m.waitTimeSamples + 1
    waitTimeMax := max m.waitTimeMax wait }

/-- `FifoScheduler`. -/
structure FifoScheduler where
  config : SchedulerConfig
  /-- A buffer manager is wired. -/
  bufferManager : Bool
  queue : List SchedulerRequest := []
  inFlight : List InFlightRecord := []
  cancelledInFlightIds : List String := []
  shutdownCalled : Bool := false
  metrics : SchedulerMetrics := {}
  events : List SchedulerEvent := []
  /-- The requests handed to `admit` so far. -/
  offered : ℕ := 0
  released : List ℕ := []
  deriving DecidableEq, Repr

/-- `deadline_infeasible_locked` at the reading `now`, with `running` requests
in flight. -/
def deadlineInfeasible (config : SchedulerConfig) (running : ℕ) (now : ℤ) (queuedAhead : ℕ)
    (r : SchedulerRequest) : Bool :=
  match r.request.deadline with
  | none => false
  | some deadline =>
    if now ≥ deadline then true
    else
      let defaultEst := asNanos config.defaultServiceEstimate
      let serviceEst := r.estimatedServiceTime.getD defaultEst
      let estimatedCompletion := now + defaultEst * queuedAhead + defaultEst * running + serviceEst
      estimatedCompletion > deadline + asNanos config.deadlineMargin

/-- The walk of `expire_due_locked`: what stays, and what is removed with the
readings taken for it. -/
def sweep (config : SchedulerConfig) (running : ℕ) (t : ℕ → ℤ) :
    ℕ → ℕ → List SchedulerRequest → List SchedulerRequest × List (SchedulerRequest × ℤ × ℤ)
  | _, _, [] => ([], [])
  | i, queuedAhead, r :: rest =>
    if deadlineInfeasible config running (t i) queuedAhead r then
      let (kept, removed) := sweep config running t (i + 3) queuedAhead rest
      (kept, (r, t (i + 1), t (i + 2)) :: removed)
    else
      let (kept, removed) := sweep config running t (i + 1) (queuedAhead + 1) rest
      (r :: kept, removed)

namespace FifoScheduler

/-- `request_id_active_locked`. -/
def requestIdActive (s : FifoScheduler) (requestId : String) : Bool :=
  s.queue.any (fun r => r.requestId = requestId) ||
    s.inFlight.any (fun r => r.requestId = requestId) || s.cancelledInFlightIds.contains requestId

/-- `active_pressure_severity_locked`. -/
def activePressureSeverity (s : FifoScheduler) : PressureSeverity :=
  if s.metrics.lastMemorySeverity.level ≥ s.metrics.lastThermalSeverity.level then
    s.metrics.lastMemorySeverity
  else s.metrics.lastThermalSeverity

/-- `pressure_rejects_locked`. -/
def pressureRejects (s : FifoScheduler) : Bool :=
  s.activePressureSeverity.level ≥ s.config.pressureRejectThreshold.level &&
    s.config.pressureRejectThreshold ≠ .normal

/-- `release_request_buffers_safely`. -/
def releaseRequestBuffers (s : FifoScheduler) (number : ℕ) : FifoScheduler :=
  if s.bufferManager then { s with released := s.released ++ [number] } else s

/-- `emit_event`. -/
def emit (s : FifoScheduler) (event : SchedulerEvent) : FifoScheduler :=
  { s with events := s.events ++ [event] }

/-- A request that is refused: its buffers go back and the refusal is told. -/
def refuse (s : FifoScheduler) (number : ℕ) (code : ErrorCode) (message : String)
    (severity : Option PressureSeverity) (now : ℤ) : FifoScheduler × Except Error Unit :=
  ((s.releaseRequestBuffers number).emit (.admissionRejected number code severity now),
    .error ⟨code, message, none⟩)

/-- `admit`. -/
def admitRequest (s : FifoScheduler) (request : SchedulerRequest) (t : ℕ → ℤ) :
    FifoScheduler × Except Error Unit :=
  let number := s.offered
  let s := { s with offered := s.offered + 1 }
  if s.shutdownCalled then s.refuse number .notReady "scheduler is shut down" none (t 0)
  else if request.requestId = "" ∨ request.endpoint = "" ∨
      request.estimatedServiceTime.any (fun e => e < 0) = true then
    s.refuse number .configInvalid
      "scheduler request_id, endpoint, and service estimate must be valid" none (t 0)
  else if s.requestIdActive request.requestId then
    s.refuse number .configInvalid "scheduler request_id is already active" none (t 0)
  else if s.pressureRejects then
    { s with metrics := { s.metrics with
        admissionRejectedPressure := s.metrics.admissionRejectedPressure + 1 } }.refuse number
      .oomError "scheduler rejecting admission due to pressure" (some s.activePressureSeverity) (t 0)
  else if s.queue.length ≥ s.config.queueCapacity then
    { s with metrics := { s.metrics with
        admissionRejectedOverload := s.metrics.admissionRejectedOverload + 1 } }.refuse number
      .oomError "scheduler queue is at capacity" none (t 0)
  else if deadlineInfeasible s.config s.inFlight.length (t 0) s.queue.length request then
    { s with metrics := { s.metrics with
        admissionRejectedDeadline := s.metrics.admissionRejectedDeadline + 1 } }.refuse number
      .timeout "scheduler rejecting admission: deadline + margin exceeded by estimate" none (t 1)
  else
    let now := t 1
    let queue := s.queue ++ [{ request with enqueueTime := now, number := number }]
    ({ s with
        queue := queue
        metrics := { s.metrics with
          admittedTotal := s.metrics.admittedTotal + 1
          queueDepth := queue.length
          queueDepthHighWater := max s.metrics.queueDepthHighWater queue.length } }.emit
      (.admitted number now), .ok ())

/-- One request that `expire_due_locked` removes, with the readings for its
wait and its event. -/
def expire (s : FifoScheduler) (removed : SchedulerRequest × ℤ × ℤ) : FifoScheduler :=
  let wait := removed.2.1 - removed.1.enqueueTime
  let metrics := s.metrics.recordWait wait
  ({ s with metrics := { metrics with expiredTotal := metrics.expiredTotal + 1 } }
    |>.releaseRequestBuffers removed.1.number).emit (.expired removed.1.number wait removed.2.2)

/-- `expire_due_locked`: how many it removed. -/
def expireDueLocked (s : FifoScheduler) (t : ℕ → ℤ) : FifoScheduler × ℕ :=
  let (kept, removed) := sweep s.config s.inFlight.length t 0 0 s.queue
  let s := removed.foldl expire { s with queue := kept }
  ({ s with metrics := { s.metrics with queueDepth := kept.length } }, removed.length)

/-- `expire_due`. -/
def expireDue (s : FifoScheduler) (t : ℕ → ℤ) : FifoScheduler × ℕ := s.expireDueLocked t

/-- `next`, `now` the reading behind the sweep's. -/
def next (s : FifoScheduler) (t : ℕ → ℤ) (now : ℤ) : FifoScheduler × Option SchedulerRequest :=
  let s := (s.expireDueLocked t).1
  match s.queue with
  | [] => (s, none)
  | head :: rest =>
    if s.inFlight.length < s.config.inFlightCapacity then
      let wait := now - head.enqueueTime
      let inFlight := s.inFlight ++
        [⟨head.requestId, head.endpoint, head.backendName, head.modelId, head.number⟩]
      let metrics := s.metrics.recordWait wait
      ({ s with
          queue := rest
          inFlight := inFlight
          metrics := { metrics with
            queueDepth := rest.length
            inFlight := inFlight.length
            inFlightHighWater := max metrics.inFlightHighWater inFlight.length
            inFlightPhysicalHighWater := max metrics.inFlightPhysicalHighWater
              (inFlight.length + s.cancelledInFlightIds.length) } }.emit
        (.dispatched head.number wait now), some head)
    else (s, none)

/-- `on_completion`. -/
def onCompletion (s : FifoScheduler) (requestId : String) (status : CompletionStatus)
    (code : Option ErrorCode) (now : ℤ) : FifoScheduler × Except Error Unit :=
  if s.cancelledInFlightIds.contains requestId then
    ({ s with cancelledInFlightIds := s.cancelledInFlightIds.erase requestId },
      .error ⟨.internal, "scheduler::on_completion: request was cancelled in-flight", none⟩)
  else match s.inFlight.find? fun r => r.requestId = requestId with
    | none =>
      (s, .error ⟨.internal, "scheduler::on_completion: unknown or duplicate request id", none⟩)
    | some record =>
      let inFlight := s.inFlight.filter fun r => r.requestId ≠ requestId
      ({ s with
          inFlight := inFlight
          metrics := { s.metrics with
            inFlight := inFlight.length
            completedSuccess := match status with
              | .success => s.metrics.completedSuccess + 1
              | .failure => s.metrics.completedSuccess
            completedFailure := match status with
              | .success => s.metrics.completedFailure
              | .failure => s.metrics.completedFailure + 1 }
          }.emit (.completed record.number status code now), .ok ())

/-- A queued request that is cancelled, with the reading for its event. -/
def cancelQueued (s : FifoScheduler) (r : SchedulerRequest) (reason : CancellationReason)
    (wait now : ℤ) : FifoScheduler :=
  let metrics := s.metrics.recordWait wait
  ({ s with metrics := { metrics with cancelledQueued := metrics.cancelledQueued + 1 } }
    |>.releaseRequestBuffers r.number).emit (.cancelledQueued r.number reason wait now)

/-- A request in flight that is cancelled: its id is a tombstone. -/
def cancelRunning (s : FifoScheduler) (record : InFlightRecord) (reason : CancellationReason)
    (now : ℤ) : FifoScheduler :=
  { s with
    cancelledInFlightIds := s.cancelledInFlightIds ++ [record.requestId]
    metrics := { s.metrics with cancelledInFlight := s.metrics.cancelledInFlight + 1 } }.emit
  (.cancelledInFlight record.number reason now)

/-- `cancel`. -/
def cancel (s : FifoScheduler) (requestId : String) (reason : CancellationReason) (t : ℕ → ℤ) :
    FifoScheduler × Except Error Unit :=
  match s.queue.find? fun r => r.requestId = requestId with
  | some r =>
    let s := s.cancelQueued r reason (t 0 - r.enqueueTime) (t 1)
    let queue := s.queue.eraseP fun r => r.requestId = requestId
    ({ s with queue := queue, metrics := { s.metrics with queueDepth := queue.length } }, .ok ())
  | none =>
    match s.inFlight.find? fun r => r.requestId = requestId with
    | some record =>
      let inFlight := s.inFlight.filter fun r => r.requestId ≠ requestId
      let s := s.cancelRunning record reason (t 0)
      ({ s with inFlight := inFlight, metrics := { s.metrics with inFlight := inFlight.length } },
        .ok ())
    | none =>
      if s.cancelledInFlightIds.contains requestId then
        (s, .error ⟨.notReady, "scheduler::cancel: request already cancelled in-flight", none⟩)
      else
        (s, .error ⟨.notReady,
          "scheduler::cancel: unknown, completed, or never-admitted request id", none⟩)

/-- `on_pressure`; `stamp` is the signal's own, where it has one. -/
def onPressure (s : FifoScheduler) (source : PressureSource) (severity : PressureSeverity)
    (stamp : Option ℤ) (now : ℤ) : FifoScheduler :=
  { s with metrics := match source with
      | .memory => { s.metrics with
          lastMemorySeverity := severity
          pressureEventsMemory := s.metrics.pressureEventsMemory + 1 }
      | .thermal => { s.metrics with
          lastThermalSeverity := severity
          pressureEventsThermal := s.metrics.pressureEventsThermal + 1 } }.emit
    (.pressure source severity (stamp.getD now))

/-- The queue of a shutdown, from its front. -/
def cancelAllQueued (s : FifoScheduler) (t : ℕ → ℤ) : ℕ → List SchedulerRequest → FifoScheduler
  | _, [] => s
  | i, r :: rest =>
    (s.cancelQueued r .shutdown (t i - r.enqueueTime) (t (i + 1))).cancelAllQueued t (i + 2) rest

/-- The requests in flight at a shutdown. -/
def cancelAllRunning (s : FifoScheduler) (t : ℕ → ℤ) : ℕ → List InFlightRecord → FifoScheduler
  | _, [] => s
  | i, record :: rest =>
    (s.cancelRunning record .shutdown (t i)).cancelAllRunning t (i + 1) rest

/-- `shutdown`: how many it cancelled. -/
def shutdown (s : FifoScheduler) (t u : ℕ → ℤ) : FifoScheduler × ℕ :=
  let cancelled := s.queue.length + s.inFlight.length
  let s := { s with shutdownCalled := true }
  let s := s.cancelAllQueued t 0 s.queue
  let s := { s with queue := [], metrics := { s.metrics with queueDepth := 0 } }
  let s := s.cancelAllRunning u 0 s.inFlight
  ({ s with inFlight := [], metrics := { s.metrics with inFlight := 0 } }, cancelled)

end FifoScheduler

/-- A call of the scheduler. -/
inductive Call
  | admitRequest (request : SchedulerRequest) (t : ℕ → ℤ)
  | next (t : ℕ → ℤ) (now : ℤ)
  | onCompletion (requestId : String) (status : CompletionStatus) (code : Option ErrorCode) (now : ℤ)
  | cancel (requestId : String) (reason : CancellationReason) (t : ℕ → ℤ)
  | expireDue (t : ℕ → ℤ)
  | onPressure (source : PressureSource) (severity : PressureSeverity) (stamp : Option ℤ) (now : ℤ)
  | shutdown (t u : ℕ → ℤ)

/-- The scheduler behind a call. -/
def FifoScheduler.step (s : FifoScheduler) : Call → Option FifoScheduler
  | .admitRequest request t => some (s.admitRequest request t).1
  | .next t now => some (s.next t now).1
  | .onCompletion requestId status code now => some (s.onCompletion requestId status code now).1
  | .cancel requestId reason t => some (s.cancel requestId reason t).1
  | .expireDue t => some (s.expireDue t).1
  | .onPressure source severity stamp now => some (s.onPressure source severity stamp now)
  | .shutdown t u => some (s.shutdown t u).1

/-- `FifoScheduler::create`. -/
def FifoScheduler.create (config : SchedulerConfig) (bufferManager : Bool) :
    Except Error FifoScheduler :=
  if config.policy ≠ "fifo" then
    .error ⟨.configInvalid, "FifoScheduler requires policy=fifo, got " ++ config.policy, none⟩
  else if config.queueCapacity = 0 then
    .error ⟨.configInvalid, "FifoScheduler queue_capacity must be > 0", none⟩
  else if config.inFlightCapacity = 0 then
    .error ⟨.configInvalid, "FifoScheduler in_flight_capacity must be > 0", none⟩
  else if config.deadlineMargin < 0 then
    .error ⟨.configInvalid, "FifoScheduler deadline_margin must be >= 0", none⟩
  else if config.defaultServiceEstimate < 0 then
    .error ⟨.configInvalid, "FifoScheduler default_service_estimate must be >= 0", none⟩
  else .ok { config := config, bufferManager := bufferManager }

end Scheduler

end Tensorplate
