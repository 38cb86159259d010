import Tensorplate.Core.Error
import Tensorplate.Supervision.Model.Policy

/-!
# The worker supervisor

`WorkerSupervisor` is driven: every `tick` polls the worker, drives a stop,
launches or probes, and what the process and the probe answer is the
environment's. Each function passes `Inner`, the state under the mutex, on
explicitly; a `tick` also returns the calls it made on the process and the
decision it got from the backoff policy.
-/

namespace Tensorplate

namespace Supervision

/-! ## Data -/

/-- `SupervisorConfig`, as far as the state machine reads it. -/
structure SupervisorConfig where
  startupTimeoutMs : UInt64 := 30000
  gracefulStopTimeoutMs : UInt64 := 5000
  restartPolicy : RestartPolicy := {}
  deriving DecidableEq, Repr

inductive SupervisionPhase
  | noActiveDeployment
  | starting
  | running
  | ready
  | degraded
  | failed
  | stopping
  | stopped
  | awaitingRestart
  | crashLoop
  deriving DecidableEq, Repr

/-- `is_terminal`: the supervisor does not leave the phase by itself. -/
def SupervisionPhase.isTerminal : SupervisionPhase → Bool
  | .failed => true
  | .crashLoop => true
  | _ => false

structure LastFailure where
  cls : FailureClass
  errorCode : ErrorCode
  message : String
  at' : ℕ
  deriving DecidableEq, Repr

structure SupervisionState where
  phase : SupervisionPhase := .noActiveDeployment
  desiredActive : Option String := none
  actualActive : Option String := none
  desiredDeviceIndex : Option ℕ := none
  actualDeviceIndex : Option ℕ := none
  backend : Option String := none
  launchSequence : ℕ := 0
  lastReadyAt : Option ℕ := none
  lastFailure : Option LastFailure := none
  nextRestartAt : Option ℕ := none
  counters : RestartCounters := {}
  deriving DecidableEq, Repr

structure DesiredWorker where
  deploymentId : String
  backend : String
  deviceIndex : Option ℕ := none
  deriving DecidableEq, Repr

structure WorkerHandle where
  deploymentId : String
  deviceIndex : Option ℕ := none
  launchSequence : ℕ
  launchedAt : ℕ
  pid : Option ℕ := none
  commandDigest : String := ""
  deriving DecidableEq, Repr

structure ExitStatus where
  code : Option ℤ := none
  signal : Option ℤ := none
  deriving DecidableEq, Repr

inductive PollOutcome
  | running
  | exited (status : ExitStatus)
  deriving DecidableEq, Repr

/-- `ReadinessSample`, without the fields the supervisor does not read. -/
structure ReadinessSample where
  ready : Bool := false
  degraded : Bool := false
  failed : Bool := false
  activeDeployment : Option String := none
  backend : Option String := none
  deriving DecidableEq, Repr

structure SupervisionFault where
  cls : FailureClass
  errorCode : ErrorCode
  message : String
  launchSequence : ℕ
  deploymentId : Option String
  deriving DecidableEq, Repr

inductive TickOutcome
  | continue
  | terminal (phase : SupervisionPhase)
  | fault (fault : SupervisionFault)
  deriving DecidableEq, Repr

inductive SupervisionEventKind
  | workerStarted
  | workerReady
  | workerExit
  | workerNotReady
  | restartScheduled
  | workerDegraded
  | workerFailed
  | crashLoopEntered
  | workerStopping
  | workerStopped
  deriving DecidableEq, Repr

/-- `SupervisionEventPayload`; its agent and serving states are projections
of the phase. -/
structure SupervisionEventPayload where
  kind : SupervisionEventKind
  sequence : ℕ
  timestamp : ℕ
  phase : SupervisionPhase
  activeDeployment : String
  backend : String
  restartCount : ℕ
  nextRestartDelayMs : Option ℕ := none
  exitCode : Option ℤ := none
  exitSignal : Option ℤ := none
  afterReady : Option Bool := none
  errorCode : Option ErrorCode := none
  message : Option String := none
  failureClass : Option FailureClass := none
  deriving DecidableEq, Repr

/-- `Inner`, with what the sink was given. -/
structure Inner where
  state : SupervisionState := {}
  backoff : BackoffScheduler
  desired : Option DesiredWorker := none
  handle : Option WorkerHandle := none
  launchedAt : Option ℕ := none
  afterReady : Bool := false
  pendingFaults : List SupervisionFault := []
  stopRequested : Bool := false
  stopHold : Bool := false
  stopStartedAt : Option ℕ := none
  forceTerminateAt : Option ℕ := none
  nextSequence : ℕ := 0
  emitted : List SupervisionEventPayload := []
  deriving DecidableEq, Repr

/-- A call on the `WorkerProcess`, with its answer. -/
inductive ProcessCall
  | poll (handle : WorkerHandle) (answer : Except Error PollOutcome)
  | launch (deploymentId : String) (deviceIndex : Option ℕ) (answer : Except Error WorkerHandle)
  | gracefulStop (handle : WorkerHandle) (answer : Except Error Unit)
  | forceTerminate (handle : WorkerHandle) (answer : Except Error Unit)

def ProcessCall.isLaunch : ProcessCall → Bool
  | .launch _ _ _ => true
  | _ => false

/-- What the clock, the process and the probe answer one `tick`. -/
structure Answers where
  now : ℕ
  poll : Except Error PollOutcome := .ok .running
  launch : Except Error WorkerHandle
  gracefulStop : Except Error Unit := .ok ()
  forceTerminate : Except Error Unit := .ok ()
  sample : Except Error ReadinessSample := .ok {}

/-- What a `tick` leaves behind. -/
structure Ticked where
  inner : Inner
  calls : List ProcessCall := []
  decision : Option BackoffDecision := none
  outcome : Except Error TickOutcome := .ok .continue

/-! ## Control calls -/

/-- `SupervisionState::set_desired_active`. -/
def SupervisionState.setDesiredActive (s : SupervisionState) (deploymentId backend : Option String)
    (deviceIndex : Option ℕ) : SupervisionState :=
  let s := { s with desiredActive := deploymentId, backend, desiredDeviceIndex := deviceIndex }
  match deploymentId with
  | none => { s with phase := .noActiveDeployment }
  | some _ => if s.phase = .noActiveDeployment then { s with phase := .starting } else s

namespace Inner

/-- The supervisor `WorkerSupervisor::new` builds. -/
def new (cfg : SupervisorConfig) : Inner := { backoff := .new cfg.restartPolicy }

def setDesiredActive (i : Inner) (desired : Option DesiredWorker) : Inner :=
  let nextPlacement := desired.map fun d => (d.deploymentId, d.deviceIndex)
  let currentPlacement := i.handle.map fun h => (h.deploymentId, h.deviceIndex)
  let i := if i.handle.isSome ∧ currentPlacement ≠ nextPlacement then
    { i with stopRequested := true, stopHold := false } else i
  let i := if desired.isSome then { i with stopHold := false } else i
  let i := { i with
    desired
    state := i.state.setDesiredActive (desired.map (·.deploymentId)) (desired.map (·.backend))
      (desired.bind (·.deviceIndex)) }
  match desired with
  | some _ => i
  | none =>
    let i := { i with state := { i.state with nextRestartAt := none } }
    if i.handle.isSome then { i with stopRequested := true, stopHold := false } else i

def requestStop (i : Inner) : Inner :=
  if i.handle.isSome then { i with stopRequested := true, stopHold := true } else i

def recoverAfterOperatorAction (i : Inner) (now : ℕ) : Inner :=
  let backoff := i.backoff.reset
  let phase := if i.state.phase.isTerminal then
      if i.desired.isSome then .starting else .noActiveDeployment
    else i.state.phase
  { i with
    backoff
    stopHold := false
    state := { i.state with
      counters := backoff.counters now, lastFailure := none, nextRestartAt := none, phase } }

/-! ## Faults and events -/

def recordFault (i : Inner) (fault : SupervisionFault) (now : ℕ) : Inner :=
  let faults := i.pendingFaults ++ [fault]
  { i with
    state := { i.state with
      lastFailure := some ⟨fault.cls, fault.errorCode, fault.message, now⟩ }
    pendingFaults := faults.drop (faults.length - 32) }

def buildPayload (i : Inner) (kind : SupervisionEventKind) (now : ℕ) : SupervisionEventPayload where
  kind := kind
  sequence := i.nextSequence
  timestamp := now
  phase := i.state.phase
  activeDeployment :=
    ((i.desired.map (·.deploymentId)).or i.state.actualActive).getD ""
  backend := ((i.desired.map (·.backend)).or i.state.backend).getD ""
  restartCount := i.state.counters.rollingCount

/-- The payload goes to the sink and the sequence number moves on. -/
def sinkEmit (i : Inner) (payload : SupervisionEventPayload) : Inner :=
  { i with
    emitted := i.emitted ++ [payload]
    nextSequence := BackoffScheduler.clampU64 (i.nextSequence + 1) }

def emit (i : Inner) (kind : SupervisionEventKind) (now : ℕ)
    (errorCode : Option ErrorCode := none) (message : Option String := none) : Inner :=
  i.sinkEmit { i.buildPayload kind now with errorCode, message }

/-- `schedule_after_failure`: the decision of the policy, and the phase it
puts the supervisor in. -/
def scheduleAfterFailure (i : Inner) (cls : FailureClass) (now : ℕ) :
    Inner × BackoffDecision × TickOutcome :=
  let (backoff, decision) := i.backoff.onFailure now cls
  let i := { i with backoff, state := { i.state with counters := backoff.counters now } }
  match decision with
  | .restart at' delay =>
    let i := { i with state := { i.state with
      phase := .awaitingRestart, nextRestartAt := some at' } }
    (i.sinkEmit { i.buildPayload .restartScheduled now with
      nextRestartDelayMs := some (BackoffScheduler.clampU64 (delay / 1000000)) },
      decision, .continue)
  | .enterCrashLoop reason =>
    let i := { i with state := { i.state with phase := .crashLoop, nextRestartAt := none } }
    (i.sinkEmit { i.buildPayload .crashLoopEntered now with message := some reason },
      decision, .terminal .crashLoop)
  | .policyDisabled =>
    ({ i with state := { i.state with phase := .stopped, nextRestartAt := none } },
      decision, .continue)

/-- The worker given up: the handle dropped, and what reports it. -/
def dropHandle (i : Inner) : Inner :=
  { i with
    handle := none
    state := { i.state with actualActive := none, actualDeviceIndex := none } }

/-! ## A tick -/

def launchWorker (i : Inner) (a : Answers) : Ticked :=
  match i.desired with
  | none => { inner := i, outcome := .error ⟨.internal, "launch_worker without desired", none⟩ }
  | some desired =>
    let calls := [.launch desired.deploymentId desired.deviceIndex a.launch]
    match a.launch with
    | .ok handle =>
      let i := { i with
        handle := some handle
        launchedAt := some a.now
        afterReady := false
        state := { i.state with
          launchSequence := handle.launchSequence
          phase := .starting
          nextRestartAt := none
          actualActive := some handle.deploymentId
          actualDeviceIndex := handle.deviceIndex } }
      { inner := i.emit .workerStarted a.now, calls }
    | .error err =>
      let i := i.recordFault ⟨.exitBeforeReady, err.code, err.message, i.state.launchSequence,
        some desired.deploymentId⟩ a.now
      let (i, decision, outcome) := i.scheduleAfterFailure .exitBeforeReady a.now
      { inner := i, calls, decision := some decision, outcome := .ok outcome }

/-- The code a failed readiness is reported under. -/
def unreadyCode : FailureClass → ErrorCode
  | .notReadyTimeout => .timeout
  | .healthFailed => .inferenceFailed
  | _ => .notReady

def finalizeUnready (i : Inner) (handle : WorkerHandle) (a : Answers) (cls : FailureClass) :
    Ticked :=
  let fault : SupervisionFault := ⟨cls, unreadyCode cls,
    "worker `" ++ handle.deploymentId ++ "` failed readiness (" ++ cls.debug ++ ")",
    handle.launchSequence, some handle.deploymentId⟩
  let i := (i.dropHandle.recordFault fault a.now).emit .workerNotReady a.now
    (some fault.errorCode) (some fault.message)
  let (i, decision, _) := i.scheduleAfterFailure cls a.now
  { inner := i, calls := [.forceTerminate handle a.forceTerminate], decision := some decision }

def probeReadiness (cfg : SupervisorConfig) (i : Inner) (handle : WorkerHandle) (a : Answers) :
    Ticked :=
  let started := i.launchedAt.getD a.now
  let deadline := addOrStay started (fromMillis cfg.startupTimeoutMs)
  let i := if i.state.phase = .starting then
    { i with state := { i.state with phase := .running } } else i
  let sample := match a.sample with
    | .ok sample => sample
    | .error _ => {}
  if sample.failed then i.finalizeUnready handle a .healthFailed
  else if sample.ready ∧ sample.activeDeployment = some handle.deploymentId then
    let backoff := i.backoff.onReady a.now
    let i := { i with
      afterReady := true
      backoff
      state := { i.state with
        phase := .ready
        actualActive := sample.activeDeployment
        backend := sample.backend.or i.state.backend
        lastReadyAt := some a.now
        lastFailure := none
        counters := backoff.counters a.now } }
    { inner := i.emit .workerReady a.now }
  else if deadline ≤ a.now then i.finalizeUnready handle a .notReadyTimeout
  else { inner := i }

def steadyStatePoll (i : Inner) (handle : WorkerHandle) (a : Answers) : Ticked :=
  match a.sample with
  | .error _ => { inner := i }
  | .ok sample =>
    if sample.failed then i.finalizeUnready handle a .healthFailed
    else if sample.degraded ∧ i.state.phase ≠ .degraded then
      { inner := { i with state := { i.state with phase := .degraded } }.emit .workerDegraded a.now }
    else if sample.ready ∧ i.state.phase = .degraded then
      { inner := { i with state := { i.state with phase := .ready } } }
    else { inner := i }

def exitMessage (status : ExitStatus) : String :=
  match status.code, status.signal with
  | some code, _ => "worker exited with code " ++ toString code
  | none, some sig => "worker terminated by signal " ++ toString sig
  | none, none => "worker exited (unknown cause)"

def onWorkerExit (i : Inner) (handle : WorkerHandle) (status : ExitStatus) (now : ℕ) : Ticked :=
  let afterReady := i.afterReady
  let cls := if afterReady then FailureClass.exitAfterReady else .exitBeforeReady
  let i := { i.dropHandle with afterReady := false }
  if i.stopRequested then
    let i := { i with
      stopRequested := false
      stopStartedAt := none
      forceTerminateAt := none
      state := { i.state with phase := .stopped } }
    { inner := i.sinkEmit { i.buildPayload .workerStopped now with
        exitCode := status.code, exitSignal := status.signal, afterReady := some afterReady,
        message := some "worker stopped cleanly" } }
  else
    let fault : SupervisionFault := ⟨cls, .inferenceFailed, exitMessage status,
      handle.launchSequence, some handle.deploymentId⟩
    let i := i.recordFault fault now
    let i := i.sinkEmit { i.buildPayload .workerExit now with
      exitCode := status.code, exitSignal := status.signal, afterReady := some afterReady,
      failureClass := some cls, errorCode := some fault.errorCode, message := some fault.message }
    let (i, decision, _) := i.scheduleAfterFailure cls now
    { inner := i, decision := some decision, outcome := .ok (.fault fault) }

def driveStop (cfg : SupervisorConfig) (i : Inner) (a : Answers) : Ticked :=
  match i.handle with
  | none => { inner := { i with
      stopRequested := false, state := { i.state with phase := .stopped } } }
  | some handle =>
    match i.stopStartedAt with
    | none =>
      let i := i.emit .workerStopping a.now
      let calls := [.gracefulStop handle a.gracefulStop]
      match a.gracefulStop with
      | .error err => { inner := i, calls, outcome := .error err }
      | .ok () => { calls, inner := { i with
          stopStartedAt := some a.now
          forceTerminateAt :=
            some (addOrStay a.now (fromMillis cfg.gracefulStopTimeoutMs))
          state := { i.state with phase := .stopping } } }
    | some _ =>
      match i.forceTerminateAt with
      | none => { inner := i }
      | some deadline =>
        if deadline ≤ a.now then
          let calls := [.forceTerminate handle a.forceTerminate]
          match a.forceTerminate with
          | .error err => { inner := i, calls, outcome := .error err }
          | .ok () => { inner := { i with forceTerminateAt := none }, calls }
        else { inner := i }

/-- The `tick` once the poll has found the worker running, or none held. -/
def drive (cfg : SupervisorConfig) (i : Inner) (a : Answers) : Ticked :=
  if i.stopRequested then i.driveStop cfg a
  else if i.state.phase.isTerminal then { inner := i }
  else if i.handle.isNone ∧ i.desired.isSome ∧ i.stopHold = false then
    match i.state.nextRestartAt with
    | some next => if a.now < next then { inner := i } else i.launchWorker a
    | none => i.launchWorker a
  else match i.handle with
    | none => { inner := i }
    | some handle =>
      if i.state.phase = .starting ∨ i.state.phase = .running then i.probeReadiness cfg handle a
      else if i.state.phase = .ready ∨ i.state.phase = .degraded then i.steadyStatePoll handle a
      else { inner := i }

def tick (cfg : SupervisorConfig) (i : Inner) (a : Answers) : Ticked :=
  match i.handle with
  | none => i.drive cfg a
  | some handle =>
    let polled := ProcessCall.poll handle a.poll
    match a.poll with
    | .error err => { inner := i, calls := [polled], outcome := .error err }
    | .ok (.exited status) =>
      let t := i.onWorkerExit handle status a.now
      { t with calls := polled :: t.calls }
    | .ok .running =>
      let t := i.drive cfg a
      { t with calls := polled :: t.calls }

end Inner

/-! ## The processes -/

/-- A call on the supervisor, or a worker process that ends by itself. -/
inductive Op
  | setDesiredActive (desired : Option DesiredWorker)
  | requestStop
  | recoverAfterOperatorAction (now : ℕ)
  | tick (answers : Answers)
  | processEnds (process : ℕ)

/-- The supervisor and the processes its launches started, numbered in
launch order; `current` is the one the supervisor's handle was given for. -/
structure Host where
  inner : Inner
  launched : ℕ := 0
  current : Option ℕ := none
  processes : List ℕ := []

namespace Host

def new (cfg : SupervisorConfig) : Host := { inner := .new cfg }

/-- The current process is not running any more. -/
def ended (w : Host) : Host :=
  { w with processes := w.processes.filter fun n => some n ≠ w.current }

/-- What a call on the process does to the processes: a launch that
succeeds starts one, `force_terminate` ends the one the handle names, and
`poll` answers that it exited only once it has. -/
def called (w : Host) : ProcessCall → Host
  | .launch _ _ (.ok _) =>
    { w with
      launched := w.launched + 1
      current := some w.launched
      processes := w.processes ++ [w.launched] }
  | .launch _ _ (.error _) => w
  | .forceTerminate _ _ => w.ended
  | .poll _ (.ok (.exited _)) => w.ended
  | .poll _ _ => w
  | .gracefulStop _ _ => w

def op (cfg : SupervisorConfig) (w : Host) : Op → Host
  | .setDesiredActive desired => { w with inner := w.inner.setDesiredActive desired }
  | .requestStop => { w with inner := w.inner.requestStop }
  | .recoverAfterOperatorAction now =>
    { w with inner := w.inner.recoverAfterOperatorAction now }
  | .tick a =>
    let t := w.inner.tick cfg a
    t.calls.foldl called { w with inner := t.inner }
  | .processEnds process =>
    { w with processes := w.processes.filter (· ≠ process) }

/-- The host after a history, the newest operation at the head. -/
def after (cfg : SupervisorConfig) : List Op → Host
  | [] => .new cfg
  | o :: h => (after cfg h).op cfg o

end Host

end Supervision

end Tensorplate
