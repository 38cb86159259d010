import Tensorplate.Sidecar.Model.JobObjects

/-!
# The sidecar's job table

The unreleased jobs of one connection, the lanes they wait in and the
voice-activity state of each session. Jobs are objects that several places
refer to; a reference is the number of the `job_submit` that made the job.
A call returns what it leaves of the table, or the refusal of an event
that it does not catch.

The log is what was written, in order, with marks of what else happened;
the code keeps neither the marks nor the numbers.
-/

namespace Tensorplate

namespace Sidecar

/-- A session key and a generation. -/
abbrev Session := ℕ × ℕ

/-- A job object, by the number of its `job_submit`. -/
abbrev Ref := ℕ

/-- A `JobBackend`, by the number of the `open` that offered it. -/
structure Backend where
  opened : ℕ
  /-- It is a `VadBackend`. -/
  runsVad : Bool
  deriving DecidableEq, Repr

/-- `EdgeError`. -/
structure EdgeError where
  code : ErrorCode
  message : String
  deriving DecidableEq, Repr

/-- `_permits`: the backend's check, or the failure it raised. -/
inductive Permit
  | permitted
  | notPermitted
  | failed (error : EdgeError)
  deriving DecidableEq, Repr

/-- `Job`. -/
structure Job where
  identity : JobIdentity
  sequence : JobEventSequence
  request : Option JobRequest := none
  backend : Option Backend := none
  cancelled : Bool := false
  vad : Bool := false
  fromReset : Bool := false
  deriving DecidableEq, Repr

/-- `session`. -/
def Job.session (job : Job) : Session := job.identity.session

/-- `_VadSession`; its state is `none` at reset. -/
structure VadSession (σ : Type) where
  utteranceId : ℕ := 0
  state : Option σ := none
  resetNext : Bool := false
  deriving DecidableEq, Repr

/-- A frame, with the identity of its object. -/
structure Frame where
  id : ℕ
  header : Header
  payload : List UInt8

/-- What waits in the main lane. -/
inductive Work
  | job (ref : Ref)
  | frame (f : Frame)

/-- The job of a work item. -/
def Work.ref? : Work → Option Ref
  | .job r => some r
  | .frame _ => none

/-- A frame that was written. -/
inductive Sent
  | event (ref : Ref) (identity : JobIdentity) (event : JobEvent)
  | sessionReleased (session : Session)
  | errorEvent (messageId : Option Value) (error : ErrorObject)

/-- What was written, and what else happened. -/
inductive Entry (σ : Type)
  | sent (message : Sent)
  /-- The table took a `job_submit`, or took note of one that it does not run. -/
  | arrived (ref : Ref) (header : Header)
  /-- A session release became pending. -/
  | pending (session : Session)
  /-- A job of the VAD lane was scored. -/
  | scored (ref : Ref) (session : Session) (utteranceId : ℕ) (state : Option σ)
  /-- A closing request was queued, and later taken. -/
  | closes (frame : ℕ)
  | closed (frame : ℕ)
  /-- `open`, and whether it enabled the backend. -/
  | opened (backend : Backend) (enabled : Bool)
  /-- The backend is given a job, and its state where it is a VAD job. -/
  | started (ref : Ref) (backend : Backend) (given : Option (Option σ))
  /-- The run of a job is over. -/
  | finished (ref : Ref)

def gpuLaneQueueDepth : ℕ := 8
def vadLaneQueueDepth : ℕ := 8
def unaryQueueDepth : ℕ := 8

/-- `JobTable`. -/
structure Table (σ : Type) where
  lane : List Work := []
  vadLane : List Ref := []
  /-- `_jobs`, in the order of insertion. -/
  jobs : List Ref := []
  running : Option Ref := none
  vadRunning : Option Ref := none
  vadSessions : Session → Option (VadSession σ) := fun _ => none
  releasing : Session → Bool := fun _ => false
  backend : Option Backend := none
  classes : List JobClass := []
  closing : List ℕ := []
  everOpened : Bool := false
  /-- The job objects. -/
  objects : Ref → Job := fun _ => ⟨⟨0, 0, 0⟩, { identity := ⟨0, 0, 0⟩ }, none, none, false, false, false⟩
  /-- The number of the next submit, frame or `open`. -/
  next : ℕ := 0
  log : List (Entry σ) := []

namespace Table

variable {σ : Type}

/-- The job object becomes `job`. -/
def setJob (t : Table σ) (r : Ref) (job : Job) : Table σ :=
  { t with objects := fun q => if q = r then job else t.objects q }

/-- The entry of a session becomes `held`. -/
def setSession (t : Table σ) (session : Session) (held : Option (VadSession σ)) : Table σ :=
  { t with vadSessions := fun s => if s = session then held else t.vadSessions s }

/-- The log goes on. -/
def mark (t : Table σ) (entry : Entry σ) : Table σ := { t with log := t.log ++ [entry] }

/-- The live job of an identifier. -/
def find (t : Table σ) (jobId : ℕ) : Option Ref :=
  t.jobs.find? fun q => (t.objects q).identity.jobId = jobId

/-- `_emit`. -/
def emit (t : Table σ) (r : Ref) (event : JobEvent) : Except Refusal (Table σ) := do
  let job := t.objects r
  let identity ← checkIdentity job.identity
  let sequence ← job.sequence.observe identity event
  pure ((t.setJob r { job with sequence := sequence }).mark (.sent (.event r identity event)))

/-- `_settle`. -/
def settle (t : Table σ) (session : Session) : Table σ :=
  if !t.releasing session || t.jobs.any (fun q => (t.objects q).session = session) then t
  else
    let t := { t with releasing := fun s => if s = session then false else t.releasing s }
    (t.setSession session none).mark (.sent (.sessionReleased session))

/-- `_release`. -/
def release (t : Table σ) (r : Ref) : Except Refusal (Table σ) := do
  let job := t.objects r
  let t := { t with
    jobs := t.jobs.filter fun q => (t.objects q).identity.jobId ≠ job.identity.jobId }
  let t := t.setJob r { job with request := none, backend := none }
  let t ← t.emit r .released
  pure (t.settle job.session)

/-- `_reset_next`. -/
def resetNext (t : Table σ) (session : Session) (ending : Option Ref) : Table σ :=
  match t.vadSessions session with
  | some held => t.setSession session (some { held with resetNext := true })
  | none =>
    if t.jobs.any fun q =>
        (t.objects q).vad && (t.objects q).session = session && some q ≠ ending then
      t.setSession session (some { resetNext := true })
    else t

/-- The place behind a job that ends: its own in the lane, the first for a
running job, and the last for one that was refused. -/
def placeBehind (t : Table σ) (r : Ref) : ℕ :=
  if r ∈ t.vadLane then t.vadLane.idxOf r
  else if (t.find (t.objects r).identity.jobId).isSome then 0
  else t.vadLane.length

/-- `_interrupt`. -/
def interrupt (t : Table σ) (r : Ref) : Table σ :=
  let session := (t.objects r).session
  let position := t.placeBehind r
  let t := { t with vadLane := t.vadLane.erase r }
  match (t.vadLane.drop position).find? fun q => (t.objects q).session = session with
  | some following => t.setJob following { t.objects following with fromReset := true }
  | none => t.resetNext session (some r)

/-- The place of the job in its lane is given up. -/
def leaveLane (t : Table σ) (r : Ref) : Table σ :=
  if (t.objects r).vad then t.interrupt r
  else { t with lane := t.lane.eraseP fun work => work.ref? = some r }

/-- The error object of `_end`: a text past its bound gives way to the
fixed one. -/
def endError (code : ErrorCode) (context message : Option String) :
    Except Refusal ErrorObject :=
  let text := match message with
    | some m => if m = "" then code.message else m
    | none => code.message
  match errorObject code text context with
  | .ok error => .ok error
  | .error (.refused _) => errorObject code code.message context
  | .error .malformed => .error .malformed

/-- `_end`. -/
def endJob (t : Table σ) (r : Ref) (code : ErrorCode) (context message : Option String) :
    Except Refusal (Table σ) := do
  let t := t.leaveLane r
  let error ← endError code context message
  let t ← t.emit r (.failed error)
  t.release r

/-- `_refuse`. -/
def refuse (t : Table σ) (header : Header) (context : Option String) :
    Except Refusal (Table σ) := do
  let error ← errorObject .configInvalid ErrorCode.configInvalid.message context
  pure (t.mark (.sent (.errorEvent (get header "message_id") error)))

/-- The session of a `job_submit` of the VAD class. -/
def vadSession? (header : Header) : Option Session :=
  if isText (get header "kind") "job_submit" && isText (get header "job_class") "vad_frames" then
    (readSession header).toOption
  else none

/-- `_reset_unrun`. -/
def resetUnrun (t : Table σ) (header : Header) : Table σ :=
  match vadSession? header with
  | some session => t.resetNext session none
  | none => t

/-- What `handle` does with a message that cannot be read. -/
def refuseRead (t : Table σ) (header : Header) (e : Refusal) : Except Refusal (Table σ) := do
  let t ← t.refuse header (match e with | .refused reason => some reason | .malformed => none)
  pure (t.resetUnrun header)

/-- `_lane_full`. -/
def laneFull (t : Table σ) (vad : Bool) : Bool :=
  if vad then vadLaneQueueDepth ≤ t.vadLane.length
  else gpuLaneQueueDepth ≤ (t.lane.filterMap Work.ref?).length

/-- What `_submit` reads: the identity, and the request or the reason why it
is refused. -/
def readJob (header : Header) (payload : List UInt8) :
    Except Refusal (JobIdentity × Except String JobRequest) :=
  match readSubmit header payload with
  | .error .malformed => .error .malformed
  | .error (.refused reason) => do
    let identity ← readIdentity header
    pure (identity, .error reason)
  | .ok request => do
    let identity ← readIdentity header
    pure (identity, .ok request)

/-- The job object of a submit. -/
def makeJob (header : Header) (backend : Backend) (identity : JobIdentity) :
    Except String JobRequest → Job
  | .error _ =>
    { identity := identity, sequence := { identity := identity },
      vad := isText (get header "job_class") "vad_frames" }
  | .ok request =>
    { identity := identity, sequence := .forRequest request, request := some request,
      backend := some backend, vad := isText (get header "job_class") "vad_frames" }

/-- The job joins the table and its lane. -/
def accept (t : Table σ) (r : Ref) : Except Refusal (Table σ) := do
  let t := { t with jobs := t.jobs ++ [r] }
  let job := t.objects r
  let t := match (if job.vad then t.vadSessions job.session else none) with
    | some held =>
      (t.setJob r { job with fromReset := held.resetNext }).setSession job.session
        (some { held with resetNext := false })
    | none => t
  let t ← t.emit r .accepted
  pure (if job.vad then { t with vadLane := t.vadLane ++ [r] }
    else { t with lane := t.lane ++ [.job r] })

/-- `_submit`, of a message that was read; the job is `r`. -/
def submit (t : Table σ) (r : Ref) (header : Header) (backend : Backend) (permit : Permit)
    (identity : JobIdentity) (request : Except String JobRequest) : Except Refusal (Table σ) :=
  let job := makeJob header backend identity request
  if (t.find identity.jobId).isSome then do
    let t ← t.refuse header (some "duplicate_job_id")
    pure (if job.vad then t.resetNext job.session none else t)
  else
    let t := t.setJob r job
    match request with
    | .error reason => t.endJob r .configInvalid (some reason) none
    | .ok request =>
      if !t.classes.contains request.jobClass then
        t.endJob r .unsupported (some "job_class_unsupported") none
      else
        match permit with
        | .failed error => t.endJob r error.code none (some error.message)
        | .notPermitted => t.endJob r .unsupported (some "job_not_permitted") none
        | .permitted =>
          if t.releasing job.session then
            t.endJob r .notReady (some "session_releasing") none
          else if t.laneFull job.vad then
            t.endJob r .resourceExhausted (some "job_capacity_exhausted") none
          else t.accept r

/-- `_cancel`. -/
def cancel (t : Table σ) (r : Ref) : Except Refusal (Table σ) :=
  let job := t.objects r
  if job.cancelled then pure t
  else do
    let t := t.setJob r { job with cancelled := true, sequence := job.sequence.noteCancelRequested }
    let t ← t.emit r .cancelAcknowledged
    if t.running ≠ some r && t.vadRunning ≠ some r then t.endJob r .cancelled none none else pure t

/-- `_release_session`. -/
def releaseSession (t : Table σ) (session : Session) : Except Refusal (Table σ) := do
  let t := if t.releasing session then t else t.mark (.pending session)
  let t := { t with releasing := fun s => if s = session then true else t.releasing s }
  let t ← (t.jobs.filter fun q => (t.objects q).session = session).foldlM cancel t
  pure (t.settle session)

/-- A submit takes its number. -/
def arrive (t : Table σ) (header : Header) : Table σ :=
  { t with next := t.next + 1, log := t.log ++ [.arrived t.next header] }

/-- `handle`: the table, and whether it took the message. -/
def handle (t : Table σ) (header : Header) (payload : List UInt8) (permit : Permit) :
    Except Refusal (Table σ × Bool) :=
  if isText (get header "kind") "job_submit" then
    match t.backend with
    | none => pure (t, false)
    | some backend =>
      match readJob header payload with
      | .error e => do
        let t ← (t.arrive header).refuseRead header e
        pure (t, true)
      | .ok (identity, request) => do
        let t ← (t.arrive header).submit t.next header backend permit identity request
        pure (t, true)
  else if t.backend.isNone && t.jobs.isEmpty then pure (t, false)
  else if isText (get header "kind") "job_cancel" then
    match readCancel header with
    | .error e => do
      let t ← t.refuseRead header e
      pure (t, true)
    | .ok identity =>
      match t.find identity.jobId with
      | none => pure (t, true)
      | some q =>
        if (t.objects q).identity ≠ identity then do
          let t ← t.refuse header (some "identity_mismatch")
          pure (t, true)
        else do
          let t ← t.cancel q
          pure (t, true)
  else
    match readSessionRelease header with
    | .error e => do
      let t ← t.refuseRead header e
      pure (t, true)
    | .ok session => do
      let t ← t.releaseSession session
      pure (t, true)

/-- `unrun`. -/
def unrun (t : Table σ) (header : Header) : Table σ :=
  if isText (get header "kind") "job_submit" then (t.arrive header).resetUnrun header
  else t.resetUnrun header

/-- `offer`: the table, and whether the request was queued. -/
def offer (t : Table σ) (header : Header) (payload : List UInt8) (closing : Bool) :
    Except Refusal (Table σ × Bool) :=
  if unaryQueueDepth ≤ (t.lane.filter fun work => work.ref?.isNone).length then pure (t, false)
  else do
    let frame : Frame := ⟨t.next, header, payload⟩
    let t := { t with next := t.next + 1 }
    let t ← if closing then
        let t := ({ t with closing := frame.id :: t.closing, backend := none }).mark
          (.closes frame.id)
        (t.lane.filterMap Work.ref? ++ t.vadLane).foldlM
          (fun t r => t.endJob r .unavailable (some "backend_unavailable") none) t
      else pure t
    pure ({ t with lane := t.lane ++ [.frame frame] }, true)

/-- `_closes_under_vad`. -/
def closesUnderVad (t : Table σ) : Bool :=
  match t.lane with
  | .frame f :: _ => t.closing.contains f.id && t.vadRunning.isSome
  | _ => false

/-- `take`, once work is due. -/
def take (t : Table σ) : Option (Table σ × Work) :=
  if t.closesUnderVad then none
  else
    match t.lane with
    | [] => none
    | .job r :: rest => some ({ t with lane := rest, running := some r }, .job r)
    | .frame f :: rest =>
      let t := { t with lane := rest }
      if t.closing.contains f.id then
        some (({ t with closing := t.closing.filter fun id => id ≠ f.id,
                        vadSessions := fun _ => none }).mark (.closed f.id), .frame f)
      else some (t, .frame f)

/-- `take_vad`, once a job is due. -/
def takeVad (t : Table σ) : Option (Table σ × Ref) :=
  match t.vadLane with
  | [] => none
  | r :: rest => some ({ t with vadLane := rest, vadRunning := some r }, r)

/-- `open`. -/
def «open» (t : Table σ) (runsVad : Bool) (classes : List JobClass) : Table σ :=
  let backend : Backend := ⟨t.next, runsVad⟩
  let t := { t with next := t.next + 1, everOpened := true }
  if t.closing.isEmpty then
    ({ t with backend := some backend, classes := classes }).mark (.opened backend true)
  else t.mark (.opened backend false)

end Table

/-! ## A run -/

/-- What the backend makes of a job. -/
inductive Outcome (σ : Type)
  | returned (result : JobResult) (state : Option σ)
  | raised (error : EdgeError)

/-- Where a `run` is between its steps. -/
inductive Stage (σ : Type)
  /-- The job was taken. -/
  | taken
  /-- The session's state was read. -/
  | ready (state : Option σ)
  /-- The backend was called. -/
  | called
  /-- The job was found cancelled. -/
  | skipped
  /-- An error was raised before the call. -/
  | failing (error : EdgeError)

namespace Table

variable {σ : Type}

/-- The first section of `run`: the state the job starts from. -/
def heldState (t : Table σ) (r : Ref) : Option σ :=
  let job := t.objects r
  if job.vad && !job.fromReset then
    match t.vadSessions job.session, job.request with
    | some held, some request => if held.utteranceId = request.utteranceId then held.state else none
    | _, _ => none
  else none

/-- The middle of `run`: what becomes of the job, and the table with the
call marked. -/
def call (t : Table σ) (r : Ref) (state : Option σ) : Table σ × Stage σ :=
  let job := t.objects r
  match job.request, job.backend with
  | some _, some backend =>
    if job.cancelled then (t, .skipped)
    else if job.vad then
      if backend.runsVad then (t.mark (.started r backend (some state)), .called)
      else (t, .failing ⟨.internal, "the backend runs no vad_frames"⟩)
    else (t.mark (.started r backend none), .called)
  | _, _ => (t, .failing ⟨.internal, "the job was released before it ran"⟩)

/-- The job of a lane lets go of its thread. -/
def letGo (t : Table σ) (r : Ref) : Table σ :=
  let t := t.mark (.finished r)
  if (t.objects r).vad then { t with vadRunning := none } else { t with running := none }

/-- The end of a job that failed. -/
def failJob (t : Table σ) (r : Ref) (error : EdgeError) : Except Refusal (Table σ) :=
  t.endJob r error.code none (some error.message)

/-- A job that completed. -/
def complete (t : Table σ) (r : Ref) (rendered : Rendered) (state : Option σ) :
    Except Refusal (Table σ) := do
  let request := (t.objects r).request
  let t ← t.emit r (.completed rendered)
  let job := t.objects r
  let t := match job.vad, request with
    | true, some request =>
      let held := (t.vadSessions job.session).getD {}
      (t.setSession job.session
        (some { held with utteranceId := request.utteranceId, state := state })).mark
        (.scored r job.session request.utteranceId state)
    | _, _ => t
  t.release r

/-- The last section of `run`. -/
def finish (t : Table σ) (r : Ref) (stage : Stage σ) (outcome : Outcome σ) :
    Except Refusal (Table σ) :=
  let t := t.letGo r
  if (t.objects r).cancelled then t.endJob r .cancelled none none
  else
    match stage, outcome with
    | .failing error, _ | .called, .raised error => t.failJob r error
    | .called, .returned result state =>
      match renderResult result with
      | .error .malformed => t.failJob r ⟨.internal, ErrorCode.internal.message⟩
      | .error (.refused reason) => t.endJob r .inferenceFailed (some reason) none
      | .ok rendered =>
        match (t.objects r).sequence.observe (t.objects r).identity (.completed rendered) with
        | .error .malformed => t.failJob r ⟨.internal, ErrorCode.internal.message⟩
        | .error (.refused reason) => t.endJob r .inferenceFailed (some reason) none
        | .ok _ => t.complete r rendered state
    | _, _ => t.endJob r .cancelled none none

end Table

/-! ## The threads -/

/-- The serving thread. -/
inductive Serving (σ : Type)
  | idle
  | running (ref : Ref) (stage : Stage σ)
  | dispatching (frame : Frame) (opened : Bool)

/-- The table and the threads that work on it. -/
structure World (σ : Type) where
  table : Table σ := {}
  serving : Serving σ := .idle
  vad : Option (Ref × Stage σ) := none

/-- `_reject_bad_schema`. -/
def schemaOk (header : Header) : Bool :=
  isText (get header "schema_version") "0.1" &&
    (match get header "message_id" with | some (.str s) => s ≠ "" | _ => false) &&
    (match get header "kind" with | some (.str s) => s ≠ "" | _ => false)

/-- A request that replaces or unloads the backend. -/
def closes (header : Header) : Bool :=
  schemaOk header &&
    (isText (get header "kind") "load_model" || isText (get header "kind") "unload")

/-- `_JOB_KINDS`. -/
def isJobKind (header : Header) : Bool :=
  schemaOk header && (isText (get header "kind") "job_submit" ||
    isText (get header "kind") "job_cancel" || isText (get header "kind") "session_release")

/-- A step of one of the threads. -/
inductive Act (σ : Type)
  | handle (header : Header) (payload : List UInt8) (permit : Permit)
  | unrun (header : Header)
  | offer (header : Header) (payload : List UInt8)
  | take
  | «open» (runsVad : Bool) (classes : List JobClass)
  | dispatched
  | takeVad
  /-- The steps of a run on the serving thread, or on the VAD thread. -/
  | readState (vad : Bool)
  | call (vad : Bool)
  | finish (vad : Bool) (outcome : Outcome σ)

namespace World

variable {σ : Type}

/-- The run of a thread. -/
def runOf (w : World σ) (vad : Bool) : Option (Ref × Stage σ) :=
  if vad then w.vad
  else
    match w.serving with
    | .running r stage => some (r, stage)
    | _ => none

/-- The run of a thread goes on. -/
def setRun (w : World σ) (vad : Bool) (r : Ref) (stage : Stage σ) : World σ :=
  if vad then { w with vad := some (r, stage) } else { w with serving := .running r stage }

/-- The run of a thread is over. -/
def endRun (w : World σ) (vad : Bool) : World σ :=
  if vad then { w with vad := none } else { w with serving := .idle }

/-- One step; it is not enabled where the thread is elsewhere, and leaves
no world where a refused event escapes. -/
def step (w : World σ) : Act σ → Option (World σ)
  | .handle header payload permit =>
    if isJobKind header then
      match w.table.handle header payload permit with
      | .ok (t, _) => some { w with table := t }
      | .error _ => none
    else none
  | .unrun header => some { w with table := w.table.unrun header }
  | .offer header payload =>
    match w.table.offer header payload (closes header) with
    | .ok (t, _) => some { w with table := t }
    | .error _ => none
  | .take =>
    match w.serving, w.table.take with
    | .idle, some (t, .job r) => some { w with table := t, serving := .running r .taken }
    | .idle, some (t, .frame f) => some { w with table := t, serving := .dispatching f false }
    | _, _ => none
  | .open runsVad classes =>
    match w.serving with
    | .dispatching f false =>
      if schemaOk f.header && isText (get f.header "kind") "load_model" then
        some { w with table := w.table.open runsVad classes, serving := .dispatching f true }
      else none
    | _ => none
  | .dispatched =>
    match w.serving with
    | .dispatching _ _ => some { w with serving := .idle }
    | _ => none
  | .takeVad =>
    match w.vad, w.table.takeVad with
    | none, some (t, r) => some { w with table := t, vad := some (r, .taken) }
    | _, _ => none
  | .readState vad =>
    match w.runOf vad with
    | some (r, .taken) => some (w.setRun vad r (.ready (w.table.heldState r)))
    | _ => none
  | .call vad =>
    match w.runOf vad with
    | some (r, .ready state) =>
      let (t, stage) := w.table.call r state
      some ({ w with table := t }.setRun vad r stage)
    | _ => none
  | .finish vad outcome =>
    match w.runOf vad with
    | some (r, stage) =>
      match stage with
      | .called | .skipped | .failing _ =>
        match w.table.finish r stage outcome with
        | .ok t => some ({ w with table := t }.endRun vad)
        | .error _ => none
      | _ => none
    | none => none

end World

end Sidecar

end Tensorplate
