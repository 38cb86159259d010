import Tensorplate.Channel.Model.ReleasedSessionKeys
import Tensorplate.Core.JobEvent
import Tensorplate.Lib.Table

/-!
# The job channel under its mutex

The state `JobChannel` guards with its one mutex and the functions that run
while it is held: the table of unreleased jobs, the pending session
releases, the record of released sessions, the queue the writer drains, the
exchange that waits and the health probe that is unanswered. Each returns
the sink calls it decides. Frames are told apart by what they were queued
for, not by their bytes.
-/

namespace Tensorplate

namespace Channel

open Lib

/-- `kMaxOpenJobs`. -/
def kMaxOpenJobs : ℕ := 16

/-- `kMaxPendingSessionReleases`. -/
def kMaxPendingSessionReleases : ℕ := 2048

/-- `kMaxQueuedFrames`. -/
def kMaxQueuedFrames : ℕ := 2 * kMaxOpenJobs + kMaxPendingSessionReleases + 2

/-- `kMaxWireInteger`. -/
def kMaxWireInteger : ℕ := 2 ^ 53 - 1

def kBackendReset : String := "backend_reset"

def kSessionUnloaded : String := "session_unloaded"

/-- `JobChannel::Phase`. -/
inductive Phase
  | idle
  | started
  | admitting
  | closing
  | stopped
  deriving DecidableEq, Repr

/-- `JobChannel::Job`. `serial` tells submissions apart: a released job's id
may be submitted again. -/
structure Job where
  identity : JobIdentity
  sequence : JobEventSequence
  submitMessageId : String
  /-- Empty until a `job_cancel` was queued. -/
  cancelMessageId : String := ""
  serial : ℕ

/-- `JobChannel::PendingRelease`. -/
structure PendingRelease where
  generation : ℕ
  acknowledged : Bool := false

/-- `JobChannel::QueuedFor`. -/
inductive QueuedFor
  | submit
  | cancel
  | release
  | exchange
  | probe
  deriving DecidableEq, Repr

/-- `JobChannel::QueuedFrame`, with the connection it was queued on. -/
structure QueuedFrame where
  owner : QueuedFor
  key : ℕ
  connection : ℕ
  deriving DecidableEq, Repr

/-- One sink call: a job event, or a session release. -/
inductive Delivery
  | event (serial : ℕ) (event : JobEvent)
  | sessionReleased (sessionKey generation : ℕ)
  deriving DecidableEq

/-- A frame from the sidecar, as far as an exchange's caller is given it. -/
structure SidecarFrame where
  header : String
  deriving DecidableEq, Repr

/-- `JobChannel::UnaryWaiter`: the exchange that waits. -/
structure UnaryWaiter where
  ticket : ℕ
  messageId : String
  deriving DecidableEq, Repr

/-- `JobChannel::HealthProbe`. -/
structure HealthProbe where
  messageId : String
  waiting : ℕ := 0
  outcome : Option (Except Error Unit) := none

/-- `JobChannelCounters`. -/
structure Counters where
  droppedJobMessages : ℕ := 0
  droppedOtherMessages : ℕ := 0
  deriving DecidableEq, Repr

/-- The state under the mutex. `probes` holds every probe there was, so that
callers that share one can still read it; `messages` numbers the process's
message ids, `serials` the submissions and `connection` the starts. -/
structure JobChannel where
  manager : Bool := true
  phase : Phase := .idle
  retired : Bool := false
  ended : Bool := false
  stopping : Bool := false
  stopReason : String := ""
  failure : Option Error := none
  writeFailure : Option Error := none
  jobClasses : List JobClass := []
  sink : Bool := false
  sinkDetached : Bool := false
  jobs : Table Job := ∅
  messageJobs : List (String × ℕ) := []
  releasing : Table PendingRelease := ∅
  releasedSessions : ReleasedSessionKeys := {}
  outbox : List QueuedFrame := []
  unary : Option UnaryWaiter := none
  /-- What the exchanges that were answered got. -/
  outcomes : List (ℕ × Except Error SidecarFrame) := []
  probe : Option ℕ := none
  probes : List HealthProbe := []
  counters : Counters := {}
  owedCallbacks : ℕ := 0
  messages : ℕ := 0
  serials : ℕ := 0
  tickets : ℕ := 0
  connection : ℕ := 0
  /-- A refusal looked up a job that was not there. -/
  missingJob : Bool := false

/-- `refusal`. -/
def refusal (code : ErrorCode) (reason : String) : Error :=
  Error.make code ("job channel: " ++ reason) reason

/-- `next_message_id`. -/
def messageId (n : ℕ) : String := "tp-msg-" ++ toString n

/-! ## The wire -/

/-- `refusal` of the wire's encoders. -/
def wireRefusal (reason message : String) : Error := Error.make .configInvalid message reason

/-- `write_envelope`: why the header cannot be written. -/
def envelopeRefusal (messageId : String) (fields : List (String × ℕ)) : Option Error :=
  if messageId = "" then some (wireRefusal "message_id_empty" "a message needs a message_id")
  else fields.findSome? fun (name, value) =>
    if value = 0 then some (wireRefusal (name ++ "_zero") (name ++ " is zero"))
    else if value > kMaxWireInteger then
      some (wireRefusal "wire_integer_out_of_range" (name ++ " exceeds 2^53 - 1"))
    else none

def identityFields (identity : JobIdentity) : List (String × ℕ) :=
  [("job_id", identity.jobId), ("session_key", identity.sessionKey),
    ("generation", identity.generation)]

/-- The widest field of a job's input. -/
def widestInput : JobPayload → ℕ
  | .audioFrames _ startSample => startSample
  | .textSegment _ => 0
  | .vadFrames _ _ _ utteranceId => utteranceId

/-- `encode_job_submit`: why there is no header. -/
def encodeJobSubmit (s : SubmittedJob) (messageId : String) : Option Error :=
  match envelopeRefusal messageId (identityFields s.identity) with
  | some error => some error
  | none =>
    if widestInput s.request.payload > kMaxWireInteger then
      some (wireRefusal "wire_integer_out_of_range" "a job_submit input field exceeds 2^53 - 1")
    else none

/-- `encode_job_cancel`. -/
def encodeJobCancel (identity : JobIdentity) (messageId : String) : Option Error :=
  envelopeRefusal messageId (identityFields identity)

/-- `encode_session_release`. -/
def encodeSessionRelease (sessionKey generation : ℕ) (messageId : String) : Option Error :=
  envelopeRefusal messageId [("session_key", sessionKey), ("generation", generation)]

/-- `encode_health_check`. -/
def encodeHealthCheck (messageId : String) : Option Error := envelopeRefusal messageId []

/-- `cut_to_job_error_bound`: the longest beginning of whole characters that
fits. -/
def cutChars (room : ℕ) : List Char → List Char
  | [] => []
  | c :: cs => if c.utf8Size ≤ room then c :: cutChars (room - c.utf8Size) cs else []

def cutToJobErrorBound (text : String) : String :=
  String.ofList (cutChars kMaxJobErrorTextBytes text.toList)

/-- `bounded`. -/
def bounded (error : Error) : Error :=
  { error with message := cutToJobErrorBound error.message,
               context := error.context.map cutToJobErrorBound }

/-- `SessionReleased`, as a fault may name it. -/
structure SessionName where
  sessionKey : ℕ
  generation : ℕ
  deriving DecidableEq, Repr

/-- `SidecarJobMessage`, without `UnreadableHeader`. -/
inductive SidecarJobMessage
  | notJob (messageId : String)
  | event (event : JobEvent)
  | sessionReleased (sessionKey generation : ℕ)
  | refused (messageId : String) (error : Error)
  | fault (jobId : ℕ) (error : Error) (session : Option SessionName)

/-! ## Queue and probe -/

namespace JobChannel

/-- `queue_locked`. -/
def queueLocked (c : JobChannel) (owner : QueuedFor) (key : ℕ) : JobChannel :=
  { c with outbox := c.outbox ++ [⟨owner, key, c.connection⟩] }

/-- `unqueue_locked`. -/
def unqueueLocked (c : JobChannel) (owner : QueuedFor) (key : ℕ) : JobChannel :=
  { c with outbox := c.outbox.filter fun f => !(f.owner = owner ∧ f.key = key) }

def dropJobMessage (c : JobChannel) : JobChannel :=
  { c with counters := { c.counters with
      droppedJobMessages := c.counters.droppedJobMessages + 1 } }

def dropOtherMessage (c : JobChannel) : JobChannel :=
  { c with counters := { c.counters with
      droppedOtherMessages := c.counters.droppedOtherMessages + 1 } }

/-- `live_locked`. -/
def live (c : JobChannel) : Bool := c.phase ≠ .idle && c.phase ≠ .stopped && !c.ended

/-- `not_running_locked`. -/
def notRunning (c : JobChannel) : Option Error :=
  if c.retired then some (refusal .unavailable "backend_unavailable")
  else if c.phase = .idle ∨ c.phase = .started ∨ c.manager = false then
    some (refusal .notReady "backend_not_ready")
  else if c.phase ≠ .admitting ∨ c.ended = true then
    some (refusal .unavailable "backend_unavailable")
  else none

/-- The probe that stands. -/
def standing (c : JobChannel) : Option HealthProbe := c.probe.bind fun i => c.probes[i]?

/-- `names_probe_locked`. -/
def namesProbe (c : JobChannel) (messageId : String) : Bool :=
  c.standing.any fun p => p.messageId = messageId

/-- `end_probe_locked`. -/
def endProbeLocked (c : JobChannel) (outcome : Except Error Unit) : JobChannel :=
  match c.probe with
  | none => c
  | some i =>
    { c with probes := c.probes.modify i fun p => { p with outcome := some outcome },
             probe := none }.unqueueLocked .probe 0

/-- `answer_probe_locked`. -/
def answerProbeLocked (c : JobChannel) (outcome : Except Error Unit) : JobChannel :=
  let c := if c.standing.any fun p => p.waiting = 0 then c.dropOtherMessage else c
  c.endProbeLocked outcome

/-- The exchange that waits is answered. -/
def answerUnary (c : JobChannel) (outcome : Except Error SidecarFrame) : JobChannel :=
  match c.unary with
  | none => c
  | some waiter =>
    { c with outcomes := c.outcomes ++ [(waiter.ticket, outcome)], unary := none }.unqueueLocked
      .exchange 0

/-- `offer_unary_locked`. -/
def offerUnaryLocked (c : JobChannel) (frame : SidecarFrame) (messageId : Option String) :
    JobChannel :=
  match c.unary with
  | none => c.dropOtherMessage
  | some waiter =>
    if messageId.all fun id => id = waiter.messageId then c.answerUnary (.ok frame)
    else c.dropOtherMessage

/-- `offer_other_locked`. `health` is what the frame says of the backend. -/
def offerOtherLocked (c : JobChannel) (messageId : String) (frame : SidecarFrame)
    (health : Except Error Unit) : JobChannel :=
  if c.namesProbe messageId then c.answerProbeLocked health
  else c.offerUnaryLocked frame none

/-! ## Jobs and sessions -/

/-- `acknowledge_locked`. -/
def acknowledgeLocked (c : JobChannel) (key : ℕ) (pending : PendingRelease) :
    JobChannel × List Delivery :=
  ({ c with releasedSessions := c.releasedSessions.insert key,
            releasing := c.releasing.erase key }.unqueueLocked .release key,
    [.sessionReleased key pending.generation])

/-- `settle_locked`. -/
def settleLocked (c : JobChannel) (key : ℕ) : JobChannel × List Delivery :=
  match c.releasing[key]? with
  | none => (c, [])
  | some pending =>
    if !pending.acknowledged || c.jobs.values.any fun job => job.identity.sessionKey = key then
      (c, [])
    else c.acknowledgeLocked key pending

/-- The job leaves the table, with what named it. -/
def eraseJob (c : JobChannel) (jobId : ℕ) (job : Job) : JobChannel :=
  ({ c with
      messageJobs := c.messageJobs.filter fun m =>
        m.1 ≠ job.submitMessageId ∧ m.1 ≠ job.cancelMessageId
      jobs := c.jobs.erase jobId }.unqueueLocked .submit jobId).unqueueLocked .cancel jobId

/-- `forget_locked`. -/
def forgetLocked (c : JobChannel) (jobId : ℕ) (job : Job) : JobChannel × List Delivery :=
  (c.eraseJob jobId job).settleLocked job.identity.sessionKey

/-- A job with the sequence it has moved to. -/
def setSequence (c : JobChannel) (jobId : ℕ) (job : Job) (sequence : JobEventSequence) :
    JobChannel :=
  { c with jobs := c.jobs.insert jobId { job with sequence := sequence } }

end JobChannel

/-- The event and what the sequence becomes, where it accepts it. -/
def Job.told (job : Job) (event : Except Error JobEvent) : Option (JobEvent × JobEventSequence) :=
  match event with
  | .error _ => none
  | .ok e =>
    match job.sequence.observe e with
    | .error _ => none
    | .ok q => some (e, q)

/-- `fail_locked`, as far as it tells the job. -/
def Job.toldFailed (job : Job) (error : Error) : Option (JobEvent × JobEventSequence) :=
  job.told (JobEvent.failed job.identity (bounded error))

/-- The job behind `fail_locked`. -/
def Job.afterFail (job : Job) (error : Error) : Job :=
  match job.toldFailed error with
  | none => job
  | some (_, q) => { job with sequence := q }

namespace JobChannel

/-- `fail_locked`. -/
def failLocked (c : JobChannel) (jobId : ℕ) (job : Job) (error : Error) :
    JobChannel × List Delivery :=
  match job.toldFailed error with
  | none => (c, [])
  | some (e, q) => (c.setSequence jobId job q, [.event job.serial e])

/-- `release_locked`. -/
def releaseLocked (c : JobChannel) (jobId : ℕ) (job : Job) : JobChannel × List Delivery :=
  match job.told (JobEvent.released job.identity) with
  | none => c.forgetLocked jobId job
  | some (e, q) =>
    let (c', out) := (c.setSequence jobId job q).forgetLocked jobId { job with sequence := q }
    (c', .event job.serial e :: out)

/-- `unloaded_locked`, with the event that stands where it returns none. -/
def unloadedLocked (c : JobChannel) (event : JobEvent) : JobEvent :=
  if c.phase ≠ .closing then event
  else match event.error with
    | none => event
    | some error =>
      if error.code = .unavailable ∧ error.context = some "backend_unavailable" then
        match JobEvent.failed event.identity { error with context := some kSessionUnloaded } with
        | .ok unloaded => unloaded
        | .error _ => event
      else event

/-- `admit_locked`. The last part says whether the sink receives the event
itself. -/
def admitLocked (c : JobChannel) (received : JobEvent) : JobChannel × List Delivery × Bool :=
  let event := c.unloadedLocked received
  match c.jobs[event.identity.jobId]? with
  | none => (c.dropJobMessage, [], false)
  | some job =>
    let jobId := event.identity.jobId
    match job.sequence.observe event with
    | .error refusedWith =>
      if job.sequence.terminal || event.identity ≠ job.identity then
        (c.dropJobMessage, [], false)
      else
        -- a sidecar fault: the job ends with the refusal in the event's place
        let (c', out) := c.failLocked jobId job refusedWith
        if event.body ≠ .released then (c', out, false)
        else
          let (c'', out') := c'.releaseLocked jobId (job.afterFail refusedWith)
          (c'', out ++ out', false)
    | .ok q =>
      let c' := c.setSequence jobId job q
      if event.body = .released then
        let (c'', out) := c'.forgetLocked jobId { job with sequence := q }
        (c'', .event job.serial event :: out, !c.sinkDetached)
      else (c', [.event job.serial event], !c.sinkDetached)

/-- The part of `refuse_locked` for a message that named a job. -/
def refuseJobLocked (c : JobChannel) (jobId : ℕ) (messageId : String) (error : Error) :
    JobChannel × List Delivery :=
  match c.jobs[jobId]? with
  | none => ({ c with missingJob := true }, [])
  | some job =>
    if job.submitMessageId ≠ messageId then (c.dropJobMessage, [])
    else
      let (c', out) := c.failLocked jobId job error
      let (c'', out') := c'.releaseLocked jobId (job.afterFail error)
      (c'', out ++ out')

/-- `refuse_locked`. -/
def refuseLocked (c : JobChannel) (messageId : String) (error : Error) (frame : SidecarFrame) :
    JobChannel × List Delivery :=
  match c.messageJobs.lookup messageId with
  | none =>
    if c.namesProbe messageId then
      (c.answerProbeLocked (.error (Error.make .unavailable error.message "backend_unavailable")),
        [])
    else (c.offerUnaryLocked frame (some messageId), [])
  | some jobId => c.refuseJobLocked jobId messageId error

/-- The part of `route` for a fault in a message about a job. -/
def faultLocked (c : JobChannel) (jobId : ℕ) (error : Error) (session : Option SessionName) :
    JobChannel × List Delivery :=
  let counted := if jobId ≠ 0 ∨ session.isSome then c.dropJobMessage else c.dropOtherMessage
  match c.jobs[jobId]? with
  | none => (counted, [])
  | some job => if job.sequence.terminal then (counted, []) else c.failLocked jobId job error

/-- The part of `route` for a `session_released`. -/
def releasedLocked (c : JobChannel) (key generation : ℕ) : JobChannel × List Delivery :=
  match c.releasing[key]? with
  | none => (c.dropJobMessage, [])
  | some pending =>
    if pending.acknowledged || pending.generation ≠ generation then (c.dropJobMessage, [])
    else
      { c with releasing := c.releasing.insert key { pending with acknowledged := true }
        }.settleLocked key

/-- The locked part of `route`: the calls it decides, and whether the sink
receives the message's own event. -/
def routeLocked (c : JobChannel) (message : SidecarJobMessage) (frame : SidecarFrame)
    (health : Except Error Unit) : JobChannel × List Delivery × Bool :=
  match message with
  | .event event => c.admitLocked event
  | .fault jobId error session =>
    let (c', out) := c.faultLocked jobId error session
    (c', out, false)
  | .sessionReleased key generation =>
    let (c', out) := c.releasedLocked key generation
    (c', out, false)
  | .refused messageId error =>
    let (c', out) := c.refuseLocked messageId error frame
    (c', out, false)
  | .notJob messageId => (c.offerOtherLocked messageId frame health, [], false)

/-- The error a job ends with when its connection does. -/
def endedError (c : JobChannel) : Error :=
  Error.make .unavailable "the sidecar connection ended"
    (if c.stopping then c.stopReason else kBackendReset)

/-- The jobs of a connection that ends fail, in the order of their ids. -/
def failJobs (c : JobChannel) (error : Error) : List (ℕ × Job) → JobChannel × List Delivery
  | [] => (c, [])
  | (jobId, job) :: rest =>
    let (c', out) := c.failLocked jobId job error
    let (c'', out') := c'.failJobs error rest
    (c'', out ++ out')

/-- The locked part of `end_connection`. -/
def endLocked (c : JobChannel) (error : Error) : JobChannel × List Delivery :=
  let failure := c.writeFailure.getD error
  let c := { c with failure := some failure, ended := true }
  let c := c.answerUnary (.error failure)
  let c := c.endProbeLocked (.error (refusal .unavailable "backend_unavailable"))
  c.failJobs c.endedError c.jobs.toList

/-- The jobs of a stopped channel are released, in the order of their ids. -/
def releaseJobs (c : JobChannel) : List (ℕ × Job) → JobChannel × List Delivery
  | [] => (c, [])
  | (jobId, job) :: rest =>
    let (c', out) := c.releaseLocked jobId job
    let (c'', out') := c'.releaseJobs rest
    (c'', out ++ out')

/-- The pending releases of a stopped channel are acknowledged. -/
def acknowledgeAll (c : JobChannel) : List (ℕ × PendingRelease) → JobChannel × List Delivery
  | [] => (c, [])
  | (key, pending) :: rest =>
    let (c', out) := c.acknowledgeLocked key pending
    let (c'', out') := c'.acknowledgeAll rest
    (c'', out ++ out')

/-- The last locked part of `stop`. -/
def stopLocked (c : JobChannel) : JobChannel × List Delivery :=
  let (c', out) := c.releaseJobs c.jobs.toList
  let (c'', out') := c'.acknowledgeAll c'.releasing.toList
  ({ c'' with failure := none, writeFailure := none, ended := false, stopping := false,
              phase := .stopped }, out ++ out')

/-- `owe_locked`: the batch the caller delivers. -/
def oweLocked (c : JobChannel) (out : List Delivery) : JobChannel × List Delivery :=
  if c.sinkDetached then (c, [])
  else ({ c with owedCallbacks := c.owedCallbacks + out.length }, out)

end JobChannel

end Channel

end Tensorplate
